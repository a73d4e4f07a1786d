import Xperimentum.Lib.Int32
import Xperimentum.WMcore.ShellQuoting
import Xperimentum.WMcore.TokenSplitting

/-! `wtokenjoin`, and what `wtokensplit` gets back of its tokens. -/

namespace Xperimentum.WMcore

open Lib.Int32

/-- Appends to the text in a block of which `siz` bytes may be used; the result is the length it would have had. -/
def wstrlcat (dst : Block) (src : Text) (siz : ℕ) : Option (Block × ℕ) :=
  let dlen := min siz dst.bytes.length
  if siz - dlen = 0 then some (dst, dlen + src.length)
  else do
    let filled ← dst.putAll (src.take (siz - dlen - 1))
    let _ ← filled.put 0
    pure (filled, dlen + src.length)

/-- `strpbrk(list[i], " \t")` finds something. -/
def hasBlank (token : Text) : Bool := token.any fun ch => ch = 32 || ch = 9

/-- `list[i] != NULL && list[i][0] != 0` -/
def present : Option Text → Option Text
  | some (ch :: token) => some (ch :: token)
  | _ => none

def joinedLength (list : List (Option Text)) : ℤ :=
  list.foldl (fun j token =>
    match present token with
    | some token =>
      let j := wrap32 (j + token.length)
      if hasBlank token then wrap32 (j + 2) else j
    | none => j) 0

/-- `wstrlcat(flat_string, src, size) >= size` leads to `error`, which is no block here. -/
def catText (size : ℕ) (src : Text) (flat : Option Block) : Option (Option Block) :=
  match flat with
  | none => some none
  | some flat => (wstrlcat flat src size).map fun (flat, length) => if size ≤ length then none else some flat

def catTextIf (c : Bool) (size : ℕ) (src : Text) (flat : Option Block) : Option (Option Block) :=
  if c then catText size src flat else some flat

def joinFrom (size : ℕ) : ℕ → List (Option Text) → Option Block → Option (Option Block)
  | _, [], flat => some flat
  | i, token :: list, flat =>
    match present token with
    | some token => do
      let flat ← catTextIf (0 < i) size [32] flat
      let flat ← catTextIf (hasBlank token) size [34] flat
      let flat ← catText size token flat
      let flat ← catTextIf (hasBlank token) size [34] flat
      joinFrom size (i + 1) list flat
    | none => joinFrom size (i + 1) list flat

/-- No result is a write behind the block; no text is `NULL`, or a size that there is no memory of. -/
def wtokenjoin (list : List (Option Text)) : Option (Option Text) :=
  let size := wrap32 (joinedLength list + list.length + 1)
  if size < 1 then some none
  else (joinFrom size.toNat 0 list (some ⟨size.toNat, []⟩)).map fun flat => flat.map Block.bytes

/-! What is written. -/

def quotedToken (token : Text) : Text := if hasBlank token then 34 :: (token ++ [34]) else token

def joinText : ℕ → List (Option Text) → Text
  | _, [] => []
  | i, token :: list =>
    match present token with
    | some token => (if 0 < i then [32] else []) ++ (quotedToken token ++ joinText (i + 1) list)
    | none => joinText (i + 1) list

/-- The block that a text with its end fits into. -/
def fits (size : ℕ) (text : Text) : Option Block := if text.length < size then some ⟨size, text⟩ else none

lemma catText_fits (size : ℕ) (src text : Text) : catText size src (fits size text) = some (fits size (text ++ src)) := by
  simp only [fits, List.length_append]
  by_cases htext : text.length < size
  · have hdlen : min size text.length = text.length := min_eq_right htext.le
    have hroom : ¬size - text.length = 0 := by omega
    have htake : (src.take (size - text.length - 1)).length ≤ size - text.length - 1 := List.length_take_le _ _
    have hfilled : Block.putAll (src.take (size - text.length - 1)) ⟨size, text⟩ =
        some ⟨size, text ++ src.take (size - text.length - 1)⟩ := putAll_of_le (by dsimp only; omega)
    have hend : Block.put 0 ⟨size, text ++ src.take (size - text.length - 1)⟩ ≠ none := by
      rw [Block.put, if_pos]
      · exact Option.some_ne_none _
      · change (text ++ src.take (size - text.length - 1)).length < size
        rw [List.length_append]
        omega
    obtain ⟨ended, hended⟩ := Option.ne_none_iff_exists'.mp hend
    rw [if_pos htext, catText, wstrlcat]
    dsimp only
    rw [hdlen, if_neg hroom]
    simp only [bind, hfilled, Option.bind_some, hended, pure, Option.map_some]
    split_ifs with hsize hfits hfits
    · omega
    · rfl
    · rw [List.take_of_length_le (by omega)]
    · omega
  · rw [if_neg htext, if_neg (by omega)]
    rfl

lemma catTextIf_fits (c : Bool) (size : ℕ) (src text : Text) :
    catTextIf c size src (fits size text) = some (fits size (text ++ if c then src else [])) := by
  cases c
  · rw [if_neg Bool.false_ne_true, List.append_nil]
    rfl
  · exact catText_fits size src text

lemma joinFrom_fits (size : ℕ) (list : List (Option Text)) (i : ℕ) (text : Text) :
    joinFrom size i list (fits size text) = some (fits size (text ++ joinText i list)) := by
  induction list generalizing i text with
  | nil => rw [joinFrom, joinText, List.append_nil]
  | cons token list ih =>
    rw [joinFrom, joinText]
    split
    · next token _ =>
      simp only [bind, catTextIf_fits, catText_fits, Option.bind_some, ih, quotedToken]
      cases hasBlank token
      · simp
      · simp
    · exact ih _ _

lemma wtokenjoin_eq (list : List (Option Text)) : wtokenjoin list =
    some (if wrap32 (joinedLength list + list.length + 1) < 1 then none
      else (fits (wrap32 (joinedLength list + list.length + 1)).toNat (joinText 0 list)).map Block.bytes) := by
  simp only [wtokenjoin]
  split_ifs with hsize
  · rfl
  · have hempty : (some ⟨(wrap32 (joinedLength list + list.length + 1)).toNat, []⟩ : Option Block) =
        fits (wrap32 (joinedLength list + list.length + 1)).toNat [] := by
      rw [fits, if_pos (by rw [List.length_nil]; omega)]
    rw [hempty, joinFrom_fits]
    rfl

def spaced (tokens : List Text) : Text := tokens.flatMap fun token => 32 :: quotedToken token

lemma present_of_ne {token : Text} (h : token ≠ []) : present (some token) = some token := by
  cases token with
  | nil => exact absurd rfl h
  | cons ch token => rfl

lemma joinText_spaced {tokens : List Text} (h : ∀ token ∈ tokens, token ≠ []) {i : ℕ} (hi : 0 < i) :
    joinText i (tokens.map some) = spaced tokens := by
  induction tokens generalizing i with
  | nil => rfl
  | cons token tokens ih =>
    rw [List.forall_mem_cons] at h
    rw [List.map_cons, joinText, present_of_ne h.1]
    simp only [if_pos hi, ih h.2 (Nat.succ_pos i)]
    rfl

lemma joinText_cons {token : Text} {tokens : List Text} (h : ∀ t ∈ token :: tokens, t ≠ []) :
    joinText 0 ((token :: tokens).map some) = quotedToken token ++ spaced tokens := by
  rw [List.forall_mem_cons] at h
  rw [List.map_cons, joinText, present_of_ne h.1]
  simp only [joinText_spaced h.2 Nat.one_pos]
  rfl

/-- The size that the block should have. -/
def joinedSize (tokens : List Text) : ℕ := (tokens.map fun token => (quotedToken token).length).sum + tokens.length + 1

lemma length_spaced (tokens : List Text) : (spaced tokens).length + 1 = joinedSize tokens := by
  induction tokens with
  | nil => rfl
  | cons token tokens ih =>
    rw [joinedSize] at ih ⊢
    rw [spaced, List.flatMap_cons, List.length_append, List.length_cons, List.map_cons, List.sum_cons, List.length_cons,
      ← spaced]
    omega

lemma length_joinText {tokens : List Text} (h : ∀ token ∈ tokens, token ≠ []) :
    (joinText 0 (tokens.map some)).length < joinedSize tokens ∧
      joinedSize tokens ≤ (joinText 0 (tokens.map some)).length + 2 := by
  cases tokens with
  | nil => exact ⟨Nat.zero_lt_one, Nat.le_succ 1⟩
  | cons token tokens =>
    have hspaced := length_spaced tokens
    rw [joinText_cons h, List.length_append]
    rw [joinedSize] at hspaced ⊢
    rw [List.map_cons, List.sum_cons, List.length_cons]
    omega

lemma length_quotedToken (token : Text) :
    ((quotedToken token).length : ℤ) = token.length + if hasBlank token then 2 else 0 := by
  rw [quotedToken]
  split
  · rw [List.length_cons, List.length_append, List.length_singleton]
    push_cast
    ring
  · rw [add_zero]

lemma wrap32_add (m n : ℤ) : wrap32 (wrap32 m + n) = wrap32 (m + n) :=
  wrap32_of_modEq ((wrap32_modEq m).add_right n)

lemma joinedLength_eq {tokens : List Text} (h : ∀ token ∈ tokens, token ≠ []) :
    joinedLength (tokens.map some) = wrap32 ((tokens.map fun token => (quotedToken token).length).sum : ℕ) := by
  have hfold : ∀ (tokens : List Text) (n : ℤ), (∀ token ∈ tokens, token ≠ []) →
      (tokens.map some).foldl (fun j token =>
        match present token with
        | some token =>
          let j := wrap32 (j + token.length)
          if hasBlank token then wrap32 (j + 2) else j
        | none => j) (wrap32 n) = wrap32 (n + (tokens.map fun token => (quotedToken token).length).sum) := by
    intro tokens
    induction tokens with
    | nil =>
      intro n _
      simp
    | cons token tokens ih =>
      intro n h
      rw [List.forall_mem_cons] at h
      have hlength := length_quotedToken token
      rw [List.map_cons, List.foldl_cons, present_of_ne h.1, List.map_cons, List.sum_cons]
      dsimp only
      rw [Nat.cast_add, hlength]
      split
      · rw [wrap32_add, add_assoc, wrap32_add, ih _ h.2]
        congr 1
        ring
      · rw [wrap32_add, ih _ h.2]
        congr 1
        ring
  have hzero : (0 : ℤ) = wrap32 0 := by decide
  rw [joinedLength, hzero, hfold tokens 0 h, zero_add]

lemma wtokenjoin_tokens {tokens : List Text} (h : ∀ token ∈ tokens, token ≠ []) : wtokenjoin (tokens.map some) =
    some (if joinedSize tokens < 2 ^ 31 then some (joinText 0 (tokens.map some)) else none) := by
  have hmod : wrap32 (joinedLength (tokens.map some) + (tokens.map some).length + 1) = wrap32 (joinedSize tokens) := by
    rw [joinedLength_eq h, List.length_map, add_assoc, wrap32_add, joinedSize, Nat.cast_add, Nat.cast_add, Nat.cast_one,
      add_assoc]
  obtain ⟨hlt, hle⟩ := length_joinText h
  have hupper := wrap32_upper (joinedSize tokens)
  rw [wtokenjoin_eq, hmod]
  split_ifs with hsize hfits hfits
  · rw [wrap32_of_mem (by omega) (by omega)] at hsize
    omega
  · rfl
  · rw [wrap32_of_mem (by omega) (by omega), Int.toNat_natCast, fits, if_pos hlt]
    rfl
  · have hcong := (wrap32_modEq (joinedSize tokens)).dvd
    rw [fits, if_neg]
    · rfl
    · obtain ⟨k, hk⟩ := hcong
      omega

/-! What is read. -/

def AsLiterals (token : Text) (ms : List Mark) : Prop := (∀ m ∈ ms, inWord m = true) ∧ literals ms = token

lemma asLiterals_map (token : Text) : AsLiterals token (token.map .literal) := by
  refine ⟨fun m hm => ?_, ?_⟩
  · obtain ⟨ch, -, rfl⟩ := List.mem_map.mp hm
    rfl
  · rw [literals, List.filterMap_map]
    exact List.filterMap_some

lemma marks_double_append {token : Text} (hescape : 92 ∉ token) (hquote : 34 ∉ token) (rest : Text) :
    marks .double (token ++ rest) = token.map .literal ++ marks .double rest := by
  induction token with
  | nil => rfl
  | cons ch token ih =>
    rw [List.mem_cons, not_or] at hescape hquote
    rw [List.cons_append, marks_double (Ne.symm hescape.1), if_neg (Ne.symm hquote.1), ih hescape.2 hquote.2]
    rfl

lemma hasBlank_cons {ch : UInt8} {token : Text} (h : hasBlank (ch :: token) = false) :
    ¬(ch = 32 ∨ ch = 9) ∧ hasBlank token = false := by
  rw [hasBlank, List.any_cons, Bool.or_eq_false_iff] at h
  refine ⟨fun hch => ?_, h.2⟩
  rcases hch with rfl | rfl
  · exact absurd h.1 (by decide)
  · exact absurd h.1 (by decide)

lemma marks_outside_append {token : Text} (hescape : 92 ∉ token) (hquote : 34 ∉ token) (happ : 39 ∉ token)
    (hblank : hasBlank token = false) (rest : Text) :
    marks .outside (token ++ rest) = token.map .literal ++ marks .outside rest := by
  induction token with
  | nil => rfl
  | cons ch token ih =>
    obtain ⟨hch, hblank⟩ := hasBlank_cons hblank
    rw [List.mem_cons, not_or] at hescape hquote happ
    rw [List.cons_append, marks_outside (Ne.symm hescape.1), if_neg (Ne.symm hquote.1), if_neg (Ne.symm happ.1),
      if_neg hch, ih hescape.2 hquote.2 happ.2 hblank]
    rfl

/-- A token that is read back: a backslash or a double quote is never kept, an apostrophe only within quotes. -/
structure Joinable (token : Text) : Prop where
  escape : 92 ∉ token
  dquote : 34 ∉ token
  squote : hasBlank token = false → 39 ∉ token

lemma marks_quotedToken {token : Text} (h : Joinable token) :
    ∃ ms, AsLiterals token ms ∧ ∀ rest, marks .outside (quotedToken token ++ rest) = ms ++ marks .outside rest := by
  obtain ⟨hword, hliterals⟩ := asLiterals_map token
  rw [quotedToken]
  cases hblank : hasBlank token with
  | false =>
    exact ⟨_, ⟨hword, hliterals⟩, marks_outside_append h.escape h.dquote (h.squote hblank) hblank⟩
  | true =>
    refine ⟨.dropped :: (token.map .literal ++ [.dropped]), ⟨?_, ?_⟩, fun rest => ?_⟩
    · intro m hm
      rcases List.mem_cons.mp hm with rfl | hm
      · rfl
      · rcases List.mem_append.mp hm with hm | hm
        · exact hword m hm
        · rw [List.mem_singleton.mp hm]
          rfl
    · rw [literals, List.filterMap_cons, List.filterMap_append, ← literals, hliterals]
      exact List.append_nil token
    · rw [if_pos rfl, List.cons_append, List.append_assoc, marks_outside (by decide), if_pos rfl,
        marks_double_append h.escape h.dquote, List.singleton_append, marks_double (by decide), if_pos rfl]
      simp

lemma splitWords_append {token : Text} {ms : List Mark} (h : AsLiterals token ms) (hne : token ≠ []) {rest : List Mark}
    (htake : rest.takeWhile inWord = []) (hdrop : rest.dropWhile inWord = rest) :
    splitWords (ms ++ rest) = token :: splitWords rest := by
  obtain ⟨hword, hliterals⟩ := h
  cases ms with
  | nil => exact absurd hliterals.symm hne
  | cons m ms =>
    have hms : ∀ m ∈ ms, inWord m = true := fun m' hm' => hword m' (List.mem_cons_of_mem m hm')
    rw [List.cons_append, splitWords, ← List.cons_append, List.takeWhile_append_of_pos hword, htake, List.append_nil,
      hliterals, List.dropWhile_append_of_pos hms, hdrop]
    rintro rfl
    exact absurd (hword .blank List.mem_cons_self) (by decide)

lemma words_joined {token : Text} {tokens : List Text} (h : ∀ t ∈ token :: tokens, Joinable t ∧ t ≠ []) :
    words (quotedToken token ++ spaced tokens) = token :: tokens := by
  induction tokens generalizing token with
  | nil =>
    obtain ⟨htoken, hne⟩ := h token List.mem_cons_self
    obtain ⟨ms, hms, hmarks⟩ := marks_quotedToken htoken
    rw [words, hmarks, spaced, List.flatMap_nil, marks, splitWords_append hms hne rfl rfl, splitWords]
  | cons next tokens ih =>
    rw [List.forall_mem_cons] at h
    obtain ⟨ms, hms, hmarks⟩ := marks_quotedToken h.1.1
    have hblank : marks .outside (spaced (next :: tokens)) =
        .blank :: marks .outside (quotedToken next ++ spaced tokens) := by
      rw [spaced, List.flatMap_cons, List.cons_append, marks_outside (by decide)]
      rfl
    rw [words, hmarks, hblank, splitWords_append hms h.1.2 (by rfl) (by rfl), splitWords]
    exact congrArg _ (ih h.2)

/-! What cannot be read back: the text would have to keep all the characters of a kind that loses one. -/

section Lost

variable {ch : UInt8} {q : Quoted} {text : Text}

lemma marks_cons (h : ch ≠ 92) (q : Quoted) (text : Text) :
    ∃ m r, marks q (ch :: text) = m :: marks r text ∧ (m.char = none ∨ m.char = some ch) := by
  cases q with
  | outside =>
    rw [marks_outside h]
    split_ifs
    · exact ⟨_, _, rfl, .inl rfl⟩
    · exact ⟨_, _, rfl, .inl rfl⟩
    · exact ⟨_, _, rfl, .inl rfl⟩
    · exact ⟨_, _, rfl, .inr rfl⟩
  | double =>
    rw [marks_double h]
    split_ifs
    · exact ⟨_, _, rfl, .inl rfl⟩
    · exact ⟨_, _, rfl, .inr rfl⟩
  | single =>
    rw [marks_single h]
    split_ifs
    · exact ⟨_, _, rfl, .inl rfl⟩
    · exact ⟨_, _, rfl, .inr rfl⟩

lemma literals_cons_sublist {m : Mark} {ms : List Mark} (hm : m.char = none ∨ m.char = some ch)
    (hms : (literals ms).Sublist text) : (literals (m :: ms)).Sublist (ch :: text) := by
  rw [literals, List.filterMap_cons]
  rcases hm with hm | hm
  · rw [hm]
    exact hms.cons ch
  · rw [hm]
    exact hms.cons₂ ch

lemma literals_sublist (text : Text) :
    ∀ q, (literals (marks q text)).Sublist text ∧ (literals (escaped q text)).Sublist text := by
  induction text with
  | nil => exact fun q => ⟨List.Sublist.refl [], List.Sublist.refl []⟩
  | cons ch text ih =>
    refine fun q => ⟨?_, literals_cons_sublist (.inr rfl) (ih q).1⟩
    by_cases hch : ch = 92
    · rw [hch, marks_escape]
      exact literals_cons_sublist (.inl rfl) (ih q).2
    · obtain ⟨m, r, hmarks, hm⟩ := marks_cons hch q text
      rw [hmarks]
      exact literals_cons_sublist hm (ih r).1

lemma count_literals_le (ch : UInt8) (q : Quoted) (text : Text) : (literals (marks q text)).count ch ≤ text.count ch :=
  (literals_sublist text q).1.count_le ch

lemma count_escape_lt (h : 92 ∈ text) : (literals (marks q text)).count 92 < text.count 92 := by
  induction text generalizing q with
  | nil => cases h
  | cons ch text ih =>
    by_cases hch : ch = 92
    · subst hch
      have hle := (literals_sublist text q).2.count_le 92
      rw [marks_escape, List.count_cons_self]
      exact Nat.lt_succ_of_le hle
    · obtain ⟨m, r, hmarks, hm⟩ := marks_cons hch q text
      have hlt := ih (q := r) ((List.mem_cons.mp h).resolve_left (Ne.symm hch))
      rw [hmarks, literals, List.filterMap_cons, List.count_cons_of_ne hch]
      rcases hm with hm | hm
      · rw [hm]
        exact hlt
      · rw [hm, List.count_cons_of_ne hch]
        exact hlt

lemma count_squote_lt (text : Text) :
    (literals (marks .outside (39 :: text))).count 39 < (39 :: text).count 39 := by
  rw [marks_outside (by decide), if_neg (by decide), if_pos rfl, List.count_cons_self]
  exact Nat.lt_succ_of_le (count_literals_le 39 .single text)

/-- Every apostrophe of the text is kept. -/
def KeepsSquotes (q : Quoted) (text : Text) : Prop := (literals (marks q text)).count 39 = text.count 39

lemma keeps_of_dropped {m : Mark} {r : Quoted} (hmarks : marks q (ch :: text) = m :: marks r text) (hm : m.char = none)
    (hch : ch ≠ 39) (h : KeepsSquotes q (ch :: text)) :
    KeepsSquotes r text ∧ literals (marks q (ch :: text)) = literals (marks r text) := by
  have hliterals : literals (marks q (ch :: text)) = literals (marks r text) := by
    rw [hmarks, literals, List.filterMap_cons, hm]
    rfl
  rw [KeepsSquotes, hliterals, List.count_cons_of_ne hch] at h
  exact ⟨h, hliterals⟩

lemma keeps_of_literal {r : Quoted} (hmarks : marks q (ch :: text) = .literal ch :: marks r text)
    (h : KeepsSquotes q (ch :: text)) :
    KeepsSquotes r text ∧ literals (marks q (ch :: text)) = ch :: literals (marks r text) := by
  have hliterals : literals (marks q (ch :: text)) = ch :: literals (marks r text) := by
    rw [hmarks]
    rfl
  rw [KeepsSquotes, hliterals, List.count_cons, List.count_cons] at h
  exact ⟨Nat.add_right_cancel h, hliterals⟩

lemma dquote_not_literal (hescape : 92 ∉ text) (hq : q ≠ .single) (hkept : KeepsSquotes q text) :
    34 ∉ literals (marks q text) := by
  induction text generalizing q with
  | nil => exact List.not_mem_nil
  | cons ch text ih =>
    rw [List.mem_cons, not_or] at hescape
    have h92 := Ne.symm hescape.1
    have hliteral : ∀ {r}, marks q (ch :: text) = .literal ch :: marks r text → ch ≠ 34 → r ≠ .single →
        34 ∉ literals (marks q (ch :: text)) := by
      intro r hmarks hch hr
      obtain ⟨hrest, hliterals⟩ := keeps_of_literal hmarks hkept
      rw [hliterals, List.mem_cons, not_or]
      exact ⟨Ne.symm hch, ih hescape.2 hr hrest⟩
    have hdropped : ∀ {m r}, marks q (ch :: text) = m :: marks r text → m.char = none → ch ≠ 39 → r ≠ .single →
        34 ∉ literals (marks q (ch :: text)) := by
      intro m r hmarks hm hch hr
      obtain ⟨hrest, hliterals⟩ := keeps_of_dropped hmarks hm hch hkept
      rw [hliterals]
      exact ih hescape.2 hr hrest
    cases q with
    | single => exact absurd rfl hq
    | double =>
      have hmarks := marks_double h92 text
      split_ifs at hmarks with hch
      · exact hdropped hmarks rfl (by rw [hch]; decide) nofun
      · exact hliteral hmarks hch nofun
    | outside =>
      have hmarks := marks_outside h92 text
      split_ifs at hmarks with hch hsquote hblank
      · exact hdropped hmarks rfl (by rw [hch]; decide) nofun
      · subst hsquote
        exact absurd hkept (count_squote_lt text).ne
      · exact hdropped hmarks rfl hsquote nofun
      · exact hliteral hmarks hch nofun

lemma squote_not_mem {token rest : Text} (hescape : 92 ∉ token) (hquote : 34 ∉ token) (hblank : hasBlank token = false)
    (h : KeepsSquotes .outside (token ++ rest)) : 39 ∉ token ∧ KeepsSquotes .outside rest := by
  induction token with
  | nil => exact ⟨List.not_mem_nil, h⟩
  | cons ch token ih =>
    obtain ⟨hch, hblank⟩ := hasBlank_cons hblank
    rw [List.mem_cons, not_or] at hescape hquote
    have hmarks := marks_outside (Ne.symm hescape.1) (token ++ rest)
    rw [if_neg (Ne.symm hquote.1), if_neg hch] at hmarks
    split_ifs at hmarks with hsquote
    · subst hsquote
      exact absurd h (count_squote_lt (token ++ rest)).ne
    · obtain ⟨hmem, hrest⟩ := ih hescape.2 hquote.2 hblank (keeps_of_literal hmarks h).1
      rw [List.mem_cons, not_or]
      exact ⟨⟨Ne.symm hsquote, hmem⟩, hrest⟩

lemma count_quotedToken (h : ch ≠ 34) (token : Text) : (quotedToken token).count ch = token.count ch := by
  rw [quotedToken]
  split
  · rw [List.count_cons_of_ne (Ne.symm h), List.count_append, List.count_singleton, if_neg, add_zero]
    simpa using Ne.symm h
  · rfl

lemma count_joined (h : ch ≠ 34) (hblank : ch ≠ 32) (token : Text) (tokens : List Text) :
    (quotedToken token ++ spaced tokens).count ch = (token :: tokens).flatten.count ch := by
  induction tokens generalizing token with
  | nil =>
    rw [List.count_append, count_quotedToken h, List.flatten_cons, List.count_append]
    rfl
  | cons next tokens ih =>
    rw [List.count_append, count_quotedToken h, spaced, List.flatMap_cons, List.cons_append,
      List.count_cons_of_ne (Ne.symm hblank), ← spaced, ih, List.flatten_cons (l := token), List.count_append]

lemma joinable_of_keeps {token rest : Text} (h : 92 ∉ token ∧ 34 ∉ token)
    (hkept : KeepsSquotes .outside (quotedToken token ++ rest)) : Joinable token ∧ KeepsSquotes .outside rest := by
  cases hblank : hasBlank token with
  | false =>
    rw [quotedToken, hblank, if_neg Bool.false_ne_true] at hkept
    obtain ⟨hmem, hrest⟩ := squote_not_mem h.1 h.2 hblank hkept
    exact ⟨⟨h.1, h.2, fun _ => hmem⟩, hrest⟩
  | true =>
    have htoken : Joinable token := ⟨h.1, h.2, fun hfalse => absurd (hblank.symm.trans hfalse) nofun⟩
    obtain ⟨ms, ⟨-, hliterals⟩, hmarks⟩ := marks_quotedToken htoken
    refine ⟨htoken, ?_⟩
    rw [KeepsSquotes, hmarks, literals, List.filterMap_append, ← literals, ← literals, hliterals, List.count_append,
      List.count_append, count_quotedToken (by decide)] at hkept
    exact Nat.add_left_cancel hkept

lemma joinable_all {token : Text} {tokens : List Text} (h : ∀ t ∈ token :: tokens, 92 ∉ t ∧ 34 ∉ t)
    (hkept : KeepsSquotes .outside (quotedToken token ++ spaced tokens)) : ∀ t ∈ token :: tokens, Joinable t := by
  induction tokens generalizing token with
  | nil =>
    rw [List.forall_mem_singleton] at h ⊢
    exact (joinable_of_keeps h hkept).1
  | cons next tokens ih =>
    rw [List.forall_mem_cons] at h
    obtain ⟨htoken, hrest⟩ := joinable_of_keeps h.1 hkept
    have hmarks : marks .outside (spaced (next :: tokens)) =
        .blank :: marks .outside (quotedToken next ++ spaced tokens) := by
      rw [spaced, List.flatMap_cons, List.cons_append, marks_outside (by decide)]
      rfl
    rw [List.forall_mem_cons]
    exact ⟨htoken, ih h.2 (keeps_of_dropped hmarks rfl (by decide) hrest).1⟩

lemma count_wtokensplit_le (ch : UInt8) (text : Text) :
    (wtokensplit text).flatten.count ch ≤ (literals (marks .outside text)).count ch := by
  have hwords : (words text).flatten = (wtokensplit text).flatten ++ ((words text).dropWhile (· ≠ [])).flatten := by
    rw [wtokensplit_eq, ← List.flatten_append, List.takeWhile_append_dropWhile]
  rw [words, flatten_splitWords] at hwords
  rw [hwords, List.count_append]
  exact Nat.le_add_right _ _

lemma joinable_of_read {token : Text} {tokens : List Text}
    (h : wtokensplit (quotedToken token ++ spaced tokens) = token :: tokens) : ∀ t ∈ token :: tokens, Joinable t := by
  have hkept : ∀ ch, ch ≠ 34 → ch ≠ 32 → (literals (marks .outside (quotedToken token ++ spaced tokens))).count ch =
      (quotedToken token ++ spaced tokens).count ch := by
    intro ch hquote hblank
    have hle := count_wtokensplit_le ch (quotedToken token ++ spaced tokens)
    rw [h, ← count_joined hquote hblank] at hle
    exact le_antisymm (count_literals_le ch .outside _) hle
  have hescape : 92 ∉ quotedToken token ++ spaced tokens :=
    fun hmem => (count_escape_lt hmem).ne (hkept 92 (by decide) (by decide))
  have hsquotes : KeepsSquotes .outside (quotedToken token ++ spaced tokens) := hkept 39 (by decide) (by decide)
  have hdquote := count_wtokensplit_le 34 (quotedToken token ++ spaced tokens)
  rw [h, List.count_eq_zero_of_not_mem (dquote_not_literal hescape (by decide) hsquotes), Nat.le_zero] at hdquote
  rw [← List.count_eq_zero, count_joined (by decide) (by decide), List.count_eq_zero] at hescape
  refine joinable_all (fun t ht => ⟨fun hmem => hescape ?_, fun hmem => ?_⟩) hsquotes
  · exact List.mem_flatten.mpr ⟨t, ht, hmem⟩
  · exact List.count_eq_zero.mp hdquote (List.mem_flatten.mpr ⟨t, ht, hmem⟩)

end Lost

/-- Joined and split again, the tokens are the same. -/
def ReadBack (tokens : List Text) : Prop :=
  ∃ flat, wtokenjoin (tokens.map some) = some (some flat) ∧ wtokensplit flat = tokens

/-- Nothing is written behind the block, whatever the list. The tokens come back if and only if each is joinable and the
size of the block fits into an `int`. -/
theorem wtokenjoin_readBack_iff (list : List (Option Text)) (tokens : List Text) (hne : ∀ token ∈ tokens, token ≠ []) :
    wtokenjoin list ≠ none ∧
      (ReadBack tokens ↔ (∀ token ∈ tokens, Joinable token) ∧ joinedSize tokens < 2 ^ 31) := by
  refine ⟨?_, ?_⟩
  · rw [wtokenjoin_eq]
    exact Option.some_ne_none _
  · rw [ReadBack, wtokenjoin_tokens hne]
    refine ⟨fun ⟨flat, hjoin, hsplit⟩ => ?_, fun ⟨hjoinable, hsize⟩ => ?_⟩
    · split_ifs at hjoin with hsize
      · obtain rfl := Option.some.inj (Option.some.inj hjoin)
        refine ⟨?_, hsize⟩
        cases tokens with
        | nil => nofun
        | cons token tokens =>
          rw [joinText_cons hne] at hsplit
          exact joinable_of_read hsplit
      · cases Option.some.inj hjoin
    · refine ⟨_, congrArg some (if_pos hsize), ?_⟩
      rw [wtokensplit_eq]
      cases tokens with
      | nil =>
        rw [List.map_nil, joinText, words, marks, splitWords]
        rfl
      | cons token tokens =>
        rw [joinText_cons hne, words_joined fun t ht => ⟨hjoinable t ht, hne t ht⟩, List.takeWhile_eq_self_iff]
        exact fun t ht => decide_eq_true (hne t ht)

theorem wtokenjoin_readBack_quoted : ReadBack [[97, 32, 98], [99]] := by
  refine (wtokenjoin_readBack_iff [none] [[97, 32, 98], [99]] (by decide)).2.mpr ⟨?_, by decide⟩
  intro token htoken
  rcases List.mem_pair.mp htoken with rfl | rfl
  · exact ⟨by decide, by decide, by decide⟩
  · exact ⟨by decide, by decide, by decide⟩

/-- The one token `it's`. -/
theorem squote_not_readBack : ¬ReadBack [[105, 116, 39, 115]] := by
  rintro ⟨flat, hjoin, hsplit⟩
  have hflat : wtokenjoin [some [105, 116, 39, 115]] = some (some [105, 116, 39, 115]) := by decide
  have hwords : words [105, 116, 39, 115] = [[105, 116, 115]] := by
    simp [words, marks, splitWords, literals, inWord, Mark.char]
    rfl
  obtain rfl := Option.some.inj (Option.some.inj (hflat.symm.trans hjoin))
  rw [wtokensplit_eq, hwords] at hsplit
  cases hsplit

end Xperimentum.WMcore
