import Xperimentum.Lib.Memory
import Xperimentum.Pantomime.ByteSearch

/-! `striphtml`: the text in memory ends with its NUL, and a pointer is what stands from it on. Where a byte behind the
NUL is read, or one is written outside of what has been allocated, there is no result. -/

namespace Xperimentum.Pantomime.StripHTML

open Lib.Memory Lib.Partial

/-- The bytes of a character of Latin 1 in the encoding of the part. -/
abbrev Encoding := UInt8 → Option Bytes

def latinNames : List String :=
  ["nbsp", "iexcl", "cent", "pound", "curren", "yen", "brvbar", "sect", "uml", "copy", "ordf", "laquo", "not", "shy",
    "reg", "macr", "deg", "plusmn", "sup2", "sup3", "acute", "micro", "para", "middot", "cedil", "sup1", "ordm", "raquo",
    "frac14", "frac12", "frac34", "iquest", "Agrave", "Aacute", "Acirc", "Atilde", "Auml", "Aring", "AElig", "Ccedil",
    "Egrave", "Eacute", "Ecirc", "Euml", "Igrave", "Iacute", "Icirc", "Iuml", "ETH", "Ntilde", "Ograve", "Oacute",
    "Ocirc", "Otilde", "Ouml", "times", "Oslash", "Ugrave", "Uacute", "Ucirc", "Uuml", "Yacute", "THORN", "szlig",
    "agrave", "aacute", "acirc", "atilde", "auml", "aring", "aelig", "ccedil", "egrave", "eacute", "ecirc", "euml",
    "igrave", "iacute", "icirc", "iuml", "eth", "ntilde", "ograve", "oacute", "ocirc", "otilde", "ouml", "divide",
    "oslash", "ugrave", "uacute", "ucirc", "uuml", "yacute", "thorn", "yuml"]

/-- The names from `nbsp` on are those of the characters from 160 on. -/
def refs : List (String × UInt8) :=
  [("lt", 60), ("gt", 62), ("amp", 38), ("quot", 34)] ++ latinNames.zipIdx.map fun r => (r.1, UInt8.ofNat (160 + r.2))

def isReference (c : UInt8) : Bool := isAlpha c || isDigit c || c = 35

/-- The first name that begins with the reference, which may be empty. -/
def charOf (t : Bytes) : UInt8 := ((refs.find? fun r => t.isPrefixOf (ascii r.1)).map Prod.snd).getD 32

def ent (ref : Bytes) : Option (UInt8 × Bytes) := do
  let s := ref.dropWhile isReference
  let c ← s.head?
  pure (charOf (ref.takeWhile isReference), if c = 59 then s.tail else s)

/-- The loop also ends behind the NUL. -/
def skipComment : Bytes → Option Bytes
  | [] => none
  | c :: s => do
    if c = 0 then pure s
    else if c = 45 then
      let d ← s[0]?
      if d = 45 then
        let e ← s[1]?
        if e = 62 then pure (s.drop 2) else skipComment s
      else skipComment s
    else skipComment s

def skipTag : Bytes → Option Bytes
  | [] => none
  | c :: s => if c = 0 ∨ c = 62 then some s else skipTag s

def startsComment (s : Bytes) : Option Bool := do
  let c ← s[0]?
  if c = 33 then
    let d ← s[1]?
    if d = 45 then
      let e ← s[2]?
      pure (e = 45)
    else pure false
  else pure false

def stripFrom (encoding : Encoding) (size : ℕ) : ℕ → Bytes → Bytes → Option Bytes
  | 0, _, _ => none
  | _ + 1, [], _ => none
  | n + 1, c :: s, text =>
    if c = 0 then push size text 0
    else if c = 60 then do
      let comment ← startsComment s
      let s ← if comment then skipComment (s.drop 3) else skipTag s
      stripFrom encoding size n s text
    else if c = 38 then do
      let (c, s) ← ent s
      let text ← pushAll size text ((encoding c).getD [])
      stripFrom encoding size n s text
    else do
      let text ← push size text c
      stripFrom encoding size n s text

def striphtml (encoding : Encoding) (s : CString) : Option Bytes :=
  stripFrom encoding (s.bytes.length + 1) (s.bytes.length + 1) (s.bytes ++ [0]) []

/-- How much longer the text gets where a reference takes more bytes in the encoding, and a tag or a comment none.
There is no such number of a text with a tag or a comment that is not closed. -/
inductive Growth (encoding : Encoding) : Bytes → ℤ → Prop
  | nil : Growth encoding [] 0
  | plain {c s n} : c ≠ 60 → c ≠ 38 → Growth encoding s n → Growth encoding (c :: s) n
  | reference {t s n} : (∀ c ∈ t, isReference c = true) → (∀ c ∈ s.head?, isReference c = false ∧ c ≠ 59) →
    Growth encoding s n →
    Growth encoding (38 :: t ++ s) (n + ((encoding (charOf t)).getD []).length - (t.length + 1))
  | terminated {t s n} : (∀ c ∈ t, isReference c = true) → Growth encoding s n →
    Growth encoding (38 :: t ++ 59 :: s) (n + ((encoding (charOf t)).getD []).length - (t.length + 2))
  | tag {t s n} : hasCPrefix (t ++ 62 :: s) (ascii "!--") = false → 62 ∉ t → Growth encoding s n →
    Growth encoding (60 :: t ++ 62 :: s) (n - (t.length + 2))
  | comment {t s n} : findCString (ascii "-->") (t ++ ascii "-->" ++ s) = some (t, s) → Growth encoding s n →
    Growth encoding (ascii "<!--" ++ t ++ ascii "-->" ++ s) (n - (t.length + 7))

section Scanning

variable {encoding : Encoding} {t s out out' : Bytes} {c : UInt8} {k m size : ℕ} {n : ℤ}

lemma ent_eq (ht : ∀ c ∈ t, isReference c = true) (hs : ∀ c ∈ s.head?, isReference c = false) (hc : s.head? = some c) :
    ent (t ++ s) = some (charOf t, if c = 59 then s.tail else s) := by
  have htake : (t ++ s).takeWhile isReference = t ∧ (t ++ s).dropWhile isReference = s := by
    rw [List.takeWhile_append_of_pos ht, List.dropWhile_append_of_pos ht]
    cases s with
    | nil => simp
    | cons d s =>
      have hd : isReference d = false := hs d rfl
      simp [hd]
  rw [ent, htake.1, htake.2, hc]
  rfl

/-- A tag or a comment ends behind its closing mark, or the loop behind the NUL. -/
lemma skipTag_closed (ht : 62 ∉ t) (h0 : 0 ∉ t) (s : Bytes) : skipTag (t ++ 62 :: s) = some s := by
  induction t with
  | nil => exact if_pos (.inr rfl)
  | cons c t ih =>
    obtain ⟨hc, ht⟩ := List.ne_and_not_mem_of_not_mem_cons ht
    obtain ⟨hc0, h0⟩ := List.ne_and_not_mem_of_not_mem_cons h0
    rw [List.cons_append, skipTag, if_neg (fun h => h.elim hc0.symm hc.symm), ih ht h0]

lemma skipTag_open (ht : 62 ∉ t) (h0 : 0 ∉ t) : skipTag (t ++ [0]) = some [] := by
  induction t with
  | nil => rfl
  | cons c t ih =>
    obtain ⟨hc, ht⟩ := List.ne_and_not_mem_of_not_mem_cons ht
    obtain ⟨hc0, h0⟩ := List.ne_and_not_mem_of_not_mem_cons h0
    rw [List.cons_append, skipTag, if_neg (fun h => h.elim hc0.symm hc.symm), ih ht h0]

lemma startsComment_eq (s : Bytes) : startsComment (s ++ [0]) = some (hasCPrefix s (ascii "!--")) := by
  have hmark : ascii "!--" = [33, 45, 45] := by decide
  rw [hmark]
  match s with
  | [] => rfl
  | [c] => by_cases hc : c = 33 <;> simp [startsComment, hasCPrefix, List.isPrefixOf, hc]
  | [c, d] =>
    by_cases hc : c = 33 <;> by_cases hd : d = 45 <;>
      simp [startsComment, hasCPrefix, List.isPrefixOf, hc, hd]
  | c :: d :: e :: s =>
    by_cases hc : c = 33 <;> by_cases hd : d = 45 <;> by_cases he : e = 45 <;>
      simp [startsComment, hasCPrefix, List.isPrefixOf, hc, hd, he, @eq_comm UInt8 33 c, @eq_comm UInt8 45 d,
        @eq_comm UInt8 45 e]

lemma skipComment_eq (h0 : 0 ∉ s) :
    skipComment (s ++ [0]) = some (((findCString (ascii "-->") s).map fun found => found.2 ++ [0]).getD []) := by
  have hmark : ascii "-->" = [45, 45, 62] := by decide
  rw [hmark]
  induction s with
  | nil => rfl
  | cons c s ih =>
    obtain ⟨hc0, h0⟩ := List.ne_and_not_mem_of_not_mem_cons h0
    have hrest := ih h0
    rw [List.cons_append, skipComment, if_neg hc0.symm, findCString]
    by_cases hpre : ([45, 45, 62] : Bytes).isPrefixOf (c :: s)
    · obtain ⟨u, hu⟩ := List.isPrefixOf_iff_prefix.mp hpre
      obtain ⟨rfl, rfl⟩ := List.cons.inj hu
      rfl
    · rw [if_neg hpre, Option.map_map]
      refine Eq.trans ?_ hrest
      match s with
      | [] => by_cases hc : c = 45 <;> simp [hc]
      | [d] => by_cases hc : c = 45 <;> by_cases hd : d = 45 <;> simp [hc, hd]
      | d :: e :: s =>
        by_cases hc : c = 45 <;> by_cases hd : d = 45 <;> by_cases he : e = 62 <;>
          simp_all [List.isPrefixOf]

/-- A reference at the front is the longest one. -/
lemma exists_reference (s : Bytes) :
    ∃ t u, s = t ++ u ∧ (∀ c ∈ t, isReference c = true) ∧ ∀ c ∈ u.head?, isReference c = false := by
  induction s with
  | nil => exact ⟨[], [], rfl, (fun c hc => by cases hc), (fun c hc => by cases hc)⟩
  | cons c s ih =>
    by_cases hc : isReference c = true
    · obtain ⟨t, u, rfl, ht, hu⟩ := ih
      refine ⟨c :: t, u, rfl, fun d hd => ?_, hu⟩
      rcases List.mem_cons.mp hd with rfl | hd
      · exact hc
      · exact ht d hd
    · refine ⟨[], c :: s, rfl, (fun c hc => by cases hc), fun d hd => ?_⟩
      obtain rfl := Option.some.inj hd
      exact Bool.eq_false_iff.mpr hc

lemma head_nul {u : Bytes} (hu : ∀ c ∈ u.head?, isReference c = false) :
    ∀ c ∈ (u ++ [0]).head?, isReference c = false := by
  cases u with
  | nil =>
    intro c hc
    obtain rfl : (0 : UInt8) = c := Option.some.inj hc
    decide
  | cons d u => exact hu

lemma stripFrom_reference (ht : ∀ c ∈ t, isReference c = true) (hs : ∀ c ∈ s.head?, isReference c = false ∧ c ≠ 59) :
    stripFrom encoding size (m + 1) (38 :: t ++ s ++ [0]) out =
      (pushAll size out ((encoding (charOf t)).getD [])).bind (stripFrom encoding size m (s ++ [0])) := by
  have hent : ent (t ++ (s ++ [0])) = some (charOf t, s ++ [0]) := by
    cases s with
    | nil => exact ent_eq (c := 0) ht (head_nul fun c hc => (hs c hc).1) rfl
    | cons d s =>
      rw [ent_eq (c := d) ht (head_nul fun c hc => (hs c hc).1) rfl, if_neg (hs d rfl).2]
  rw [List.cons_append, List.cons_append, List.append_assoc, stripFrom, if_neg (by decide), if_neg (by decide),
    if_pos rfl, hent]
  rfl

lemma stripFrom_terminated (ht : ∀ c ∈ t, isReference c = true) :
    stripFrom encoding size (m + 1) (38 :: t ++ 59 :: s ++ [0]) out =
      (pushAll size out ((encoding (charOf t)).getD [])).bind (stripFrom encoding size m (s ++ [0])) := by
  have hent : ent (t ++ (59 :: s ++ [0])) = some (charOf t, s ++ [0]) := by
    refine ent_eq (c := 59) ht (fun c hc => ?_) rfl
    obtain rfl : (59 : UInt8) = c := Option.some.inj hc
    decide
  rw [List.cons_append, List.cons_append, List.append_assoc, stripFrom, if_neg (by decide), if_neg (by decide),
    if_pos rfl, hent]
  rfl

lemma stripFrom_plain (h0 : c ≠ 0) (hlt : c ≠ 60) (hamp : c ≠ 38) :
    stripFrom encoding size (m + 1) (c :: s ++ [0]) out =
      (push size out c).bind (stripFrom encoding size m (s ++ [0])) := by
  rw [List.cons_append, stripFrom, if_neg h0, if_neg hlt, if_neg hamp]
  rfl

lemma stripFrom_tag (htag : hasCPrefix s (ascii "!--") = false) :
    stripFrom encoding size (m + 1) (60 :: s ++ [0]) out =
      (skipTag (s ++ [0])).bind fun s => stripFrom encoding size m s out := by
  rw [List.cons_append, stripFrom, if_neg (by decide), if_pos rfl, startsComment_eq, htag]
  rfl

lemma stripFrom_comment (s : Bytes) :
    stripFrom encoding size (m + 1) (ascii "<!--" ++ s ++ [0]) out =
      (skipComment (s ++ [0])).bind fun s => stripFrom encoding size m s out := by
  have hmark : ascii "<!--" = 60 :: ascii "!--" := by decide
  have hcomment : hasCPrefix (ascii "!--" ++ s) (ascii "!--") = true :=
    List.isPrefixOf_iff_prefix.mpr (List.prefix_append _ s)
  have hdrop : (ascii "!--" ++ s ++ [0]).drop 3 = s ++ [0] := by
    have hlength : (ascii "!--").length = 3 := by decide
    rw [List.append_assoc, ← hlength]
    exact List.drop_left
  rw [hmark, List.cons_append, List.cons_append, stripFrom, if_neg (by decide), if_pos rfl, startsComment_eq, hcomment]
  change (skipComment ((ascii "!--" ++ s ++ [0]).drop 3)).bind _ = _
  rw [hdrop]

/-- What is written of a text is not less than nothing. -/
lemma Growth.room (h : Growth encoding s n) : 0 ≤ s.length + n := by
  induction h with
  | nil => exact le_refl _
  | plain _ _ _ ih =>
    rw [List.length_cons]
    omega
  | reference _ _ _ ih =>
    simp only [List.length_append, List.length_cons]
    omega
  | terminated _ _ ih =>
    simp only [List.length_append, List.length_cons]
    omega
  | tag _ _ _ ih =>
    simp only [List.length_append, List.length_cons]
    omega
  | comment _ _ ih =>
    have hlength : (ascii "<!--").length = 4 ∧ (ascii "-->").length = 3 := by decide
    simp only [List.length_append, hlength]
    omega

lemma Growth.strips (h : Growth encoding s n) (h0 : 0 ∉ s) (hm : s.length < m) (hsize : out.length + s.length + n < size) :
    Ensures (stripFrom encoding size m (s ++ [0]) out) fun _ => True := by
  induction h generalizing m out with
  | nil =>
    obtain ⟨m, rfl⟩ : ∃ k, m = k + 1 := ⟨m - 1, by omega⟩
    simp only [List.length_nil] at hsize
    change Ensures (push size out 0) _
    rw [push_of_lt (by omega)]
    exact ensures_some trivial
  | @plain c s n hlt hamp hs ih =>
    obtain ⟨m, rfl⟩ : ∃ k, m = k + 1 := ⟨m - 1, by omega⟩
    obtain ⟨hc0, h0⟩ := List.ne_and_not_mem_of_not_mem_cons h0
    simp only [List.length_cons] at hm hsize
    have hroom := hs.room
    rw [stripFrom_plain hc0.symm hlt hamp, push_of_lt (by omega)]
    refine ih h0 (by omega) ?_
    simp only [List.length_append, List.length_singleton]
    omega
  | @reference t s n ht hs hgrowth ih =>
    obtain ⟨m, rfl⟩ : ∃ k, m = k + 1 := ⟨m - 1, by omega⟩
    simp only [List.length_cons, List.length_append] at hm hsize
    have h0s : 0 ∉ s := fun hmem => h0 (List.mem_append_right _ hmem)
    have hroom := hgrowth.room
    rw [stripFrom_reference ht hs, pushAll_of_le (by omega)]
    refine ih h0s (by omega) ?_
    rw [List.length_append]
    omega
  | @terminated t s n ht hgrowth ih =>
    obtain ⟨m, rfl⟩ : ∃ k, m = k + 1 := ⟨m - 1, by omega⟩
    simp only [List.length_cons, List.length_append] at hm hsize
    have h0s : 0 ∉ s := fun hmem => h0 (List.mem_append_right _ (List.mem_cons_of_mem _ hmem))
    have hroom := hgrowth.room
    rw [stripFrom_terminated ht, pushAll_of_le (by omega)]
    refine ih h0s (by omega) ?_
    rw [List.length_append]
    omega
  | @tag t s n htag ht _ ih =>
    obtain ⟨m, rfl⟩ : ∃ k, m = k + 1 := ⟨m - 1, by omega⟩
    simp only [List.length_cons, List.length_append] at hm hsize
    have h0t : 0 ∉ t := fun hmem => h0 (List.mem_cons_of_mem _ (List.mem_append_left _ hmem))
    have h0s : 0 ∉ s := fun hmem =>
      h0 (List.mem_cons_of_mem _ (List.mem_append_right _ (List.mem_cons_of_mem _ hmem)))
    change Ensures (stripFrom encoding size (m + 1) (60 :: (t ++ 62 :: s) ++ [0]) out) _
    rw [stripFrom_tag htag, List.append_assoc, List.cons_append, skipTag_closed ht h0t]
    exact ih h0s (by omega) (by omega)
  | @comment t s n hfind _ ih =>
    obtain ⟨m, rfl⟩ : ∃ k, m = k + 1 := ⟨m - 1, by omega⟩
    have hlength : (ascii "<!--").length = 4 ∧ (ascii "-->").length = 3 := by decide
    simp only [List.length_append, hlength] at hm hsize
    have h0' : 0 ∉ t ++ ascii "-->" ++ s := fun hmem => h0 (by
      rw [List.append_assoc, List.append_assoc, ← List.append_assoc t]
      exact List.mem_append_right _ hmem)
    have h0s : 0 ∉ s := fun hmem => h0' (List.mem_append_right _ hmem)
    have hassoc : ascii "<!--" ++ t ++ ascii "-->" ++ s = ascii "<!--" ++ (t ++ ascii "-->" ++ s) := by
      simp only [List.append_assoc]
    rw [hassoc, stripFrom_comment, skipComment_eq h0', hfind]
    exact ih h0s (by omega) (by omega)

lemma growth_of_strips (h : stripFrom encoding size m (s ++ [0]) out = some out') (h0 : 0 ∉ s) (hout : out.length ≤ size) :
    ∃ n, Growth encoding s n ∧ out.length + s.length + n < size := by
  induction m generalizing s out with
  | zero => cases h
  | succ m ih =>
    cases s with
    | nil =>
      obtain ⟨hlt, -⟩ := length_of_push h
      exact ⟨0, .nil, by simp; omega⟩
    | cons c s =>
      obtain ⟨hc0, hs0⟩ := List.ne_and_not_mem_of_not_mem_cons h0
      by_cases hlt : c = 60
      · subst hlt
        have hend : stripFrom encoding size m [] out = none := by cases m <;> rfl
        by_cases hcomment : hasCPrefix s (ascii "!--") = true
        · obtain ⟨u, rfl⟩ := List.isPrefixOf_iff_prefix.mp hcomment
          have hmark : 60 :: (ascii "!--" ++ u) = ascii "<!--" ++ u := rfl
          have h0u : 0 ∉ u := fun hmem => hs0 (List.mem_append_right _ hmem)
          rw [hmark] at h ⊢
          rw [stripFrom_comment, skipComment_eq h0u] at h
          cases hfind : findCString (ascii "-->") u with
          | none =>
            rw [hfind] at h
            exact absurd (hend.symm.trans h) (by simp)
          | some found =>
            obtain ⟨t, v⟩ := found
            have hu := findCString_some hfind
            rw [hfind] at h
            rw [hu] at h0u hfind ⊢
            obtain ⟨n, hn, hsize⟩ := ih h (fun hmem => h0u (List.mem_append_right _ hmem)) hout
            dsimp only at hsize
            have hgrowth := Growth.comment hfind hn
            have hlength : (ascii "<!--").length = 4 ∧ (ascii "-->").length = 3 := by decide
            have hassoc : ascii "<!--" ++ (t ++ ascii "-->" ++ v) = ascii "<!--" ++ t ++ ascii "-->" ++ v := by
              simp only [List.append_assoc]
            rw [hassoc]
            refine ⟨_, hgrowth, ?_⟩
            simp only [List.length_append, hlength]
            omega
        · have htag : hasCPrefix s (ascii "!--") = false := Bool.eq_false_iff.mpr hcomment
          rw [stripFrom_tag htag] at h
          by_cases hclosed : 62 ∈ s
          · obtain ⟨t, v, rfl, ht⟩ := List.eq_append_cons_of_mem hclosed
            have h0t : 0 ∉ t := fun hmem => hs0 (List.mem_append_left _ hmem)
            have h0v : 0 ∉ v := fun hmem => hs0 (List.mem_append_right _ (List.mem_cons_of_mem _ hmem))
            rw [List.append_assoc, List.cons_append, skipTag_closed ht h0t] at h
            obtain ⟨n, hn, hsize⟩ := ih h h0v hout
            refine ⟨_, .tag htag ht hn, ?_⟩
            simp only [List.length_append, List.length_cons]
            omega
          · rw [skipTag_open hclosed hs0] at h
            exact absurd (hend.symm.trans h) (by simp)
      · by_cases hamp : c = 38
        · subst hamp
          obtain ⟨t, u, rfl, ht, hu⟩ := exists_reference s
          have hroom {v : Bytes} (h0v : 0 ∉ v)
              (hv : (pushAll size out ((encoding (charOf t)).getD [])).bind (stripFrom encoding size m (v ++ [0])) =
                some out') :
              ∃ n, Growth encoding v n ∧
                out.length + ((encoding (charOf t)).getD []).length + v.length + n < size := by
            obtain ⟨next, hnext, hrest⟩ := Option.bind_eq_some_iff.mp hv
            obtain ⟨hle, rfl⟩ := length_of_pushAll hnext hout
            have hnextle : (out ++ (encoding (charOf t)).getD []).length ≤ size := by
              rw [List.length_append]
              exact hle
            obtain ⟨n, hn, hsize⟩ := ih hrest h0v hnextle
            rw [List.length_append] at hsize
            exact ⟨n, hn, by exact_mod_cast hsize⟩
          by_cases hsemi : u.head? = some 59
          · obtain ⟨v, rfl⟩ : ∃ v, u = 59 :: v := by
              cases u with
              | nil => cases hsemi
              | cons d v =>
                obtain rfl := Option.some.inj hsemi
                exact ⟨v, rfl⟩
            have h0v : 0 ∉ v := fun hmem => hs0 (List.mem_append_right _ (List.mem_cons_of_mem _ hmem))
            change stripFrom encoding size (m + 1) (38 :: t ++ 59 :: v ++ [0]) out = some out' at h
            rw [stripFrom_terminated ht] at h
            obtain ⟨n, hn, hsize⟩ := hroom h0v h
            refine ⟨_, .terminated ht hn, ?_⟩
            simp only [List.length_append, List.length_cons]
            omega
          · have hu' : ∀ c ∈ u.head?, isReference c = false ∧ c ≠ 59 := fun c hc =>
              ⟨hu c hc, fun heq => hsemi (hc.trans (congrArg some heq))⟩
            have h0u : 0 ∉ u := fun hmem => hs0 (List.mem_append_right _ hmem)
            change stripFrom encoding size (m + 1) (38 :: t ++ u ++ [0]) out = some out' at h
            rw [stripFrom_reference ht hu'] at h
            obtain ⟨n, hn, hsize⟩ := hroom h0u h
            refine ⟨_, .reference ht hu' hn, ?_⟩
            simp only [List.length_append, List.length_cons]
            omega
        · rw [stripFrom_plain hc0.symm hlt hamp] at h
          obtain ⟨next, hnext, hrest⟩ := Option.bind_eq_some_iff.mp h
          obtain ⟨hroom, rfl⟩ := length_of_push hnext
          have hnextle : (out ++ [c]).length ≤ size := by
            rw [List.length_append, List.length_singleton]
            exact hroom
          obtain ⟨n, hn, hsize⟩ := ih hrest hs0 hnextle
          refine ⟨n, .plain hlt hamp hn, ?_⟩
          simp only [List.length_append, List.length_cons, List.length_nil] at hsize ⊢
          omega

end Scanning

section Escaping

/-- The characters that are escaped: `<`, `>`, `&` and the quote. -/
def specials : List (UInt8 × String) := [(60, "lt"), (62, "gt"), (38, "amp"), (34, "quot")]

def escapeChar (c : UInt8) : Bytes :=
  match specials.lookup c with
  | some name => 38 :: ascii name ++ [59]
  | none => [c]

def escape (text : Bytes) : Bytes := text.flatMap escapeChar

lemma charOf_specials : ∀ r ∈ specials, charOf (ascii r.2) = r.1 ∧ ∀ c ∈ ascii r.2, isReference c = true := by
  have hall : ∀ r ∈ specials, charOf (ascii r.2) = r.1 ∧ (ascii r.2).all isReference = true := by decide
  exact fun r hr => (hall r hr).imp_right List.all_eq_true.mp

lemma lookup_mem {c : UInt8} {name : String} (h : specials.lookup c = some name) : (c, name) ∈ specials := by
  obtain ⟨l₁, l₂, heq, -⟩ := List.lookup_eq_some_iff.mp h
  rw [heq]
  exact List.mem_append_right _ List.mem_cons_self

variable {encoding : Encoding} {m size : ℕ}

/-- The encoding has the escaped characters as they are in ASCII. -/
def KeepsSpecials (encoding : Encoding) : Prop := ∀ r ∈ specials, encoding r.1 = some [r.1]

lemma stripFrom_escapeChar (hencoding : KeepsSpecials encoding) {c : UInt8} (hc : c ≠ 0) (s out : Bytes)
    (hout : out.length < size) :
    stripFrom encoding size (m + 1) (escapeChar c ++ s ++ [0]) out = stripFrom encoding size m (s ++ [0]) (out ++ [c]) := by
  rw [escapeChar]
  cases hlookup : specials.lookup c with
  | none =>
    have hlt : c ≠ 60 := by
      rintro rfl
      cases hlookup
    have hamp : c ≠ 38 := by
      rintro rfl
      cases hlookup
    change stripFrom encoding size (m + 1) (c :: s ++ [0]) out = _
    rw [stripFrom_plain hc hlt hamp, push_of_lt hout]
    rfl
  | some name =>
    have hmem := lookup_mem hlookup
    obtain ⟨hchar, hname⟩ := charOf_specials _ hmem
    have hassoc : 38 :: ascii name ++ [59] ++ s ++ [0] = 38 :: ascii name ++ 59 :: s ++ [0] := by
      simp only [List.append_assoc, List.cons_append, List.nil_append]
    dsimp only at hchar hname ⊢
    rw [hassoc, stripFrom_terminated hname, hchar, hencoding _ hmem]
    change (pushAll size out [c]).bind _ = _
    rw [pushAll_of_le (by simpa using hout)]
    rfl

lemma stripFrom_escape (hencoding : KeepsSpecials encoding) {text out : Bytes} (h0 : 0 ∉ text) (hm : text.length < m)
    (hsize : out.length + text.length < size) :
    stripFrom encoding size m (escape text ++ [0]) out = some (out ++ text ++ [0]) := by
  induction text generalizing m out with
  | nil =>
    obtain ⟨m, rfl⟩ : ∃ k, m = k + 1 := ⟨m - 1, by omega⟩
    rw [List.append_nil]
    exact push_of_lt (by simpa using hsize)
  | cons c text ih =>
    obtain ⟨m, rfl⟩ : ∃ k, m = k + 1 := ⟨m - 1, by omega⟩
    obtain ⟨hc0, h0⟩ := List.ne_and_not_mem_of_not_mem_cons h0
    rw [List.length_cons] at hm hsize
    have hcons : escape (c :: text) = escapeChar c ++ escape text := List.flatMap_cons
    rw [hcons, stripFrom_escapeChar hencoding hc0.symm _ _ (by omega), ih h0 (by omega) (by simp; omega)]
    simp

lemma escapeChar_nonzero {c : UInt8} (hc : c ≠ 0) : 0 ∉ escapeChar c ∧ 1 ≤ (escapeChar c).length := by
  rw [escapeChar]
  cases hlookup : specials.lookup c with
  | none => exact ⟨fun h => hc (List.mem_singleton.mp h).symm, le_refl _⟩
  | some name =>
    have hall : ∀ r ∈ specials, 0 ∉ 38 :: ascii r.2 ++ [59] := by decide
    exact ⟨hall _ (lookup_mem hlookup), by simp⟩

def CString.escape (text : CString) : CString where
  bytes := StripHTML.escape text.bytes
  nonzero := by
    intro h
    obtain ⟨c, hc, h⟩ := List.mem_flatMap.mp h
    have hc0 : c ≠ 0 := by
      rintro rfl
      exact text.nonzero hc
    exact (escapeChar_nonzero hc0).1 h

lemma length_escape {text : Bytes} (h0 : 0 ∉ text) : text.length ≤ (escape text).length := by
  induction text with
  | nil => exact le_refl _
  | cons c text ih =>
    obtain ⟨hc0, h0⟩ := List.ne_and_not_mem_of_not_mem_cons h0
    have hone := (escapeChar_nonzero hc0.symm).2
    have hcons : escape (c :: text) = escapeChar c ++ escape text := List.flatMap_cons
    have hrest := ih h0
    rw [hcons, List.length_cons, List.length_append]
    omega

/-- All is read and written where it may be. -/
def Bounded (encoding : Encoding) (s : CString) : Prop := Ensures (striphtml encoding s) fun _ => True

def RoundTrip (encoding : Encoding) (text : CString) : Prop :=
  Ensures (striphtml encoding (CString.escape text)) fun out => out = text.bytes ++ [0]

lemma bounded_iff (encoding : Encoding) (s : CString) : Bounded encoding s ↔ ∃ n ≤ 0, Growth encoding s.bytes n := by
  constructor
  · rintro ⟨out, hout, -⟩
    obtain ⟨n, hn, hsize⟩ := growth_of_strips hout s.nonzero (Nat.zero_le _)
    refine ⟨n, ?_, hn⟩
    push_cast at hsize
    simp only [List.length_nil] at hsize
    omega
  · rintro ⟨n, hle, hn⟩
    refine hn.strips s.nonzero (Nat.lt_succ_self _) ?_
    push_cast
    simp only [List.length_nil]
    omega

lemma roundTrip_iff (encoding : Encoding) : (∀ text, RoundTrip encoding text) ↔ KeepsSpecials encoding := by
  constructor
  · intro h r hr
    have hnonzero : ∀ r ∈ specials, 0 ∉ [r.1] := by decide
    have hescape : ∀ r ∈ specials, escape [r.1] = 38 :: ascii r.2 ++ 59 :: [] := by decide
    obtain ⟨hchar, hname⟩ := charOf_specials r hr
    obtain ⟨out, hout, heq⟩ := h ⟨[r.1], hnonzero r hr⟩
    rw [striphtml] at hout
    change stripFrom encoding _ _ (escape [r.1] ++ [0]) [] = some out at hout
    rw [hescape r hr, stripFrom_terminated hname, hchar] at hout
    obtain ⟨next, hnext, hrest⟩ := Option.bind_eq_some_iff.mp hout
    obtain ⟨-, rfl⟩ := length_of_pushAll hnext (Nat.zero_le _)
    have hend : out = (encoding r.1).getD [] ++ [0] := by
      generalize (CString.escape ⟨[r.1], hnonzero r hr⟩).bytes.length = m at hrest
      cases m with
      | zero => cases hrest
      | succ m => exact (length_of_push hrest).2
    have henc : (encoding r.1).getD [] = [r.1] := List.append_cancel_right (hend.symm.trans heq)
    cases hvalue : encoding r.1 with
    | none =>
      rw [hvalue] at henc
      cases henc
    | some data =>
      rw [hvalue] at henc
      exact congrArg some henc
  · rintro hencoding text
    have hlength := length_escape text.nonzero
    refine ⟨_, stripFrom_escape hencoding text.nonzero (Nat.lt_succ_of_le hlength) ?_, rfl⟩
    rw [List.length_nil, zero_add]
    exact Nat.lt_succ_of_le hlength

/-- Every text is read and written within bounds, and every escaped one is had back, just where the tags and comments of
the text are closed, its references take no more room than they and the tags leave, and the encoding has ASCII. -/
theorem striphtml_iff (encoding : Encoding) :
    (∀ s, Bounded encoding s ↔ ∃ n ≤ 0, Growth encoding s.bytes n) ∧
      ((∀ text, RoundTrip encoding text) ↔ KeepsSpecials encoding) :=
  ⟨bounded_iff encoding, roundTrip_iff encoding⟩

/-- A tag that is not closed. -/
theorem not_bounded : ¬∀ encoding s, Bounded encoding s := by
  intro h
  obtain ⟨out, hout, -⟩ := h (fun c => some [c]) ⟨[60, 98], by decide⟩
  cases hout

end Escaping

end Xperimentum.Pantomime.StripHTML
