import Xperimentum.Pantomime.EncodedWordsFolding

/-! The strings that come back from their encoded form. -/

namespace Xperimentum.Pantomime.EncodedWords

/-- A word that is decoded is found in the text. -/
def holdsWord : ℕ → Bytes → Bool
  | 0, _ => false
  | n + 1, b =>
    match b with
    | 61 :: 63 :: b' =>
      match parseWord b' with
      | none => false
      | some (_, encoding, _, rest) => lower encoding = 113 || lower encoding = 98 || holdsWord n rest
    | _ :: d :: b' => holdsWord n (d :: b')
    | _ => false

def bytes (w : Str) : Bytes := w.map UInt16.toUInt8

/-- No line break is in front of a blank. -/
def Unfolded (b : Bytes) : Prop := b.IsChain fun x y => ¬(x = 10 ∧ (y = 32 ∨ y = 9))

/-- What is written as it is comes back if it fits on the first line and is not taken for something else. -/
structure PlainKept (w : Str) (p : ℕ) : Prop where
  fits : p + w.length ≤ 75
  unfolded : Unfolded (bytes w)
  noEscape : hasCPrefix (bytes w) (27 :: ascii "$B") = false
  noWord : holdsWord (w.length + 1) (bytes w) = false

structure Kept (F : Foundation) (w : Str) (p : ℕ) : Prop where
  ends : EndsInWord F w
  plain : is7bitSafe w = true → PlainKept w p

def RoundTrips (F : Foundation) (theCharset : Option Bytes) (w : Str) (p : ℕ) : Prop :=
  (unfoldLines (encodeWord F w p)).bind (decodeHeader F theCharset) = some w

section Plain

variable {F : Foundation} {theCharset : Option Bytes}

lemma parseWord_suffix {b charset text rest : Bytes} {encoding : UInt8}
    (h : parseWord b = some (charset, encoding, text, rest)) : ∃ a, b = a ++ rest := by
  rw [parseWord.eq_def] at h
  split at h
  · cases h
  · rename_i x b
    split at h
    · rename_i encoding' b' hdrop
      split at h
      · rename_i rest' hdrop'
        cases h
        have hb : b = b.takeWhile (· ≠ 63) ++ 63 :: encoding :: 63 :: b' := by
          rw [← hdrop, List.takeWhile_append_dropWhile]
        have hb' : b' = b'.takeWhile (· ≠ 63) ++ 63 :: 61 :: rest := by
          rw [← hdrop', List.takeWhile_append_dropWhile]
        refine ⟨x :: b.takeWhile (· ≠ 63) ++ 63 :: encoding :: 63 :: (b'.takeWhile (· ≠ 63) ++ [63, 61]), ?_⟩
        simp only [List.append_assoc, List.cons_append, List.nil_append]
        rw [← hb', ← hb]
      · cases h
    · cases h

lemma decodeSpans_wordless (hF : Converts F theCharset) {n : ℕ} {b : Bytes} (hn : b.length < n)
    (h : holdsWord n b = false) {span : Bytes} (hb : (span ++ b).all (· < 128) = true) :
    decodeSpans F theCharset n span false b = some (asciiUnits (span ++ b)) := by
  induction n generalizing b span with
  | zero => omega
  | succ n ih =>
    have hliteral : ∀ s : Bytes, s.all (· < 128) = true →
        (theCharset.bind fun charset => F.decode charset s).getD (F.literal s) = asciiUnits s :=
      fun s hs => literal_ascii hF hs
    rw [List.all_append, Bool.and_eq_true] at hb
    obtain ⟨hspan, hb⟩ := hb
    have hfront : (if span = [] ∨ false = true then [] else
        (theCharset.bind fun charset => F.decode charset span).getD (F.literal span)) = asciiUnits span := by
      by_cases hnil : span = []
      · rw [hnil, if_pos (Or.inl rfl)]
        rfl
      · rw [if_neg (by simp [hnil]), hliteral span hspan]
    rw [holdsWord.eq_def] at h
    rw [decodeSpans.eq_def]
    simp only at h ⊢
    split
    · rename_i b'
      simp only at h
      rw [hfront]
      cases hparse : parseWord b' with
      | none =>
        simp only [hliteral _ hb, asciiUnits, List.map_append]
      | some word =>
        obtain ⟨charset, encoding, text, rest⟩ := word
        rw [hparse] at h
        simp only [Bool.or_eq_false_iff, decide_eq_false_iff_not] at h
        obtain ⟨a, rfl⟩ := parseWord_suffix hparse
        have htake : (61 :: 63 :: (a ++ rest)).take ((61 :: 63 :: (a ++ rest)).length - rest.length) = 61 :: 63 :: a := by
          rw [← List.cons_append, ← List.cons_append, List.length_append, Nat.add_sub_cancel, List.take_left]
        have hrest := ih (by simp only [List.length_cons, List.length_append] at hn; omega) h.2
          (show (61 :: 63 :: a ++ rest).all (· < 128) = true from hb)
        simp only [if_neg (not_or.mpr h.1), htake, hrest, Option.map_some]
        simp [asciiUnits]
    · rename_i c d b' hne
      have hmark : ¬(c = 61 ∧ d = 63) := fun hcd => hne hcd.1 hcd.2
      have hrest : holdsWord n (d :: b') = false := by
        split at h
        · rename_i heq
          cases heq
          exact absurd ⟨rfl, rfl⟩ hmark
        · rename_i heq
          cases heq
          exact h
        · rename_i hnot
          exact absurd rfl (hnot c d b')
      have hascii : (span ++ [c] ++ d :: b').all (· < 128) = true := by
        rw [List.append_assoc, List.all_append, Bool.and_eq_true]
        exact ⟨hspan, hb⟩
      have hlen : (d :: b').length < n := Nat.lt_of_succ_lt_succ hn
      rw [Bool.false_and, ih hlen hrest hascii, List.append_assoc, List.singleton_append]
    · have hall : (span ++ b).all (· < 128) = true := by
        rw [List.all_append, Bool.and_eq_true]
        exact ⟨hspan, hb⟩
      by_cases hnil : span ++ b = []
      · rw [if_pos hnil, hnil]
        rfl
      · rw [if_neg hnil, hliteral _ hall]

end Plain

section Encoded

variable {F : Foundation} {theCharset : Option Bytes} {w : Str} {p : ℕ}

lemma foldWord_ne_nil (F : Foundation) (w : Str) (p : ℕ) : foldWord F w p ≠ [] := by simp [foldWord]

lemma decodeHeader_encoded (hF : Converts F theCharset) (hw : is7bitSafe w = false)
    (hlossless : ∀ line ∈ foldWord F w p, Lossless F theCharset (F.charset w) line) {tail : Bytes}
    (htail : Unmarked tail) (hascii : tail.all (· < 128) = true) :
    decodeHeader F theCharset (unfold (encodeWord F w p) ++ tail) =
      some ((foldWord F w p).flatten ++ asciiUnits tail) := by
  have hne : w ≠ [] := by
    rintro rfl
    cases hw
  have htext : unfold (encodeWord F w p) =
      [32].intercalate ((foldWord F w p).map (encodeLine F true (F.charset w))) := by
    rw [unfold_encodeWord hne (hF.charset_name w).2.2 (fun h => by rw [hw] at h; cases h), textLines, hw]
    rfl
  rw [htext]
  obtain ⟨b, hb⟩ : ∃ b, [32].intercalate ((foldWord F w p).map (encodeLine F true (F.charset w))) = 61 :: b := by
    obtain ⟨line, ls, hls⟩ := List.exists_cons_of_ne_nil (foldWord_ne_nil F w p)
    rw [hls]
    exact intercalate_starts F _ line _
  have hprefix : hasCPrefix (61 :: b ++ tail) (27 :: ascii "$B") = false := rfl
  rw [decodeHeader, hb, if_neg (by simp), hprefix, if_neg (by decide), ← hb]
  exact decodeSpans_words hF hlossless htail hascii (foldWord_ne_nil F w p) (Nat.lt_succ_self _) (Or.inl rfl)

lemma unfoldLines_encodeWord (h : encodeWord F w p ≠ []) :
    unfoldLines (encodeWord F w p) = some (unfold (encodeWord F w p)) := if_neg h

lemma encodeWord_encoded_ne_nil (hw : is7bitSafe w = false) : encodeWord F w p ≠ [] := by
  have hne : w ≠ [] := by
    rintro rfl
    cases hw
  intro h
  rw [encodeWord_eq hne, textLines, hw] at h
  obtain ⟨line, ls, hls⟩ := List.exists_cons_of_ne_nil (foldWord_ne_nil F w p)
  rw [hls, List.map_cons] at h
  cases ls with
  | nil => simp [encodeLine, ascii] at h
  | cons l ls =>
    rw [List.map_cons, List.intercalate_cons_cons] at h
    simp [encodeLine, ascii] at h

lemma roundTrips_encoded (hF : Converts F theCharset) (hw : is7bitSafe w = false)
    (hlossless : ∀ line ∈ foldWord F w p, Lossless F theCharset (F.charset w) line) :
    RoundTrips F theCharset w p ↔ EndsInWord F w := by
  have hne : w ≠ [] := by
    rintro rfl
    cases hw
  have hdecode := decodeHeader_encoded hF hw hlossless (List.IsChain.nil : Unmarked []) rfl
  rw [List.append_nil] at hdecode
  have hiff := words_flatten hF.whitespace_skipped false [] w
  rw [List.nil_append] at hiff
  rw [RoundTrips, unfoldLines_encodeWord (encodeWord_encoded_ne_nil hw), Option.bind_some, hdecode, foldWord_flatten,
    Option.some_inj]
  simpa [asciiUnits, hne] using hiff

end Encoded

section Folded

variable {l t r : Bytes} {ls : List Bytes}

lemma unfold_head_ne_lf {d : UInt8} (hd : d ≠ 10) (b : Bytes) : (unfold (d :: b)).head? = some d := by
  rw [unfold_cons hd]
  rfl

lemma unfold_eq_append (ht : StartsField t) (h : unfold (l ++ t) = l ++ r) : Unfolded l ∧ r = unfold t := by
  induction l with
  | nil => exact ⟨List.IsChain.nil, h.symm⟩
  | cons c l ih =>
    cases l with
    | nil =>
      have hsplit : unfold (c :: t) = c :: unfold t := by
        by_cases hc : c = 10
        · rw [hc]
          exact unfold_break [] ht
        · exact unfold_cons hc t
      rw [List.singleton_append, hsplit] at h
      exact ⟨List.IsChain.singleton c, (List.cons.inj h).2.symm⟩
    | cons d l =>
      rw [List.cons_append, List.cons_append, unfold] at h
      split_ifs at h with hbreak
      · have hd : d ≠ 10 := by
          rcases hbreak.2 with rfl | rfl <;> decide
        have hhead := unfold_head_ne_lf hd (l ++ t)
        rw [h, hbreak.1] at hhead
        exact absurd (Option.some.inj hhead).symm hd
      · obtain ⟨hchain, hr⟩ := ih (List.cons.inj h).2
        exact ⟨List.IsChain.cons_cons hbreak hchain, hr⟩

lemma unfold_unfolded (h : Unfolded l) : unfold l = l := by
  induction l with
  | nil => rfl
  | cons c l ih =>
    cases l with
    | nil => rfl
    | cons d l => rw [unfold, if_neg (List.IsChain.rel h), ih (List.IsChain.tail h)]

lemma not_folded (hls : ∀ k ∈ ls, ∃ c ∈ k, c ≠ 32) (h : unfold ([10, 32].intercalate (l :: ls)) = (l :: ls).flatten ++ r) :
    ls = [] ∧ Unfolded l ∧ r = [] := by
  cases ls with
  | nil =>
    rw [List.intercalate_singleton, List.flatten_singleton] at h
    have hnil : StartsField [] := fun c hc => by cases hc
    obtain ⟨hl, hr⟩ := unfold_eq_append hnil (show unfold (l ++ []) = l ++ r by rwa [List.append_nil])
    exact ⟨rfl, hl, hr⟩
  | cons k ls =>
    exfalso
    have hstarts : StartsField ([10, 32] ++ [10, 32].intercalate (k :: ls)) := by
      rintro c ⟨⟩
      exact ⟨by decide, by decide⟩
    rw [List.intercalate_cons_cons, List.append_assoc, List.flatten_cons, List.append_assoc] at h
    obtain ⟨-, hr⟩ := unfold_eq_append hstarts h
    obtain ⟨c, hc, hne⟩ := hls k List.mem_cons_self
    have hk : k = k.takeWhile (· = 32) ++ k.dropWhile (· = 32) := List.takeWhile_append_dropWhile.symm
    have hblank := List.all_eq_true.mp (List.all_takeWhile (p := fun x : UInt8 => decide (x = 32)) (l := k))
    obtain ⟨d, k', hd⟩ : ∃ d k', k.dropWhile (· = 32) = d :: k' := by
      refine List.exists_cons_of_ne_nil fun hnil => hne ?_
      rw [hk, hnil, List.append_nil] at hc
      simpa using hblank c hc
    have hd32 : d ≠ 32 := by
      have := List.head_dropWhile_not (fun x : UInt8 => decide (x = 32)) (l := k) (by rw [hd]; simp)
      simpa [hd] using this
    have hblanks : ∃ m, k.takeWhile (· = 32) = List.replicate m 32 := by
      refine ⟨_, List.eq_replicate_of_mem fun x hx => ?_⟩
      simpa using hblank x hx
    obtain ⟨m, hm⟩ := hblanks
    obtain ⟨X, hX⟩ : ∃ X, [10, 32].intercalate (k :: ls) = k ++ X := by
      cases ls with
      | nil => exact ⟨[], by simp⟩
      | cons j ls => exact ⟨_, by rw [List.intercalate_cons_cons, List.append_assoc]⟩
    have hfree : 10 ∉ List.replicate m (32 : UInt8) := fun h10 => absurd (List.eq_of_mem_replicate h10) (by decide)
    have hleft : unfold ([10, 32] ++ (k ++ X)) = List.replicate (m + 1) 32 ++ unfold (d :: k' ++ X) := by
      rw [List.cons_append, List.cons_append, List.nil_append, unfold_fold, hk, hm, hd, List.append_assoc,
        unfold_append hfree, List.replicate_succ, List.cons_append, List.cons_append]
    rw [hX, hleft, List.flatten_cons, hk, hm, hd, List.replicate_succ', List.append_assoc, List.append_assoc,
      List.append_assoc, List.append_cancel_left_eq] at hr
    exact hd32 (List.cons.inj hr).1

end Folded

section Marks

variable {b : Bytes} {ls : List Bytes}

lemma Unmarked.append_of {a : Bytes} (ha : Unmarked a) (hb : Unmarked b) (h : b.head? ≠ some 63) : Unmarked (a ++ b) := by
  refine List.IsChain.append ha hb ?_
  rintro x - y hy ⟨-, rfl⟩
  exact h hy

lemma unmarked_intercalate (h : ∀ l ∈ ls, Unmarked l) : Unmarked ([10, 32].intercalate ls) := by
  induction ls with
  | nil => exact List.IsChain.nil
  | cons l ls ih =>
    have hl := h l List.mem_cons_self
    have hrest := ih fun k hk => h k (List.mem_cons_of_mem _ hk)
    cases ls with
    | nil => rwa [List.intercalate_singleton]
    | cons k ls =>
      rw [List.intercalate_cons_cons, List.append_assoc]
      refine hl.append_of (List.IsChain.append (by decide) hrest ?_) fun hx => absurd (Option.some.inj hx) (by decide)
      rintro x hx y - ⟨rfl, -⟩
      exact absurd hx (by decide)

lemma head_unfold {x : UInt8} (hspace : x ≠ 32) (htab : x ≠ 9) (h : (unfold b).head? = some x) : b.head? = some x := by
  cases b with
  | nil => exact h
  | cons c b =>
    by_cases hc : c = 10
    · rw [hc] at h ⊢
      cases b with
      | nil => exact h
      | cons d b =>
        rw [unfold] at h
        split_ifs at h with hblank
        · have hd : d ≠ 10 := by
            rcases hblank.2 with rfl | rfl <;> decide
          rw [unfold_head_ne_lf hd] at h
          obtain rfl := Option.some.inj h
          exact absurd hblank.2 (not_or.mpr ⟨hspace, htab⟩)
        · exact h
    · rwa [unfold_head_ne_lf hc] at h

lemma unmarked_unfold (h : Unmarked b) : Unmarked (unfold b) := by
  induction b with
  | nil => exact h
  | cons c b ih =>
    cases b with
    | nil => exact h
    | cons d b =>
      have hrest := ih (List.IsChain.tail h)
      rw [unfold]
      split_ifs
      · exact hrest
      · rw [← List.singleton_append]
        refine List.IsChain.append (List.IsChain.singleton c) hrest ?_
        rintro x hx y hy ⟨rfl, rfl⟩
        have hd := head_unfold (by decide) (by decide) hy
        exact List.IsChain.rel h ⟨Option.some.inj hx, Option.some.inj hd⟩

lemma mem_of_mem_unfold {x : UInt8} (h : x ∈ unfold b) : x ∈ b := by
  induction b with
  | nil => exact h
  | cons c b ih =>
    cases b with
    | nil => exact h
    | cons d b =>
      rw [unfold] at h
      split_ifs at h
      · exact List.mem_cons_of_mem _ (ih h)
      · rcases List.mem_cons.mp h with rfl | h
        · exact List.mem_cons_self
        · exact List.mem_cons_of_mem _ (ih h)

lemma holdsWord_unmarked (h : Unmarked b) (n : ℕ) : holdsWord n b = false := by
  induction n generalizing b with
  | zero => rfl
  | succ n ih =>
    rw [holdsWord.eq_def]
    simp only
    split
    · exact absurd ⟨rfl, rfl⟩ (List.IsChain.rel h)
    · exact ih (List.IsChain.tail h)
    · rfl

end Marks

section SevenBit

variable {F : Foundation} {theCharset : Option Bytes} {w : Str} {p : ℕ}

lemma asciiUnits_bytes (hw : is7bitSafe w = true) : asciiUnits (bytes w) = w := by
  rw [asciiUnits, bytes, List.map_map]
  refine (List.map_congr_left fun c hc => ?_).trans (List.map_id w)
  have hle : c.toNat ≤ 126 := UInt16.le_iff_toNat_le.mp (of_decide_eq_true (List.all_eq_true.mp hw c hc))
  exact UInt16.toNat_inj.mp (Nat.mod_eq_of_lt (by omega))

lemma bytes_asciiUnits (b : Bytes) : bytes (asciiUnits b) = b := by
  rw [asciiUnits, bytes, List.map_map]
  exact (List.map_congr_left fun c _ => by simp).trans (List.map_id b)

lemma bytes_ascii (hw : is7bitSafe w = true) : (bytes w).all (· < 128) = true := by
  rw [List.all_eq_true]
  intro x hx
  obtain ⟨c, hc, rfl⟩ := List.mem_map.mp hx
  have hle : c.toNat ≤ 126 := UInt16.le_iff_toNat_le.mp (of_decide_eq_true (List.all_eq_true.mp hw c hc))
  refine decide_eq_true (UInt8.lt_iff_toNat_lt.mpr ?_)
  change c.toNat % 256 < 128
  omega

lemma encodeWord_plain (hw : is7bitSafe w = true) (hne : w ≠ []) :
    encodeWord F w p = [10, 32].intercalate ((foldWord F w p).map bytes) := by
  rw [encodeWord_eq hne, textLines, hw]
  rfl

lemma foldWord_fits (hw : is7bitSafe w = true) (hflat : (words F false [] w).flatten = w) (h : p + w.length ≤ 75) :
    foldWord F w p = [w] := by
  have htext := foldl_addWord_text F (!is7bitSafe w) (F.charset w) p (words F false [] w) {}
  have hlines := @foldl_addWord_unfolded F (F.charset w) p (words F false [] w) {} rfl (by rw [hflat]; simpa using h)
  rw [hw] at htext
  rw [foldWord, hw]
  simp only [Folding.text, Bool.not_true, List.flatten_nil, List.nil_append, hflat, hlines] at htext ⊢
  rw [htext]

lemma roundTrips_plain (hF : Converts F theCharset) (hw : is7bitSafe w = true) (h : Kept F w p) :
    RoundTrips F theCharset w p := by
  obtain ⟨hfits, hunfolded, hescape, hword⟩ := h.plain hw
  have hne : w ≠ [] := by
    rintro rfl
    exact not_endsInWord_nil h.ends
  have hflat : (words F false [] w).flatten = w :=
    (words_flatten hF.whitespace_skipped false [] w).mpr (Or.inr (Or.inr h.ends))
  have htext : encodeWord F w p = bytes w := by
    rw [encodeWord_plain hw hne, foldWord_fits hw hflat hfits]
    simp
  have hnil : bytes w ≠ [] := by simpa [bytes] using hne
  have hlen : (bytes w).length = w.length := List.length_map _
  have hdecode : decodeSpans F theCharset ((bytes w).length + 1) [] false (bytes w) = some (asciiUnits (bytes w)) :=
    decodeSpans_wordless hF (Nat.lt_succ_self _) (by rwa [hlen]) (bytes_ascii hw)
  rw [RoundTrips, htext, unfoldLines, if_neg hnil, Option.bind_some, unfold_unfolded hunfolded, decodeHeader,
    if_neg hnil, hescape, if_neg (by decide), hdecode, asciiUnits_bytes hw]

lemma head_first {x : UInt8} {l : Bytes} {ls : List Bytes} (hlf : x ≠ 10) (hspace : x ≠ 32) (htab : x ≠ 9)
    (h : (unfold ([10, 32].intercalate (l :: ls))).head? = some x) : l.head? = some x := by
  have hhead := head_unfold hspace htab h
  cases ls with
  | nil => rwa [List.intercalate_singleton] at hhead
  | cons k ls =>
    rw [List.intercalate_cons_cons, List.append_assoc, List.head?_append] at hhead
    cases hl : l.head? with
    | none =>
      rw [hl] at hhead
      exact absurd (Option.some.inj hhead).symm hlf
    | some y =>
      rw [hl] at hhead
      exact hhead

lemma foldWord_visible (hskipped : ∀ c, F.whitespace c = true → F.skipped c = true) {line : Str} {lines : List Str}
    (h : foldWord F w p = line :: lines) : ∀ l ∈ lines, ∃ c ∈ l, F.skipped c = false := by
  have hP : ∀ s t : Str, (∃ c ∈ s, F.skipped c = false) → ∃ c ∈ t ++ s, F.skipped c = false := by
    rintro s t ⟨c, hc, hvisible⟩
    exact ⟨c, List.mem_append_right _ hc, hvisible⟩
  have hwords := @words_visible F hskipped false [] w fun hfalse => by cases hfalse
  have htail := @foldl_addWord_tail F (F.charset w) p _ hP (!is7bitSafe w) _ {} hwords
    ⟨by simp, fun hnil => absurd rfl hnil⟩
  rw [foldWord] at h
  set f := (words F false [] w).foldl (addWord F (!is7bitSafe w) (F.charset w) p) {}
  intro l hl
  cases hf : f.lines with
  | nil =>
    rw [hf, List.nil_append] at h
    rw [← (List.cons.inj h).2] at hl
    cases hl
  | cons k ks =>
    rw [hf, List.cons_append] at h
    rw [← (List.cons.inj h).2] at hl
    rw [hf] at htail
    rcases List.mem_append.mp hl with hl | hl
    · exact htail.1 l hl
    · rw [List.mem_singleton.mp hl]
      exact htail.2 (List.cons_ne_nil _ _)

lemma foldWord_single (hne : w ≠ []) (hw : is7bitSafe w = true) (h : foldWord F w p = [w]) : p + w.length ≤ 75 := by
  rw [foldWord, hw, Bool.not_true] at h
  set f := (words F false [] w).foldl (addWord F false (F.charset w) p) {} with hf
  have hlines : f.lines = [] := by
    have hlen := congrArg List.length h
    rw [List.length_append] at hlen
    exact List.length_eq_zero_iff.mp (by simpa using hlen)
  rw [hlines, List.nil_append] at h
  have hcurrent : f.current = w := (List.cons.inj h).1
  have hfits := @foldl_addWord_fits F (F.charset w) p (words F false [] w) {} (fun _ => Or.inl rfl) hlines
  rw [← hf, hcurrent] at hfits
  exact hfits.resolve_left hne

lemma kept_of_roundTrips (hF : Converts F theCharset) (hw : is7bitSafe w = true) (hmarks : Unmarked (bytes w))
    (h : RoundTrips F theCharset w p) : Kept F w p := by
  have hne : w ≠ [] := by
    rintro rfl
    cases h
  obtain ⟨rest, hrest⟩ := words_front F false [] w
  rw [← foldWord_flatten F w p, List.nil_append] at hrest
  have henc := encodeWord_plain (F := F) (p := p) hw hne
  have henc0 : encodeWord F w p ≠ [] := by
    intro hnil
    rw [RoundTrips, hnil] at h
    cases h
  obtain ⟨line, lines, hlines⟩ := List.exists_cons_of_ne_nil (foldWord_ne_nil F w p)
  have hbytes : bytes w = (bytes line :: lines.map bytes).flatten ++ bytes rest := by
    rw [← hrest, hlines]
    simp [bytes, List.map_flatten]
    rfl
  rw [hlines, List.map_cons] at henc
  rw [RoundTrips, unfoldLines_encodeWord henc0, Option.bind_some, henc] at h
  set out := unfold ([10, 32].intercalate (bytes line :: lines.map bytes)) with hout
  have hpart : ∀ l ∈ bytes line :: lines.map bytes, Unmarked l := by
    intro l hl
    refine List.IsChain.infix hmarks ?_
    rw [hbytes]
    exact (List.infix_of_mem_flatten hl).trans (List.prefix_append _ _).isInfix
  have hunmarked : Unmarked out := unmarked_unfold (unmarked_intercalate hpart)
  have hascii : out.all (· < 128) = true := by
    rw [List.all_eq_true]
    intro x hx
    by_contra hge
    rw [decide_eq_true_eq] at hge
    have hsep : x ∉ ([10, 32] : Bytes) := by
      rintro hmem
      simp only [List.mem_cons, List.not_mem_nil, or_false] at hmem
      rcases hmem with rfl | rfl <;> exact hge (by decide)
    refine not_mem_intercalate hsep (fun l hl hxl => hge ?_) (mem_of_mem_unfold hx)
    refine of_decide_eq_true (List.all_eq_true.mp (bytes_ascii hw) x ?_)
    rw [hbytes]
    exact List.mem_append_left _ (List.mem_flatten.mpr ⟨l, hl, hxl⟩)
  have hescape : hasCPrefix out (27 :: ascii "$B") = false := by
    by_contra hpre
    rw [Bool.not_eq_false] at hpre
    obtain ⟨b, hb⟩ := List.isPrefixOf_iff_prefix.mp hpre
    have hhead : out.head? = some 27 := by rw [← hb]; rfl
    have hline : (bytes line).head? = some 27 := head_first (by decide) (by decide) (by decide) hhead
    have hw27 : w.head? = some 27 := by
      have hb27 : (bytes w).head? = some 27 := by
        rw [hbytes, List.flatten_cons, List.append_assoc, List.head?_append, hline]
        rfl
      rw [← asciiUnits_bytes hw, asciiUnits, List.head?_map, hb27]
      rfl
    have hne0 : out ≠ [] := by
      rintro hnil
      rw [hnil] at hhead
      cases hhead
    rw [decodeHeader, if_neg hne0, if_pos hpre, ← hb] at h
    exact hF.escape_decoded b w h hw27
  have hsame : out = bytes w := by
    have hne0 : out ≠ [] := by
      intro hnil
      rw [decodeHeader, if_pos hnil] at h
      exact hne (Option.some.inj h).symm
    rw [decodeHeader, if_neg hne0, hescape, if_neg (by decide), decodeSpans_unmarked hunmarked (Nat.lt_succ_self _),
      List.nil_append, if_neg hne0, literal_ascii hF hascii] at h
    rw [← Option.some.inj h, bytes_asciiUnits]
  have hvisible : ∀ k ∈ lines.map bytes, ∃ c ∈ k, c ≠ 32 := by
    intro k hk
    obtain ⟨l, hl, rfl⟩ := List.mem_map.mp hk
    have hlw : l ⊆ w := foldWord_subset F (hlines ▸ List.mem_cons_of_mem _ hl)
    obtain ⟨c, hc, hskipped⟩ := foldWord_visible hF.whitespace_skipped hlines l hl
    refine ⟨c.toUInt8, List.mem_map_of_mem hc, fun h32 => ?_⟩
    have hle : c.toNat ≤ 126 := UInt16.le_iff_toNat_le.mp (of_decide_eq_true (List.all_eq_true.mp hw c (hlw hc)))
    have hmod : c.toNat % 256 = 32 := congrArg UInt8.toNat h32
    obtain rfl : c = 32 := UInt16.toNat_inj.mp (show c.toNat = 32 by omega)
    have hblank := hF.whitespace_skipped 32 ((hF.whitespace_ascii 32 (by decide)).mpr (Or.inl rfl))
    rw [hblank] at hskipped
    cases hskipped
  obtain ⟨hnil, hunfolded, hleft⟩ := not_folded hvisible (hsame.trans hbytes)
  obtain rfl := List.map_eq_nil_iff.mp hnil
  obtain rfl := List.map_eq_nil_iff.mp hleft
  obtain rfl : line = w := by rw [← hrest, hlines]; simp
  have hflat := foldWord_flatten F line p
  rw [hlines, List.flatten_singleton] at hflat
  refine ⟨?_, fun _ => ⟨foldWord_single hne hw hlines, hunfolded, hsame ▸ hescape, holdsWord_unmarked hmarks _⟩⟩
  have hiff := (words_flatten hF.whitespace_skipped false [] line).mp hflat.symm
  simpa [hne] using hiff

end SevenBit

/-- A string comes back if its last word ends it and, where it is written as it is, it fits and is plain text; where it
is plain text without `=?`, not otherwise. -/
theorem encodeWord_roundTrips (F : Foundation) (theCharset : Option Bytes) (w : Str) (p : ℕ)
    (hF : Converts F theCharset) (hlossless : ∀ line ∈ foldWord F w p, Lossless F theCharset (F.charset w) line) :
    (Kept F w p → RoundTrips F theCharset w p) ∧
      (RoundTrips F theCharset w p → Kept F w p ∨ is7bitSafe w = true ∧ ¬Unmarked (bytes w)) := by
  cases hw : is7bitSafe w with
  | false =>
    have hiff := roundTrips_encoded hF hw hlossless
    exact ⟨fun h => hiff.mpr h.ends, fun h => Or.inl ⟨hiff.mp h, fun h7 => by rw [hw] at h7; cases h7⟩⟩
  | true =>
    refine ⟨roundTrips_plain hF hw, fun h => ?_⟩
    by_cases hmarks : Unmarked (bytes w)
    · exact Or.inl (kept_of_roundTrips hF hw hmarks h)
    · exact Or.inr ⟨rfl, hmarks⟩

section Latin

/-- A converter whose characters are single bytes. -/
def latin : Foundation where
  whitespace c := c = 32 || c = 9
  skipped c := c = 32 || 9 ≤ c && c ≤ 13
  charset _ := ascii "iso-8859-1"
  encode _ w := if w.all (· < 256) then some (bytes w) else none
  decode _ b := some (asciiUnits b)
  iso2022jp _ := none
  cString := asciiUnits

lemma latin_converts : Converts latin none where
  whitespace_ascii c _ := by simp [latin]
  whitespace_skipped c h := by
    have hc : c = 32 ∨ c = 9 := by simpa [latin] using h
    rcases hc with rfl | rfl <;> rfl
  charset_name _ := (by decide : ascii "iso-8859-1" ≠ [] ∧ 63 ∉ ascii "iso-8859-1" ∧ 10 ∉ ascii "iso-8859-1")
  ascii_decoded _ h := by cases h
  empty_decoded _ := rfl
  escape_decoded _ _ h := by cases h

/-- `é è`. -/
theorem encodeWord_roundTrips_latin : (Kept latin [233, 32, 232] 9 → RoundTrips latin none [233, 32, 232] 9) ∧
    (RoundTrips latin none [233, 32, 232] 9 →
      Kept latin [233, 32, 232] 9 ∨ is7bitSafe [233, 32, 232] = true ∧ ¬Unmarked (bytes [233, 32, 232])) := by
  refine encodeWord_roundTrips latin none [233, 32, 232] 9 latin_converts fun line hline _ => ?_
  have hfold : foldWord latin [233, 32, 232] 9 = [[233, 32, 232]] := by decide
  rw [hfold] at hline
  rw [List.mem_singleton.mp hline]
  exact ⟨[233, 32, 232], by decide, by decide⟩

/-- The blank behind the last word is lost: `hi `. -/
theorem trailing_blank_lost : ¬RoundTrips latin none [104, 105, 32] 0 := by
  rw [RoundTrips]
  decide

end Latin

end Xperimentum.Pantomime.EncodedWords
