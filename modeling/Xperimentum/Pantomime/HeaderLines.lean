import Mathlib.Data.List.Chain
import Xperimentum.Lib.Byte
import Xperimentum.Pantomime.EncodedWords

/-! The lines of a header: what is unfolded, and the folded text of an encoded string. -/

namespace Xperimentum.Pantomime.EncodedWords

open Lib.Byte

section Unfolding

variable {a b : Bytes}

lemma unfold_cons {c : UInt8} (hc : c ≠ 10) (b : Bytes) : unfold (c :: b) = c :: unfold b := by
  cases b with
  | nil => rfl
  | cons d b => rw [unfold, if_neg (fun h => hc h.1)]

lemma unfold_append (ha : 10 ∉ a) (b : Bytes) : unfold (a ++ b) = a ++ unfold b := by
  induction a with
  | nil => rfl
  | cons c a ih =>
    obtain ⟨hc, ha⟩ := List.ne_and_not_mem_of_not_mem_cons ha
    rw [List.cons_append, unfold_cons hc.symm, ih ha, List.cons_append]

lemma unfold_free (ha : 10 ∉ a) : unfold a = a := by
  have h := unfold_append ha []
  rw [List.append_nil] at h
  exact h.trans (List.append_nil a)

lemma unfold_fold (b : Bytes) : unfold (10 :: 32 :: b) = 32 :: unfold b := by
  rw [unfold, if_pos ⟨rfl, Or.inl rfl⟩, unfold_cons (by decide)]

def StartsField (b : Bytes) : Prop := ∀ c ∈ b.head?, c ≠ 32 ∧ c ≠ 9

lemma unfold_break (a : Bytes) (hb : StartsField b) : unfold (a ++ 10 :: b) = unfold a ++ 10 :: unfold b := by
  have hten : unfold (10 :: b) = 10 :: unfold b := by
    cases b with
    | nil => rfl
    | cons c b =>
      obtain ⟨hspace, htab⟩ := hb c rfl
      rw [unfold, if_neg (fun h => h.2.elim hspace htab)]
  induction a with
  | nil => exact hten
  | cons x a ih =>
    cases a with
    | nil =>
      rw [List.cons_append, List.nil_append, unfold, if_neg (fun h => absurd h.2 (by decide)), hten]
      rfl
    | cons y a =>
      rw [List.cons_append, List.cons_append, unfold, unfold]
      rw [List.cons_append] at ih
      by_cases h : x = 10 ∧ (y = 32 ∨ y = 9)
      · rw [if_pos h, if_pos h, ih]
      · rw [if_neg h, if_neg h, ih, List.cons_append]

lemma unfold_intercalate {p : Bytes} {ps : List Bytes} (h : ∀ q ∈ p :: ps, 10 ∉ q) :
    unfold ([10, 32].intercalate (p :: ps)) = [32].intercalate (p :: ps) := by
  induction ps generalizing p with
  | nil => simpa using unfold_free (h p List.mem_cons_self)
  | cons q ps ih =>
    have hrest := ih (fun r hr => h r (List.mem_cons_of_mem _ hr))
    rw [List.intercalate_cons_cons, List.intercalate_cons_cons, List.append_assoc,
      unfold_append (h p List.mem_cons_self)]
    calc p ++ unfold (10 :: 32 :: [10, 32].intercalate (q :: ps))
      _ = p ++ 32 :: [32].intercalate (q :: ps) := by rw [unfold_fold, hrest]
      _ = p ++ [32] ++ [32].intercalate (q :: ps) := by simp

end Unfolding

section EncodedText

variable (F : Foundation)

lemma not_mem_encodeQuotedPrintable {x : UInt8} (hescaped : ∀ c, x ∉ escaped c) (halpha : isAlpha x = false)
    (hx : x ≠ 95) (line : ℕ) (b : Bytes) : x ∉ encodeQuotedPrintable 0 true line b := by
  induction b generalizing line with
  | nil => exact List.not_mem_nil
  | cons c b ih =>
    simp only [encodeQuotedPrintable, ne_eq, not_true, false_and, if_false, List.nil_append, Bool.not_true,
      Bool.false_and, Bool.true_and, Bool.false_eq_true]
    split_ifs with hblank hc hspace
    · exact List.not_mem_append (hescaped c) (ih _)
    · refine List.not_mem_cons_of_ne_of_not_mem ?_ (ih _)
      rintro rfl
      exact absurd (hc.symm.trans halpha) (by decide)
    · exact List.not_mem_cons_of_ne_of_not_mem hx (ih _)
    · exact List.not_mem_append (hescaped c) (ih _)

def Folding.text (f : Folding) : Str := f.lines.flatten ++ f.current

lemma addWord_text (must : Bool) (charset : Bytes) (p : ℕ) (f : Folding) (aString : Str) :
    (addWord F must charset p f aString).text = f.text ++ aString := by
  simp only [addWord, Folding.text]
  split_ifs <;> simp

lemma foldl_addWord_text (must : Bool) (charset : Bytes) (p : ℕ) (ws : List Str) (f : Folding) :
    (ws.foldl (addWord F must charset p) f).text = f.text ++ ws.flatten := by
  induction ws generalizing f with
  | nil => simp
  | cons s ws ih => rw [List.foldl_cons, ih, addWord_text, List.flatten_cons, List.append_assoc]

lemma foldWord_flatten (w : Str) (p : ℕ) : (foldWord F w p).flatten = (words F false [] w).flatten := by
  have h := foldl_addWord_text F (!is7bitSafe w) (F.charset w) p (words F false [] w) {}
  simp only [Folding.text] at h
  simpa [foldWord] using h

lemma words_front (inWord : Bool) (aString w : Str) : (words F inWord aString w).flatten <+: aString ++ w := by
  induction w generalizing inWord aString with
  | nil => cases inWord <;> simp [words]
  | cons c w ih =>
    rw [words]
    split_ifs
    · have h := ih false [c]
      simpa using h
    · simpa using ih true (aString ++ [c])
    · simpa using ih (!F.skipped c) (aString ++ [c])

lemma foldWord_subset {w line : Str} {p : ℕ} (h : line ∈ foldWord F w p) : line ⊆ w := by
  intro c hc
  have hflat : c ∈ (foldWord F w p).flatten := List.mem_flatten.mpr ⟨line, h, hc⟩
  rw [foldWord_flatten] at hflat
  simpa using (words_front F false [] w).subset hflat

def textLines (w : Str) (p : ℕ) : List Bytes :=
  (foldWord F w p).map (encodeLine F (!is7bitSafe w) (F.charset w))

lemma textLines_ne_nil (w : Str) (p : ℕ) : textLines F w p ≠ [] := by
  simp [textLines, foldWord]

variable {F} {w : Str}

lemma toUInt8_ne_lf {c : UInt16} (hc : c ≤ 126) (hne : c ≠ 10) : c.toUInt8 ≠ 10 := by
  intro h
  have hmod : c.toNat % 256 = 10 := congrArg UInt8.toNat h
  have hle : c.toNat ≤ 126 := UInt16.le_iff_toNat_le.mp hc
  exact hne (UInt16.toNat_inj.mp (show c.toNat = 10 by omega))

lemma lf_not_mem_textLines (hcharset : 10 ∉ F.charset w) (hw : is7bitSafe w = true → 10 ∉ w) (p : ℕ) :
    ∀ l ∈ textLines F w p, 10 ∉ l := by
  intro l hl
  obtain ⟨line, hline, rfl⟩ := List.mem_map.mp hl
  have hsub := foldWord_subset F hline
  rw [encodeLine]
  split_ifs with h
  · have htext : 10 ∉ encodeHeader F (F.charset w) line := by
      rw [encodeHeader]
      split_ifs
      · exact List.not_mem_nil
      · cases F.encode (F.charset w) line with
        | none => exact List.not_mem_nil
        | some b =>
          exact not_mem_encodeQuotedPrintable (forall_byte (by decide)) (by decide) (by decide) 0 b
    simp only [List.mem_append, not_or]
    exact ⟨⟨⟨⟨by decide, hcharset⟩, by decide⟩, htext⟩, by decide⟩
  · rw [Bool.not_eq_true, Bool.not_eq_false'] at h
    have hfree := hw h
    rw [is7bitSafe, List.all_eq_true] at h
    intro hten
    obtain ⟨c, hc, heq⟩ := List.mem_map.mp hten
    exact toUInt8_ne_lf (of_decide_eq_true (h c (hsub hc))) (fun h => hfree (h ▸ hsub hc)) heq

lemma encodeWord_eq (hne : w ≠ []) (p : ℕ) : encodeWord F w p = [10, 32].intercalate (textLines F w p) := by
  rw [encodeWord, if_neg hne]
  rfl

lemma unfold_encodeWord (hne : w ≠ []) (hcharset : 10 ∉ F.charset w) (hw : is7bitSafe w = true → 10 ∉ w) (p : ℕ) :
    unfold (encodeWord F w p) = [32].intercalate (textLines F w p) := by
  have hlines := lf_not_mem_textLines hcharset hw p
  rw [encodeWord_eq hne]
  cases h : textLines F w p with
  | nil => exact absurd h (textLines_ne_nil F w p)
  | cons l ls => exact unfold_intercalate (h ▸ hlines)

lemma not_mem_intercalate {c : UInt8} {sep : Bytes} (hsep : c ∉ sep) {ls : List Bytes} (hls : ∀ l ∈ ls, c ∉ l) :
    c ∉ sep.intercalate ls := by
  induction ls with
  | nil => exact List.not_mem_nil
  | cons l ls ih =>
    have hl := hls l List.mem_cons_self
    have hrest := ih fun k hk => hls k (List.mem_cons_of_mem _ hk)
    cases ls with
    | nil => simpa using hl
    | cons k ls =>
      rw [List.intercalate_cons_cons]
      exact List.not_mem_append (List.not_mem_append hl hsep) hrest

lemma lf_not_mem_unfold_encodeWord (hcharset : 10 ∉ F.charset w) (hw : 10 ∉ w) (p : ℕ) :
    10 ∉ unfold (encodeWord F w p) := by
  by_cases hne : w = []
  · rw [hne]
    exact List.not_mem_nil
  · rw [unfold_encodeWord hne hcharset fun _ => hw]
    exact not_mem_intercalate (by decide) (lf_not_mem_textLines hcharset (fun _ => hw) p)

end EncodedText

end Xperimentum.Pantomime.EncodedWords
