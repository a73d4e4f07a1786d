import Xperimentum.Lib.Byte
import Xperimentum.Pantomime.Data

/-! Decimal digits at the start of some bytes, and the number that `atoi` makes of them. -/

namespace Xperimentum.Pantomime

open Lib.Byte Lib.Int32

variable {t : Bytes} {c : UInt8}

lemma isDigit_bounds (hc : isDigit c = true) : 48 ≤ c.toNat ∧ c.toNat ≤ 57 := by
  simp only [isDigit, Bool.and_eq_true, decide_eq_true_eq] at hc
  exact hc

lemma decimal_snoc (t : Bytes) (c : UInt8) : decimal (t ++ [c]) = 10 * decimal t + (c.toNat - 48) := by
  rw [decimal, List.foldl_append]
  rfl

lemma decimal_lt (h : ∀ c ∈ t, isDigit c = true) : decimal t < 10 ^ t.length := by
  induction t using List.reverseRecOn with
  | nil => exact Nat.one_pos
  | append_singleton t c ih =>
    have hc := isDigit_bounds (h c (by simp))
    have ht := ih fun d hd => h d (List.mem_append_left [c] hd)
    rw [decimal_snoc, List.length_append, List.length_singleton, pow_succ]
    omega

lemma not_space_of_digit {c : UInt8} (hc : isDigit c = true) : isSpace c = false := by
  revert hc
  exact forall_byte (P := fun c => isDigit c = true → isSpace c = false) (by decide) c

lemma takeWhile_digits (rest : Bytes) (h : ∀ c ∈ t, isDigit c = true) (hrest : ∀ c ∈ rest.head?, isDigit c = false) :
    (t ++ rest).takeWhile isDigit = t ∧ (t ++ rest).dropWhile isDigit = rest := by
  rw [List.takeWhile_append_of_pos h, List.dropWhile_append_of_pos h]
  cases rest with
  | nil => exact ⟨List.append_nil t, rfl⟩
  | cons c rest =>
    have hc := hrest c rfl
    simp [hc]

lemma atoi_digits (rest : Bytes) (h : ∀ c ∈ t, isDigit c = true) (hne : t ≠ []) (hrest : ∀ c ∈ rest.head?, isDigit c = false) :
    atoi (t ++ rest) = wrap32 (min (2 ^ 63 - 1) (decimal t)) := by
  have htake := (takeWhile_digits rest h hrest).1
  obtain ⟨c, t, rfl⟩ := List.exists_cons_of_ne_nil hne
  have hc := h c List.mem_cons_self
  have hspace : (c :: t ++ rest).dropWhile isSpace = c :: t ++ rest :=
    List.dropWhile_cons_of_neg (by rw [not_space_of_digit hc]; decide)
  have hminus : c ≠ 45 := by
    rintro rfl
    cases hc
  have hplus : c ≠ 43 := by
    rintro rfl
    cases hc
  rw [atoi, hspace]
  split
  · rename_i heq
    exact absurd (List.cons.inj heq).1 hminus
  · rename_i heq
    exact absurd (List.cons.inj heq).1 hplus
  · rw [htake]

lemma atoi_small (rest : Bytes) (h : ∀ c ∈ t, isDigit c = true) (hne : t ≠ []) (hrest : ∀ c ∈ rest.head?, isDigit c = false)
    (hsmall : decimal t < 2 ^ 31) : atoi (t ++ rest) = decimal t := by
  rw [atoi_digits rest h hne hrest, min_eq_right (by omega), wrap32_of_mem (by omega) (by omega)]

end Xperimentum.Pantomime
