import Mathlib.Tactic

/-! Two's-complement 32-bit machine integers kept as `Int`. -/

namespace Xperimentum.Lib.Int32

def wrap32 (n : ℤ) : ℤ := n.bmod (2 ^ 32)

def toU32 (n : ℤ) : ℤ := n % 2 ^ 32

lemma wrap32_lower (n : ℤ) : -2 ^ 31 ≤ wrap32 n := by
  have h := Int.le_bmod (x := n) (m := 2 ^ 32) (by decide)
  simpa [wrap32] using h

lemma wrap32_upper (n : ℤ) : wrap32 n < 2 ^ 31 := by
  have h := Int.bmod_lt (x := n) (m := 2 ^ 32) (by decide)
  simpa [wrap32] using h

lemma wrap32_of_mem {n : ℤ} (hl : -2 ^ 31 ≤ n) (hu : n < 2 ^ 31) : wrap32 n = n := by
  rw [wrap32]
  apply Int.bmod_eq_of_le <;> simp only [Nat.cast_pow, Nat.cast_ofNat] <;> omega

lemma wrap32_natCast {k : ℕ} (h : k < 2 ^ 31) : wrap32 (k : ℤ) = k := wrap32_of_mem (by omega) (by omega)

lemma toU32_nonneg (n : ℤ) : 0 ≤ toU32 n := Int.emod_nonneg n (by decide)

lemma toU32_of_mem {n : ℤ} (hl : 0 ≤ n) (hu : n < 2 ^ 32) : toU32 n = n := Int.emod_eq_of_lt hl hu

lemma wrap32_modEq (n : ℤ) : wrap32 n ≡ n [ZMOD 2 ^ 32] := Int.bmod_emod

lemma wrap32_of_modEq {m n : ℤ} (h : m ≡ n [ZMOD 2 ^ 32]) : wrap32 m = wrap32 n := by
  have hm := Int.emod_bmod m (2 ^ 32)
  have hn := Int.emod_bmod n (2 ^ 32)
  rw [Int.ModEq] at h
  rw [wrap32, wrap32, ← hm, ← hn]
  exact congrArg (Int.bmod · (2 ^ 32)) h

end Xperimentum.Lib.Int32
