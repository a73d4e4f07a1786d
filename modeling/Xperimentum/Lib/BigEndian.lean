import Mathlib.Tactic

/-! Numbers as big-endian bytes, and byte strings behind a count of two bytes. -/

namespace Xperimentum.Lib.BigEndian

variable {m bs f : List UInt8}

@[grind =] def bytes : ℕ → ℕ → List UInt8
  | 0, _ => []
  | k + 1, n => UInt8.ofNat (n / 256 ^ k) :: bytes k n

@[grind =] def value : List UInt8 → ℕ
  | [] => 0
  | b :: bs => b.toNat * 256 ^ bs.length + value bs

@[simp] lemma length_bytes (k n : ℕ) : (bytes k n).length = k := by
  induction k with
  | zero => rfl
  | succ k ih => rw [bytes, List.length_cons, ih]

lemma value_bytes (k n : ℕ) : value (bytes k n) = n % 256 ^ k := by
  induction k with
  | zero => rw [bytes, value, pow_zero, Nat.mod_one]
  | succ k ih =>
    have hmod : n % 256 ^ (k + 1) = n % 256 ^ k + 256 ^ k * (n / 256 ^ k % 256) := Nat.mod_pow_succ
    rw [bytes, value, ih, length_bytes, UInt8.toNat_ofNat', hmod, mul_comm, add_comm]

lemma value_lt (bs : List UInt8) : value bs < 256 ^ bs.length := by
  induction bs with
  | nil => exact Nat.one_pos
  | cons b bs ih =>
    have hb := b.toNat_lt
    rw [value, List.length_cons, pow_succ]
    calc b.toNat * 256 ^ bs.length + value bs < b.toNat * 256 ^ bs.length + 256 ^ bs.length := by omega
      _ = (b.toNat + 1) * 256 ^ bs.length := by ring
      _ ≤ 256 * 256 ^ bs.length := Nat.mul_le_mul_right _ (by omega)
      _ = 256 ^ bs.length * 256 := mul_comm _ _

lemma bytes_mod (k n : ℕ) : bytes k (n % 256 ^ k) = bytes k n := by
  induction k generalizing n with
  | zero => rfl
  | succ k ih =>
    rw [bytes, bytes]
    congr 1
    · apply UInt8.toNat_inj.mp
      rw [UInt8.toNat_ofNat', UInt8.toNat_ofNat', pow_succ, Nat.mod_mul_right_div_self, Nat.mod_mod]
    · rw [← ih (n % 256 ^ (k + 1)), Nat.mod_mod_of_dvd _ (pow_dvd_pow 256 (Nat.le_succ k)), ih]

lemma bytes_value (bs : List UInt8) : bytes bs.length (value bs) = bs := by
  induction bs with
  | nil => rfl
  | cons b bs ih =>
    have hlt := value_lt bs
    have hb := b.toNat_lt
    have hpos : 0 < 256 ^ bs.length := Nat.pos_of_ne_zero (by positivity)
    rw [value, List.length_cons, bytes]
    congr 1
    · apply UInt8.toNat_inj.mp
      rw [UInt8.toNat_ofNat', add_comm, Nat.add_mul_div_right _ _ hpos, Nat.div_eq_of_lt hlt, zero_add]
      exact Nat.mod_eq_of_lt hb
    · rw [← bytes_mod, add_comm, Nat.add_mul_mod_self_right, bytes_mod, ih]

/-- A byte string whose count is cut to two bytes, with as many of its bytes as the count says. -/
def counted (f : List UInt8) : List UInt8 := bytes 2 f.length ++ f.take (f.length % 65536)

/-- The string whose count stands at an offset, if all of it is there. -/
def countedAt (m : List UInt8) (i : ℕ) : Option (List UInt8) :=
  if i + 2 + value ((m.drop i).take 2) ≤ m.length then some ((m.drop (i + 2)).take (value ((m.drop i).take 2)))
  else none

lemma counted_of_lt (h : f.length < 65536) : counted f = bytes 2 f.length ++ f := by
  rw [counted, Nat.mod_eq_of_lt h, List.take_length]

lemma length_counted (f : List UInt8) : (counted f).length = f.length % 65536 + 2 := by
  rw [counted, List.length_append, length_bytes, List.length_take, min_eq_left (Nat.mod_le _ _), add_comm]

lemma countedAt_iff {i : ℕ} : countedAt m i = some f ↔ f.length < 65536 ∧ counted f <+: m.drop i := by
  refine ⟨fun h => ?_, fun ⟨hlt, rest, hrest⟩ => ?_⟩
  · simp only [countedAt] at h
    split_ifs at h with hle
    · have htwo : ((m.drop i).take 2).length = 2 := by
        rw [List.length_take, List.length_drop]
        omega
      have hlt := value_lt ((m.drop i).take 2)
      rw [htwo] at hlt
      have hlen : f.length = value ((m.drop i).take 2) := by
        rw [← Option.some.inj h, List.length_take, List.length_drop]
        omega
      have hf : f.length < 65536 := by omega
      refine ⟨hf, (m.drop (i + 2)).drop (value ((m.drop i).take 2)), ?_⟩
      have hb := bytes_value ((m.drop i).take 2)
      rw [htwo] at hb
      rw [counted_of_lt hf, hlen, hb, ← Option.some.inj h, List.append_assoc, List.take_append_drop, ← List.drop_drop,
        List.take_append_drop]
  · rw [counted_of_lt hlt, List.append_assoc] at hrest
    have htwo : (m.drop i).take 2 = bytes 2 f.length := by
      rw [← hrest, List.take_left' (length_bytes 2 _)]
    have hval : value ((m.drop i).take 2) = f.length := by
      rw [htwo, value_bytes, Nat.mod_eq_of_lt (by omega)]
    have hlen := congrArg List.length hrest
    simp only [List.length_append, length_bytes, List.length_drop] at hlen
    rw [countedAt, hval, if_pos (by omega), ← List.drop_drop, ← hrest, List.drop_left' (length_bytes 2 _),
      List.take_left' rfl]

end Xperimentum.Lib.BigEndian
