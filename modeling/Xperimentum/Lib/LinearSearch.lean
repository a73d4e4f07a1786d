import Mathlib.Tactic
import Xperimentum.Lib.Partial

/-! A search that tries one place after the other, with a test that may fail to return. -/

namespace Xperimentum.Lib.LinearSearch

open Xperimentum.Lib.Partial

variable {test : ℕ → Option Bool} {P Q : ℕ → Prop} {i n lo hi : ℕ}

/-- At most `n` places, from `i` on. -/
def search (test : ℕ → Option Bool) : ℕ → ℕ → Option (Option ℕ)
  | 0, _ => some none
  | n + 1, i => do if ← test i then some (some i) else search test n (i + 1)

/-- The first of the places below `hi` that has the property, if any has it. -/
def First (P : ℕ → Prop) (lo hi : ℕ) : Option ℕ → Prop
  | some i => (lo ≤ i ∧ i < hi ∧ P i) ∧ ∀ j, lo ≤ j → j < i → ¬P j
  | none => ∀ j, lo ≤ j → j < hi → ¬P j

lemma First.unique {r r' : Option ℕ} (h : First P lo hi r) (h' : First P lo hi r') : r = r' := by
  cases r with
  | none =>
    cases r' with
    | none => rfl
    | some j => exact absurd h'.1.2.2 (h j h'.1.1 h'.1.2.1)
  | some i =>
    cases r' with
    | none => exact absurd h.1.2.2 (h' i h.1.1 h.1.2.1)
    | some j =>
      rcases Nat.lt_trichotomy i j with hlt | rfl | hgt
      · exact absurd h.1.2.2 (h'.2 i h.1.1 hlt)
      · rfl
      · exact absurd h'.1.2.2 (h.2 j h'.1.1 hgt)

lemma first_iff (hPQ : ∀ j, P j → Q j) {r : Option ℕ} (hr : First P lo hi r) :
    First Q lo hi r ↔ ∀ i, lo ≤ i → i < hi → Q i → ∃ j, lo ≤ j ∧ j ≤ i ∧ P j := by
  constructor
  · intro hq i hlo hhi hqi
    cases r with
    | none => exact absurd hqi (hq i hlo hhi)
    | some j =>
      by_cases hij : i < j
      · exact absurd hqi (hq.2 i hlo hij)
      · exact ⟨j, hr.1.1, not_lt.mp hij, hr.1.2.2⟩
  · intro h
    cases r with
    | none =>
      intro i hlo hhi hqi
      obtain ⟨j, hj, hji, hp⟩ := h i hlo hhi hqi
      exact hr j hj (hji.trans_lt hhi) hp
    | some i =>
      refine ⟨⟨hr.1.1, hr.1.2.1, hPQ i hr.1.2.2⟩, fun j hj hji hqj => ?_⟩
      obtain ⟨k, hk, hkj, hp⟩ := h j hj (hji.trans hr.1.2.1) hqj
      exact hr.2 k hk (hkj.trans_lt hji) hp

lemma First.shift (h0 : ¬P 0) (hPQ : ∀ i, P (i + 1) ↔ Q i) {r : Option ℕ} (hr : First Q 0 hi r) :
    First P 0 (hi + 1) (r.map (· + 1)) := by
  cases r with
  | none =>
    rintro (- | j) - hhi hp
    · exact h0 hp
    · exact hr j (Nat.zero_le j) (by omega) ((hPQ j).mp hp)
  | some i =>
    refine ⟨⟨Nat.zero_le _, Nat.succ_lt_succ hr.1.2.1, (hPQ i).mpr hr.1.2.2⟩, ?_⟩
    rintro (- | j) - hji hp
    · exact h0 hp
    · exact hr.2 j (Nat.zero_le j) (Nat.lt_of_succ_lt_succ hji) ((hPQ j).mp hp)

lemma search_first [DecidablePred P] (h : ∀ j, i ≤ j → j < i + n → test j = some (decide (P j))) :
    Ensures (search test n i) (First P i (i + n)) := by
  induction n generalizing i with
  | zero => exact ensures_some fun j hlo hhi => absurd hhi (by omega)
  | succ n ih =>
    rw [search, h i le_rfl (by omega), Option.bind_eq_bind, Option.bind_some]
    by_cases hp : P i
    · rw [if_pos (decide_eq_true hp)]
      exact ensures_some ⟨⟨le_rfl, by omega, hp⟩, fun j hlo hhi => absurd hhi (by omega)⟩
    · rw [if_neg (by simpa using hp)]
      have hend : i + 1 + n = i + (n + 1) := by omega
      have hrest := ih (i := i + 1) fun j hlo hhi => h j (by omega) (by omega)
      rw [hend] at hrest
      refine hrest.imp fun r hr => ?_
      have hskip : ∀ j, i ≤ j → j < i + 1 → ¬P j := by
        intro j hlo hhi
        obtain rfl : j = i := by omega
        exact hp
      cases r with
      | none =>
        intro j hlo hhi
        by_cases hj : j < i + 1
        · exact hskip j hlo hj
        · exact hr j (by omega) hhi
      | some k =>
        refine ⟨⟨by have := hr.1.1; omega, hr.1.2.1, hr.1.2.2⟩, fun j hlo hhi => ?_⟩
        by_cases hj : j < i + 1
        · exact hskip j hlo hj
        · exact hr.2 j (by omega) hhi

lemma search_stuck {m : ℕ} (hlo : i ≤ m) (hhi : m < i + n) (h : test m = none) : search test n i ≠ some none := by
  induction n generalizing i with
  | zero => omega
  | succ n ih =>
    rw [search]
    by_cases hm : i = m
    · subst hm
      rw [h]
      nofun
    · cases htest : test i with
      | none => nofun
      | some found =>
        rw [Option.bind_eq_bind, Option.bind_some]
        split_ifs
        · nofun
        · exact ih (by omega) (by omega)

end Xperimentum.Lib.LinearSearch
