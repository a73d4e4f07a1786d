import Mathlib.Tactic

/-! Inserting blanks at the beginning of a range, and deleting there with blanks drawn in at the end. -/

namespace Xperimentum.Lib.BlankEdits

variable {α : Type*}

def insertBlanks (b : α) (lo hi k : ℤ) (f : ℤ → α) : ℤ → α := fun i =>
  if lo ≤ i ∧ i < hi then (if i < lo + k then b else f (i - k)) else f i

def deleteBlanks (b : α) (lo hi k : ℤ) (f : ℤ → α) : ℤ → α := fun i =>
  if lo ≤ i ∧ i < hi then (if hi ≤ i + k then b else f (i + k)) else f i

variable (b : α) {lo hi k m : ℤ} (f : ℤ → α)

lemma insert_zero : insertBlanks b lo hi 0 f = f := by
  funext i
  rw [insertBlanks]
  split_ifs
  · omega
  · rw [sub_zero]
  · rfl

lemma insert_insert (hk : 0 ≤ k) (hm : 0 ≤ m) :
    insertBlanks b lo hi k (insertBlanks b lo hi m f) = insertBlanks b lo hi (k + m) f := by
  funext i
  simp only [insertBlanks]
  by_cases hi' : lo ≤ i ∧ i < hi
  · simp only [if_pos hi']
    by_cases hfirst : i < lo + k
    · rw [if_pos hfirst, if_pos (by omega)]
    · rw [if_neg hfirst, if_pos (by omega)]
      by_cases hblank : i < lo + (k + m)
      · rw [if_pos hblank, if_pos (by omega)]
      · rw [if_neg hblank, if_neg (by omega), sub_sub]
  · simp only [if_neg hi']

lemma insert_iterate (n : ℕ) : (insertBlanks b lo hi 1)^[n] f = insertBlanks b lo hi n f := by
  induction n with
  | zero => exact (insert_zero b f).symm
  | succ n ih =>
    rw [Function.iterate_succ_apply', ih, insert_insert b f zero_le_one (Int.natCast_nonneg n), Nat.cast_succ, add_comm]

lemma insert_full (h : hi - lo ≤ k) (i : ℤ) : insertBlanks b lo hi k f i = if lo ≤ i ∧ i < hi then b else f i := by
  rw [insertBlanks]
  split_ifs <;> first | rfl | omega

lemma insert_eq_full (hk : 0 ≤ k) (hm : hi - lo ≤ m) :
    insertBlanks b lo hi k f = insertBlanks b lo hi m f ↔ ∀ i, lo ≤ i → i < hi - k → f i = b := by
  rw [funext_iff]
  simp only [insert_full b f hm]
  constructor
  · intro h i hlo hhi
    have hi' := h (i + k)
    rw [insertBlanks, if_pos (by omega), if_neg (by omega), if_pos (by omega), add_sub_cancel_right] at hi'
    exact hi'
  · intro h i
    rw [insertBlanks]
    split_ifs with hin hfirst
    · rfl
    · exact h (i - k) (by omega) (by omega)
    · rfl

lemma insert_empty (h : hi ≤ lo) : insertBlanks b lo hi k f = f := by
  funext i
  rw [insertBlanks, if_neg (by omega)]

/-- The range read from the other end. -/
def reflect (lo hi : ℤ) (f : ℤ → α) : ℤ → α := fun i => f (lo + hi - 1 - i)

lemma reflect_reflect : reflect lo hi (reflect lo hi f) = f := by
  funext i
  rw [reflect, reflect, sub_sub_cancel]

lemma reflect_injective (lo hi : ℤ) : Function.Injective (reflect (α := α) lo hi) := by
  intro f g h
  rw [← reflect_reflect f, h, reflect_reflect]

lemma reflect_delete : reflect lo hi (deleteBlanks b lo hi k f) = insertBlanks b lo hi k (reflect lo hi f) := by
  funext i
  have hin : (lo ≤ lo + hi - 1 - i ∧ lo + hi - 1 - i < hi) ↔ lo ≤ i ∧ i < hi := by omega
  have hblank : hi ≤ lo + hi - 1 - (i - k) ↔ i < lo + k := by omega
  have hsource : lo + hi - 1 - i + k = lo + hi - 1 - (i - k) := by omega
  simp only [reflect, deleteBlanks, insertBlanks, hin, hsource, hblank]

lemma delete_zero : deleteBlanks b lo hi 0 f = f := by
  apply reflect_injective lo hi
  rw [reflect_delete, insert_zero]

lemma delete_empty (h : hi ≤ lo) : deleteBlanks b lo hi k f = f := by
  apply reflect_injective lo hi
  rw [reflect_delete, insert_empty b _ h]

lemma delete_iterate (n : ℕ) : (deleteBlanks b lo hi 1)^[n] f = deleteBlanks b lo hi n f := by
  have hsemi : Function.Semiconj (reflect lo hi) (deleteBlanks b lo hi 1) (insertBlanks b lo hi 1) :=
    fun f => reflect_delete b f
  apply reflect_injective lo hi
  rw [hsemi.iterate_right n f, insert_iterate, reflect_delete]

lemma delete_eq_full (hk : 0 ≤ k) (hm : hi - lo ≤ m) :
    deleteBlanks b lo hi k f = deleteBlanks b lo hi m f ↔ ∀ i, lo + k ≤ i → i < hi → f i = b := by
  rw [← (reflect_injective lo hi).eq_iff, reflect_delete, reflect_delete, insert_eq_full b _ hk hm]
  constructor
  · intro h i hlo hhi
    have hi' := h (lo + hi - 1 - i) (by omega) (by omega)
    rw [reflect, sub_sub_cancel] at hi'
    exact hi'
  · intro h i hlo hhi
    exact h _ (by omega) (by omega)

end Xperimentum.Lib.BlankEdits
