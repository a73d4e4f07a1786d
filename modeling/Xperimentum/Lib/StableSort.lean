import Mathlib.Tactic

/-! Sorting functions that take a comparison, stable where the comparison is by a key. -/

namespace Xperimentum.Lib.StableSort

variable {α κ : Type} [DecidableEq α] [LinearOrder κ]

/-- `a` comes in front of `b` in a stably sorted list with the elements of `l`. -/
def Before (key : α → κ) (l : List α) (a b : α) : Prop :=
  key a < key b ∨ key a = key b ∧ l.idxOf a ≤ l.idxOf b

/-- Any comparison gives a permutation, and one by an integer key gives the stably sorted list. -/
structure Sorts (sort : (α → α → Ordering) → List α → List α) : Prop where
  perm : ∀ cmp l, (sort cmp l).Perm l
  stable : ∀ (key : α → ℤ) cmp l, l.Nodup → (∀ a ∈ l, ∀ b ∈ l, cmp a b = compare (key a) (key b)) →
    (sort cmp l).Pairwise (Before key l)

lemma eq_of_before {key : α → κ} {l l₁ l₂ : List α} (hperm : l₁.Perm l₂) (hl : ∀ a ∈ l₁, a ∈ l)
    (h₁ : l₁.Pairwise (Before key l)) (h₂ : l₂.Pairwise (Before key l)) : l₁ = l₂ := by
  refine hperm.eq_of_pairwise (fun a b ha _ hab hba => ?_) h₁ h₂
  rcases hab with hlt | ⟨heq, hle⟩
  · rcases hba with hlt' | ⟨heq', _⟩
    · exact (lt_asymm hlt hlt').elim
    · exact (hlt.ne' heq').elim
  · rcases hba with hlt' | ⟨_, hle'⟩
    · exact (hlt'.ne' heq).elim
    · exact (List.idxOf_inj (hl a ha)).mp (le_antisymm hle hle')

def insert (cmp : α → α → Ordering) (a : α) : List α → List α
  | [] => [a]
  | b :: l => if cmp a b = .gt then b :: insert cmp a l else a :: b :: l

def insertionSort (cmp : α → α → Ordering) (l : List α) : List α := l.foldr (insert cmp) []

omit [DecidableEq α] in
lemma perm_insert (cmp : α → α → Ordering) (a : α) (l : List α) : (insert cmp a l).Perm (a :: l) := by
  induction l with
  | nil => exact .refl _
  | cons b l ih =>
    rw [insert]
    split
    · exact (ih.cons b).trans (.swap a b l)
    · exact .refl _

omit [DecidableEq α] in
lemma perm_insertionSort (cmp : α → α → Ordering) (l : List α) : (insertionSort cmp l).Perm l := by
  induction l with
  | nil => exact .refl _
  | cons a l ih => exact (perm_insert cmp a _).trans (ih.cons a)

lemma before_cons {key : α → κ} {l : List α} {a b c : α} (ha : a ∉ l) (hb : b ∈ l) (hc : c ∈ l)
    (h : Before key l b c) : Before key (a :: l) b c := by
  rcases h with hlt | ⟨heq, hle⟩
  · exact Or.inl hlt
  · refine Or.inr ⟨heq, ?_⟩
    have hab : a ≠ b := fun h => ha (h ▸ hb)
    have hac : a ≠ c := fun h => ha (h ▸ hc)
    rw [List.idxOf_cons_ne l hab, List.idxOf_cons_ne l hac]
    exact Nat.succ_le_succ hle

lemma pairwise_insert {key : α → κ} {cmp : α → α → Ordering} {l r : List α} {a : α} (ha : a ∉ l)
    (hr : ∀ b ∈ r, b ∈ l) (hcmp : ∀ b ∈ l, cmp a b = compare (key a) (key b)) (h : r.Pairwise (Before key l)) :
    (insert cmp a r).Pairwise (Before key (a :: l)) := by
  induction r with
  | nil => exact List.pairwise_singleton _ _
  | cons b r ih =>
    obtain ⟨hb, hrest⟩ := List.pairwise_cons.mp h
    have hmem : b ∈ l := hr b List.mem_cons_self
    have hr' : ∀ c ∈ r, c ∈ l := fun c hc => hr c (List.mem_cons_of_mem b hc)
    have hb' : ∀ c ∈ r, Before key (a :: l) b c := fun c hc => before_cons ha hmem (hr' c hc) (hb c hc)
    rw [insert]
    split
    · next hgt =>
      rw [hcmp b hmem, compare_gt_iff_gt] at hgt
      refine List.pairwise_cons.mpr ⟨fun c hc => ?_, ih hr' hrest⟩
      rcases List.mem_cons.mp ((perm_insert cmp a r).subset hc) with rfl | hc
      · exact Or.inl hgt
      · exact hb' c hc
    · next hle =>
      rw [hcmp b hmem, compare_gt_iff_gt, not_lt] at hle
      have hab : ∀ c, key b ≤ key c → Before key (a :: l) a c := by
        intro c hc
        rcases (hle.trans hc).lt_or_eq with hlt | heq
        · exact Or.inl hlt
        · exact Or.inr ⟨heq, by rw [List.idxOf_cons_self]; exact Nat.zero_le _⟩
      refine List.pairwise_cons.mpr ⟨fun c hc => ?_, List.pairwise_cons.mpr ⟨hb', ?_⟩⟩
      · rcases List.mem_cons.mp hc with rfl | hc
        · exact hab c le_rfl
        · exact hab c ((hb c hc).elim le_of_lt fun h => h.1.le)
      · exact hrest.imp_of_mem fun hb hc => before_cons ha (hr' _ hb) (hr' _ hc)

lemma sorts_insertionSort : Sorts (insertionSort : (α → α → Ordering) → List α → List α) := by
  refine ⟨perm_insertionSort, fun key cmp l hnodup hcmp => ?_⟩
  induction l with
  | nil => exact .nil
  | cons a l ih =>
    obtain ⟨ha, hnodup⟩ := List.nodup_cons.mp hnodup
    refine pairwise_insert ha (fun b hb => (perm_insertionSort cmp l).subset hb) ?_ ?_
    · exact fun b hb => hcmp a List.mem_cons_self b (List.mem_cons_of_mem a hb)
    · exact ih hnodup fun b hb c hc => hcmp b (List.mem_cons_of_mem a hb) c (List.mem_cons_of_mem a hc)

/-- Nothing but the elements is known of what a comparison gives that is not by a key. -/
lemma exists_sorts {cmp : α → α → Ordering} {l r : List α} (hperm : r.Perm l)
    (h : ¬∃ key : α → ℤ, ∀ a ∈ l, ∀ b ∈ l, cmp a b = compare (key a) (key b)) :
    ∃ sort : (α → α → Ordering) → List α → List α, Sorts sort ∧ sort cmp l = r := by
  classical
  refine ⟨fun cmp' l' => if cmp' = cmp ∧ l' = l then r else insertionSort cmp' l', ⟨fun cmp' l' => ?_, ?_⟩, if_pos ⟨rfl, rfl⟩⟩
  · split_ifs with heq
    · rw [heq.2]
      exact hperm
    · exact perm_insertionSort cmp' l'
  · intro key cmp' l' hnodup hkey
    have hne : ¬(cmp' = cmp ∧ l' = l) := by
      rintro ⟨rfl, rfl⟩
      exact h ⟨key, hkey⟩
    rw [if_neg hne]
    exact sorts_insertionSort.stable key cmp' l' hnodup hkey

end Xperimentum.Lib.StableSort
