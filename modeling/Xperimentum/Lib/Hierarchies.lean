import Mathlib.Tactic

/-! Hierarchies given by a parent for each node: cycles, and how far a node is from the ends of its chain. -/

namespace Xperimentum.Lib.Hierarchies

variable {α : Type*} {parent other : α → Option α}

def Above (parent : α → Option α) (a b : α) : Prop := parent a = some b

def Acyclic (parent : α → Option α) : Prop := ∀ a, ¬Relation.TransGen (Above parent) a a

/-- Finitely many nodes have a parent. -/
def Supported (parent : α → Option α) (nodes : List α) : Prop := ∀ a, parent a ≠ none → a ∈ nodes

lemma acyclic_of_rank (rank : α → ℕ) (h : ∀ a b, parent a = some b → rank b < rank a) : Acyclic parent := by
  have hlt : ∀ a b, Relation.TransGen (Above parent) a b → rank b < rank a := by
    intro a b hab
    induction hab with
    | single hab => exact h _ _ hab
    | tail _ hab ih => exact (h _ _ hab).trans ih
  exact fun a haa => lt_irrefl _ (hlt a a haa)

section Ranks

variable [DecidableEq α] {nodes : List α}

lemma mem_parents (h : Supported parent nodes) {a b : α} (hab : parent a = some b) :
    a ∈ nodes ∧ b ∈ nodes.filterMap parent := by
  have ha : a ∈ nodes := h a (by rw [hab]; exact Option.some_ne_none b)
  exact ⟨ha, List.mem_filterMap.mpr ⟨a, ha, hab⟩⟩

lemma below_subset (h : Supported parent nodes) (a : α) :
    {c | Relation.TransGen (Above parent) c a} ⊆ (nodes.toFinset : Set α) := by
  intro c hc
  obtain ⟨b, hcb, -⟩ := Relation.TransGen.head'_iff.mp hc
  rw [Finset.mem_coe, List.mem_toFinset]
  exact (mem_parents h hcb).1

lemma above_subset (h : Supported parent nodes) (a : α) :
    {c | Relation.TransGen (Above parent) a c} ⊆ ((nodes.filterMap parent).toFinset : Set α) := by
  intro c hc
  obtain ⟨b, -, hbc⟩ := Relation.TransGen.tail'_iff.mp hc
  rw [Finset.mem_coe, List.mem_toFinset]
  exact (mem_parents h hbc).2

lemma exists_rank (hs : Supported parent nodes) (h : Acyclic parent) :
    ∃ rank : α → ℕ, (∀ a b, parent a = some b → rank b < rank a) ∧ ∀ a, rank a ≤ nodes.length := by
  have hfinite (a : α) := (nodes.filterMap parent).toFinset.finite_toSet.subset (above_subset hs a)
  refine ⟨fun a => (hfinite a).toFinset.card, fun a b hab => Finset.card_lt_card ?_, fun a => ?_⟩
  · have hup : Above parent a b := hab
    rw [Set.Finite.toFinset_ssubset_toFinset]
    refine ⟨fun c hc => Relation.TransGen.head hup hc, fun hsub => h b (hsub ?_)⟩
    exact Relation.TransGen.single hup
  · have hle := Finset.card_le_card ((hfinite a).toFinset_subset.mpr (above_subset hs a))
    exact hle.trans ((List.toFinset_card_le _).trans (List.length_filterMap_le _ _))

lemma exists_height (hs : Supported parent nodes) (h : Acyclic parent) :
    ∃ height : α → ℕ, (∀ a b, parent a = some b → height a < height b) ∧ ∀ a, height a ≤ nodes.length := by
  have hfinite (a : α) := nodes.toFinset.finite_toSet.subset (below_subset hs a)
  refine ⟨fun a => (hfinite a).toFinset.card, fun a b hab => Finset.card_lt_card ?_, fun a => ?_⟩
  · have hup : Above parent a b := hab
    rw [Set.Finite.toFinset_ssubset_toFinset]
    refine ⟨fun c hc => Relation.TransGen.tail hc hup, fun hsub => h a (hsub ?_)⟩
    exact Relation.TransGen.single hup
  · have hle := Finset.card_le_card ((hfinite a).toFinset_subset.mpr (below_subset hs a))
    exact hle.trans (List.toFinset_card_le _)

end Ranks

/-! Changing a hierarchy. -/

section Changes

lemma acyclic_of_map {f : α → α} (h : Acyclic parent) (hmap : ∀ a b, other a = some b → parent (f a) = some (f b)) :
    Acyclic other :=
  fun a haa => h (f a) (Relation.TransGen.lift f hmap a a haa)

lemma path_cases {sub sup : α} (hchange : ∀ a b, other a = some b → parent a = some b ∨ a = sub ∧ b = sup) {a b : α}
    (h : Relation.TransGen (Above other) a b) :
    Relation.TransGen (Above parent) a b ∨
      Relation.ReflTransGen (Above parent) a sub ∧ Relation.ReflTransGen (Above parent) sup b ∨
      Relation.ReflTransGen (Above parent) sup sub := by
  induction h with
  | single hab =>
    rcases hchange _ _ hab with hab | ⟨rfl, rfl⟩
    · exact .inl (Relation.TransGen.single hab)
    · exact .inr (.inl ⟨.refl, .refl⟩)
  | tail hbc hcd ih =>
    rcases hchange _ _ hcd with hcd | ⟨rfl, rfl⟩
    · rcases ih with hac | ⟨hasub, hsupc⟩ | hcycle
      · exact .inl (hac.tail hcd)
      · exact .inr (.inl ⟨hasub, hsupc.tail hcd⟩)
      · exact .inr (.inr hcycle)
    · rcases ih with hac | ⟨-, hsupc⟩ | hcycle
      · exact .inr (.inl ⟨hac.to_reflTransGen, .refl⟩)
      · exact .inr (.inr hsupc)
      · exact .inr (.inr hcycle)

lemma acyclic_of_change (sub sup : α) (h : Acyclic parent)
    (hchange : ∀ a b, other a = some b → parent a = some b ∨ a = sub ∧ b = sup)
    (hnot : ¬Relation.ReflTransGen (Above parent) sup sub) : Acyclic other := by
  intro a haa
  rcases path_cases hchange haa with hold | ⟨hasub, hsupa⟩ | hcycle
  · exact h a hold
  · exact hnot (hsupa.trans hasub)
  · exact hnot hcycle

end Changes

end Xperimentum.Lib.Hierarchies
