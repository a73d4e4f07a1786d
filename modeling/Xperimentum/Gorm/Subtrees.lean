import Xperimentum.Gorm.ClassForest

/-! The classes below a class, and the subtrees of its subclasses. -/

namespace Xperimentum.Gorm

open Lib.Hierarchies Relation ClassManager

variable {s t : ClassManager} {c d e : Name}

def AtOrBelow (s : ClassManager) (d c : Name) : Prop := ReflTransGen (Above s.superClassNameForClassNamed) d c

lemma atOrBelow_cases (h : AtOrBelow s d e) :
    d = e ∨ ∃ c ∈ s.subClassesOf (some e), AtOrBelow s d c := by
  rcases reflTransGen_iff_eq_or_transGen.mp h with rfl | hbelow
  · exact .inl rfl
  · obtain ⟨c, hdc, hce⟩ := TransGen.tail'_iff.mp hbelow
    exact .inr ⟨c, mem_subClassesOf.mpr hce, hdc⟩

lemma atOrBelow_of_subclass (hc : c ∈ s.subClassesOf (some e)) (h : AtOrBelow s d c) : AtOrBelow s d e :=
  h.tail (mem_subClassesOf.mp hc)

lemma chain_total (h : AtOrBelow s d c) (h' : AtOrBelow s d e) : AtOrBelow s c e ∨ AtOrBelow s e c := by
  refine ReflTransGen.total_of_right_unique (fun a b b' hb hb' => ?_) h h'
  rw [Above, show s.superClassNameForClassNamed a = some b from hb] at hb'
  exact Option.some.inj hb'

lemma not_atOrBelow_subclass (ha : Acyclic s.superClassNameForClassNamed) (hc : c ∈ s.subClassesOf (some e)) :
    ¬AtOrBelow s e c := fun h => ha e (TransGen.tail' h (mem_subClassesOf.mp hc))

lemma subtrees_apart (ha : Acyclic s.superClassNameForClassNamed) {c' : Name} (hc : c ∈ s.subClassesOf (some e))
    (hc' : c' ∈ s.subClassesOf (some e)) (hne : c ≠ c') (h : AtOrBelow s d c) : ¬AtOrBelow s d c' := by
  intro h'
  have hone {a b : Name} (ha' : a ∈ s.subClassesOf (some e)) (hb : b ∈ s.subClassesOf (some e)) (hne : a ≠ b) :
      ¬AtOrBelow s a b := by
    intro hab
    rcases reflTransGen_iff_eq_or_transGen.mp hab with heq | hbelow
    · exact hne heq.symm
    · obtain ⟨p, hp, hpb⟩ := TransGen.head'_iff.mp hbelow
      have hpe : p = e := by
        rw [Above, mem_subClassesOf.mp ha'] at hp
        exact (Option.some.inj hp).symm
      subst hpe
      exact not_atOrBelow_subclass ha hb hpb
  exact (chain_total h h').elim (hone hc hc' hne) (hone hc' hc hne.symm)

lemma nodup_subClassesOf (s : ClassManager) (superclass : Option Name) : (s.subClassesOf superclass).Nodup := by
  rw [ClassManager.subClassesOf, sortCaseInsensitive, (List.perm_insertionSort _ _).nodup_iff]
  exact s.classInformation.keys_nodup.filter _

lemma atOrBelow_congr (h : SameClasses s t) : AtOrBelow t d c ↔ AtOrBelow s d c := by
  rw [AtOrBelow, superClassName_congr h.hierarchy, AtOrBelow]

lemma subClassesOf_congr (h : SameClasses s t) (superclass : Option Name) :
    t.subClassesOf superclass = s.subClassesOf superclass := by
  rw [ClassManager.subClassesOf, ClassManager.subClassesOf, h.keys, superClassName_congr h.hierarchy]

end Xperimentum.Gorm
