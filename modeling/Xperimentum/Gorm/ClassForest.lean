import Xperimentum.Gorm.ClassHierarchy

/-! Runs of edits that keep the classes a forest. -/

namespace Xperimentum.Gorm

open Lib.Hierarchies Relation ClassManager

variable {s t : ClassManager} {depth : ℕ}

/-- No class is above itself, and every superclass named in an entry is an entry. -/
structure Forest (s : ClassManager) : Prop where
  acyclic : Acyclic s.superClassNameForClassNamed
  closed : ∀ c sup, s.superClassNameForClassNamed c = some sup → s.isKnownClass sup = true

lemma supported (s : ClassManager) : Supported s.superClassNameForClassNamed s.classInformation.keys := by
  intro c hc
  rw [mem_keys_iff, isKnownClass_eq]
  rw [superClassName_eq] at hc
  cases h : s.hierarchy c with
  | none => exact absurd (by rw [h]; rfl) hc
  | some sup => rfl

lemma known_of_super {c sup : Name} (h : s.superClassNameForClassNamed c = some sup) : s.isKnownClass c = true :=
  mem_keys_iff.mp (supported s c (by rw [h]; exact Option.some_ne_none sup))

/-! Queries reach an end. -/

section Queries

/-- One level more than any chain has, and one for the end. -/
def Deep (s : ClassManager) (depth : ℕ) : Prop := s.classInformation.keys.length + 2 ≤ depth

lemma linked_isSome (ha : Acyclic s.superClassNameForClassNamed) (hd : Deep s depth) (superclass : Name) (subclass : Option Name) :
    (s.isSuperclassLinkedToClass superclass depth subclass).isSome = true := by
  obtain ⟨rank, hrank, hle⟩ := exists_rank (supported s) ha
  have hall : ∀ depth subclass, 1 ≤ depth → (∀ c ∈ subclass, rank c + 2 ≤ depth) →
      (s.isSuperclassLinkedToClass superclass depth subclass).isSome = true := by
    intro depth
    induction depth with
    | zero =>
      intro subclass h
      omega
    | succ depth ih =>
      intro subclass _ h
      cases subclass with
      | none => rfl
      | some c =>
        have hc := h c rfl
        rw [isSuperclassLinkedToClass]
        split
        · rfl
        refine ih _ (by omega) fun sup hsup => ?_
        have hlt := hrank c sup hsup
        omega
  refine hall depth subclass ?_ fun c _ => ?_
  · rw [Deep] at hd
    omega
  · have hc := hle c
    rw [Deep] at hd
    omega

lemma linked_iff {superclass : Name} {subclass : Option Name} {linked : Bool}
    (h : s.isSuperclassLinkedToClass superclass depth subclass = some linked) :
    linked = true ↔ ∃ c ∈ subclass, TransGen (Above s.superClassNameForClassNamed) c superclass := by
  induction depth generalizing subclass with
  | zero => cases h
  | succ depth ih =>
    cases subclass with
    | none =>
      cases h
      simp
    | some c =>
      rw [isSuperclassLinkedToClass] at h
      split at h
      · next hsuper =>
        cases h
        exact ⟨fun _ => ⟨c, rfl, TransGen.single hsuper⟩, fun _ => rfl⟩
      · next hsuper =>
        rw [ih h]
        constructor
        · rintro ⟨sup, hsup, hpath⟩
          exact ⟨c, rfl, TransGen.head hsup hpath⟩
        · rintro ⟨d, hd, hpath⟩
          obtain rfl := Option.some.inj hd
          obtain ⟨sup, hsup, hrest⟩ := TransGen.head'_iff.mp hpath
          rcases reflTransGen_iff_eq_or_transGen.mp hrest with rfl | hrest
          · exact absurd hsup hsuper
          · exact ⟨sup, hsup, hrest⟩

lemma allSuperClasses_isSome (ha : Acyclic s.superClassNameForClassNamed) (hd : Deep s depth) (className : Name) :
    (s.allSuperClassesOf depth className).isSome = true := by
  obtain ⟨rank, hrank, hle⟩ := exists_rank (supported s) ha
  have hall : ∀ depth className, rank className + 1 ≤ depth → (s.allSuperClassesOf depth className).isSome = true := by
    intro depth
    induction depth with
    | zero =>
      intro className h
      omega
    | succ depth ih =>
      intro className h
      rw [allSuperClassesOf]
      split
      · rfl
      · next sup hsup =>
        have hlt := hrank className sup hsup
        rw [Option.isSome_map]
        exact ih sup (by omega)
  refine hall depth className ?_
  have hc := hle className
  rw [Deep] at hd
  omega

lemma mapM_isSome {α β : Type*} {f : α → Option β} {l : List α} (h : ∀ a ∈ l, (f a).isSome = true) :
    (l.mapM f).isSome = true := by
  induction l with
  | nil => rfl
  | cons a l ih =>
    obtain ⟨b, hb⟩ := Option.isSome_iff_exists.mp (h a List.mem_cons_self)
    obtain ⟨bs, hbs⟩ := Option.isSome_iff_exists.mp (ih fun c hc => h c (List.mem_cons_of_mem a hc))
    rw [List.mapM_cons, hb, hbs]
    rfl

lemma allSubclassesInto_isSome (ha : Acyclic s.superClassNameForClassNamed) (hd : Deep s depth) (classList : List Name)
    (superclass : Option Name) : (s.allSubclassesInto classList depth superclass).isSome = true := by
  obtain ⟨height, hheight, hle⟩ := exists_height (supported s) ha
  have hall : ∀ depth c, height c + 1 ≤ depth →
      (s.allSubclassesInto classList depth (some c)).isSome = true := by
    intro depth
    induction depth with
    | zero =>
      intro c h
      omega
    | succ depth ih =>
      intro c h
      rw [allSubclassesInto, Option.isSome_map]
      refine mapM_isSome fun object _ => ?_
      split
      · next hsuper =>
        have hlt := hheight object c hsuper
        rw [Option.isSome_map]
        exact ih object (by omega)
      · rfl
  rw [Deep] at hd
  obtain ⟨depth, rfl⟩ : ∃ n, depth = n + 1 := ⟨depth - 1, by omega⟩
  rw [allSubclassesInto, Option.isSome_map]
  refine mapM_isSome fun object _ => ?_
  split
  · rw [Option.isSome_map]
    have hc := hle object
    exact hall depth object (by omega)
  · rfl

lemma allSubclasses_isSome (ha : Acyclic s.superClassNameForClassNamed) (hd : Deep s depth) (superClass : Option Name) :
    (s.allSubclassesOf depth superClass).isSome = true := by
  rw [allSubclassesOf, Option.isSome_map]
  exact allSubclassesInto_isSome ha hd _ superClass

lemma allMembers_isSome (ha : Acyclic s.superClassNameForClassNamed) (hd : Deep s depth) (kind : MemberKind) (className : Name) :
    (allMembersForClassNamed kind depth s className).isSome = true := by
  obtain ⟨rank, hrank, hle⟩ := exists_rank (supported s) ha
  have hall : ∀ depth className, rank className + 1 ≤ depth →
      (allMembersForClassNamed kind depth s className).isSome = true := by
    intro depth
    induction depth with
    | zero =>
      intro className h
      omega
    | succ depth ih =>
      intro className h
      rw [allMembersForClassNamed]
      split
      · rfl
      · next info hinfo =>
        split
        · rfl
        rw [Option.isSome_map]
        split
        · rfl
        · next sup hsup =>
          split
          · rfl
          have hsuper : s.superClassNameForClassNamed className = some sup := by
            rw [superClassNameForClassNamed, hinfo]
            exact hsup
          have hlt := hrank className sup hsuper
          exact ih sup (by omega)
  refine hall depth className ?_
  have hc := hle className
  rw [Deep] at hd
  omega

/-- The queries that follow superclasses and subclasses reach an end for every class. -/
structure QueriesTerminate (s : ClassManager) : Prop where
  linked : ∀ superclass subclass, ∃ depth, (s.isSuperclassLinkedToClass superclass depth subclass).isSome = true
  superclasses : ∀ className, ∃ depth, (s.allSuperClassesOf depth className).isSome = true
  subclasses : ∀ superClass, ∃ depth, (s.allSubclassesOf depth superClass).isSome = true
  actions : ∀ className, ∃ depth, (allActionsForClassNamed depth s className).isSome = true

lemma Forest.queriesTerminate (hs : Forest s) : QueriesTerminate s where
  linked superclass subclass := ⟨_, linked_isSome hs.acyclic (le_refl _) superclass subclass⟩
  superclasses className := ⟨_, allSuperClasses_isSome hs.acyclic (le_refl _) className⟩
  subclasses superClass := ⟨_, allSubclasses_isSome hs.acyclic (le_refl _) superClass⟩
  actions className := ⟨_, allMembers_isSome hs.acyclic (le_refl _) .action className⟩

end Queries

/-! Edits. -/

inductive Edit where
  | addClass (className : Name) (superClassName : Option Name) (actions outlets : List Name) (isCustom : Bool)
  | setSuperClass (superclass subclass : Name)
  | rename (oldName newName : Name)
  | remove (className : Name)
  | load (dict : AList fun _ : Name => ClassEntry)

def edit (depth : ℕ) (s : ClassManager) : Edit → Option ClassManager
  | .addClass className superClassName actions outlets isCustom =>
    (addClassNamed depth s className superClassName actions outlets isCustom).map Prod.fst
  | .setSuperClass superclass subclass => (setSuperClassNamed depth s superclass subclass).map Prod.fst
  | .rename oldName newName => (renameClassNamed depth s oldName newName).map Prod.fst
  | .remove className => some (removeClassNamed s className)
  | .load dict => some (loadCustomClassesWithDict s dict)

/-- The edit comes to an end in the second state. -/
def Edits (s : ClassManager) (e : Edit) (t : ClassManager) : Prop := ∃ depth, edit depth s e = some t

/-- Every edit comes to an end, every state on the way is a forest, and the queries come to an end in it. -/
def StaysForest : ClassManager → List Edit → Prop
  | s, [] => Forest s ∧ QueriesTerminate s
  | s, e :: edits => (Forest s ∧ QueriesTerminate s) ∧ (∃ t, Edits s e t) ∧ ∀ t, Edits s e t → StaysForest t edits

/-- A class of a file that is new to the table. -/
def NewClass (s : ClassManager) (dict : AList fun _ : Name => ClassEntry) (key : Name) (classDict : ClassInfo) : Prop :=
  s.isKnownClass key = false ∧ dict.lookup key = some (.dictionary classDict)

/-- What an edit needs so that the classes stay a forest. -/
def Allowed (s : ClassManager) : Edit → Prop
  | .addClass className superClassName _ _ _ =>
    s.isKnownClass className = true ∨ ∀ superName ∈ superClassName, s.isKnownClass superName = true
  | .setSuperClass superclass subclass =>
    s.isKnownClass subclass = true → s.isKnownClass superclass = true ∧ superclass ≠ subclass
  | .rename oldName newName =>
    s.isKnownClass oldName = true → s.isKnownClass newName = false →
      s.isCustomClass oldName = true ∨ s.subClassesOf (some oldName) = []
  | .remove className => s.subClassesOf (some className) = []
  | .load dict =>
    ∃ level : Name → ℕ, ∀ key classDict, NewClass s dict key classDict →
      ∀ superName ∈ classDict.superName, s.isKnownClass superName = true ∨
        (∃ superDict, NewClass s dict superName superDict) ∧ level superName < level key

def AllAllowed : ClassManager → List Edit → Prop
  | _, [] => True
  | s, e :: edits => Allowed s e ∧ ∀ t, Edits s e t → AllAllowed t edits

section Steps

lemma superClassName_congr (h : t.hierarchy = s.hierarchy) :
    t.superClassNameForClassNamed = s.superClassNameForClassNamed := by
  funext c
  rw [superClassName_eq, superClassName_eq, h]

lemma forest_of_eq (hs : Forest s) (h : t.hierarchy = s.hierarchy) : Forest t := by
  have hsuper := superClassName_congr h
  refine ⟨hsuper ▸ hs.acyclic, fun c sup hc => ?_⟩
  rw [isKnownClass_eq, h, ← isKnownClass_eq]
  rw [hsuper] at hc
  exact hs.closed c sup hc

lemma Forest.of_sameClasses (hs : Forest s) (h : SameClasses s t) : Forest t := forest_of_eq hs h.hierarchy

lemma Deep.of_sameClasses (hd : Deep s depth) (h : SameClasses s t) : Deep t depth := by
  rw [Deep, h.keys]
  exact hd

variable {c : Name} {sup : Option Name}

lemma superClassName_update (h : t.hierarchy = Function.update s.hierarchy c (some sup)) (d : Name) :
    t.superClassNameForClassNamed d = if d = c then sup else s.superClassNameForClassNamed d := by
  rw [superClassName_eq, h]
  split
  · next hd => rw [hd, Function.update_self, Option.join_some]
  · next hd => rw [Function.update_of_ne hd, superClassName_eq]

lemma isKnownClass_update (h : t.hierarchy = Function.update s.hierarchy c (some sup)) (d : Name) :
    t.isKnownClass d = true ↔ d = c ∨ s.isKnownClass d = true := by
  rw [isKnownClass_eq, h]
  by_cases hd : d = c
  · simp [hd]
  · rw [Function.update_of_ne hd, ← isKnownClass_eq]
    simp [hd]

lemma forest_update (hs : Forest s) (h : t.hierarchy = Function.update s.hierarchy c (some sup))
    (hknown : ∀ p ∈ sup, s.isKnownClass p = true)
    (hnot : ∀ p ∈ sup, ¬ReflTransGen (Above s.superClassNameForClassNamed) p c) : Forest t := by
  constructor
  · cases sup with
    | none =>
      refine acyclic_of_map (f := id) hs.acyclic fun a b hab => ?_
      rw [superClassName_update h] at hab
      split at hab
      · cases hab
      · exact hab
    | some p =>
      refine acyclic_of_change c p hs.acyclic (fun a b hab => ?_) (hnot p rfl)
      rw [superClassName_update h] at hab
      split at hab
      · next ha => exact .inr ⟨ha, (Option.some.inj hab).symm⟩
      · exact .inl hab
  · intro d p hd
    rw [isKnownClass_update h]
    rw [superClassName_update h] at hd
    split at hd
    · exact .inr (hknown p hd)
    · exact .inr (hs.closed d p hd)

lemma known_of_forest_update {p : Name} (ht : Forest t) (h : t.hierarchy = Function.update s.hierarchy c (some (some p))) :
    s.isKnownClass p = true ∧ p ≠ c := by
  have hc : t.superClassNameForClassNamed c = some p := by rw [superClassName_update h, if_pos rfl]
  have hne : p ≠ c := by
    rintro rfl
    exact ht.acyclic p (TransGen.single hc)
  exact ⟨((isKnownClass_update h p).mp (ht.closed c p hc)).resolve_left hne, hne⟩

lemma not_above_unknown (hs : Forest s) {p : Name} (hp : s.isKnownClass p = true) (hc : s.isKnownClass c = false) :
    ¬ReflTransGen (Above s.superClassNameForClassNamed) p c := by
  intro hpath
  rcases reflTransGen_iff_eq_or_transGen.mp hpath with rfl | hpath
  · rw [hp] at hc
    cases hc
  · obtain ⟨d, -, hd⟩ := TransGen.tail'_iff.mp hpath
    rw [hs.closed d c hd] at hc
    cases hc

/-! A new class. -/

lemma addMember_isSome {kind : MemberKind} {mirror : ClassManager → Option ClassManager} (hs : Forest s)
    (hd : Deep s depth) (hmirror : ∀ t, SameClasses s t → (mirror t).isSome = true) (member className : Name) :
    (addMember kind mirror depth s member className).isSome = true := by
  obtain ⟨subClasses, hsub⟩ := Option.isSome_iff_exists.mp (allSubclasses_isSome hs.acyclic hd (some className))
  rw [addMember, hsub, Option.bind_some]
  dsimp only
  split
  · rfl
  rw [Option.isSome_map]
  refine hmirror _ (SameClasses.trans ?_ (sameClasses_modify fun info => superName_setMembers info kind _))
  split
  · exact ⟨rfl, rfl⟩
  · exact SameClasses.refl s

lemma addAction_isSome (hs : Forest s) (hd : Deep s depth) (action className : Name) :
    (addAction depth s action className).isSome = true := by
  refine addMember_isSome hs hd (fun t ht => ?_) action className
  split
  · rfl
  · exact addMember_isSome (hs.of_sameClasses ht) (hd.of_sameClasses ht) (fun _ _ => rfl) action firstResponder

lemma addActions_isSome (hs : Forest s) (hd : Deep s depth) (actions : List Name) (className : Name) :
    (actions.foldlM (fun s action => addAction depth s action className) s).isSome = true := by
  induction actions generalizing s with
  | nil => rfl
  | cons action actions ih =>
    obtain ⟨t, ht⟩ := Option.isSome_iff_exists.mp (addAction_isSome hs hd action className)
    rw [List.foldlM_cons, ht]
    exact ih (hs.of_sameClasses (sameClasses_addAction ht)) (hd.of_sameClasses (sameClasses_addAction ht))

lemma allMembersForSuper_isSome (hs : Forest s) (hd : Deep s depth) (kind : MemberKind)
    (superClassName : Option Name) : (allMembersForSuperClass kind depth s superClassName).isSome = true := by
  cases superClassName with
  | none => rfl
  | some superName => exact allMembers_isSome hs.acyclic hd kind superName

lemma addClass_isSome (hs : Forest s) (hd : s.classInformation.keys.length + 3 ≤ depth) {className : Name}
    {superClassName : Option Name}
    (hallowed : s.isKnownClass className = true ∨ ∀ p ∈ superClassName, s.isKnownClass p = true)
    (actions outlets : List Name) (isCustom : Bool) :
    (addClassNamed depth s className superClassName actions outlets isCustom).isSome = true := by
  have hdeep : Deep s depth := by
    rw [Deep]
    omega
  rw [addClassNamed]
  dsimp only
  split
  · split
    · rfl
    · next hnew =>
      have hknown := hallowed.resolve_left hnew
      obtain ⟨⟨u, superActions⟩, hu⟩ := Option.isSome_iff_exists.mp
        (allMembersForSuper_isSome hs hdeep .action superClassName)
      have hsame := sameClasses_allMembersForSuper hu
      rw [hu, Option.bind_some]
      obtain ⟨⟨v, superOutlets⟩, hv⟩ := Option.isSome_iff_exists.mp
        (allMembersForSuper_isSome (hs.of_sameClasses hsame) (hdeep.of_sameClasses hsame) .outlet superClassName)
      have hsame := hsame.trans (sameClasses_allMembersForSuper hv)
      dsimp only
      rw [hv, Option.bind_some, Option.isSome_map]
      refine addActions_isSome (forest_update (hs.of_sameClasses hsame) (hierarchy_insert className rfl) ?_ ?_) ?_ _ _
      · intro p hp
        rw [isKnownClass_eq, hsame.hierarchy, ← isKnownClass_eq]
        exact hknown p hp
      · intro p hp
        refine not_above_unknown (hs.of_sameClasses hsame) ?_ ?_
        · rw [isKnownClass_eq, hsame.hierarchy, ← isKnownClass_eq]
          exact hknown p hp
        · rw [isKnownClass_eq, hsame.hierarchy, ← isKnownClass_eq]
          exact Bool.not_eq_true _ ▸ hnew
      · rw [Deep, AList.keys_insert, hsame.keys, List.length_cons]
        have hle := (@List.erase_sublist Name instBEqOfDecidableEq className s.classInformation.keys).length_le
        exact (Nat.add_le_add_right (Nat.succ_le_succ hle) 2).trans hd
  · rfl

/-! A new superclass. -/

lemma setSuper_isSome {superclass subclass : Name} (hd : Deep s depth)
    (ha : Acyclic s.superClassNameForClassNamed) (hallowed : s.isKnownClass subclass = true → superclass ≠ subclass) :
    (setSuperClassNamed depth s superclass subclass).isSome = true := by
  rw [setSuperClassNamed]
  split
  · next hguard =>
    have hne := hallowed hguard.1
    obtain ⟨linked, hlinked⟩ := Option.isSome_iff_exists.mp (linked_isSome ha hd subclass (some superclass))
    rw [hlinked, Option.bind_some]
    cases linked with
    | true => rfl
    | false =>
      rw [if_neg Bool.false_ne_true]
      have hhierarchy := hierarchy_modify_super (fun info => info.inherit superclass) (fun info => rfl) hguard.1
      have hdeep : Deep (s.modify subclass fun info => info.inherit superclass) depth := by
        rw [Deep, keys_modify]
        exact hd
      have hacyclic : Acyclic (s.modify subclass fun info => info.inherit superclass).superClassNameForClassNamed := by
        refine acyclic_of_change subclass superclass ha (fun a b hab => ?_) fun hpath => ?_
        · rw [superClassName_update hhierarchy] at hab
          split at hab
          · next hsub => exact .inr ⟨hsub, (Option.some.inj hab).symm⟩
          · exact .inl hab
        · rcases reflTransGen_iff_eq_or_transGen.mp hpath with rfl | hpath
          · exact hne rfl
          · exact absurd ((linked_iff hlinked).mpr ⟨superclass, rfl, hpath⟩) Bool.false_ne_true
      obtain ⟨⟨u, actions⟩, hu⟩ := Option.isSome_iff_exists.mp (allMembers_isSome hacyclic hdeep .action subclass)
      have hsame := sameClasses_allMembers hu
      dsimp only
      rw [allActionsForClassNamed, hu, Option.bind_some, allOutletsForClassNamed, Option.isSome_map]
      refine allMembers_isSome ?_ (hdeep.of_sameClasses hsame) .outlet subclass
      rw [superClassName_congr hsame.hierarchy]
      exact hacyclic
  · rfl

lemma keys_setSuper {superclass subclass : Name} {result : Bool}
    (h : setSuperClassNamed depth s superclass subclass = some (t, result)) :
    t.classInformation.keys = s.classInformation.keys := by
  rw [setSuperClassNamed] at h
  split at h
  · obtain ⟨linked, -, h⟩ := Option.bind_eq_some_iff.mp h
    cases linked with
    | true =>
      cases h
      rfl
    | false =>
      obtain ⟨⟨u, actions⟩, hu, h⟩ := Option.bind_eq_some_iff.mp h
      obtain ⟨⟨v, outlets⟩, hv, heq⟩ := Option.map_eq_some_iff.mp h
      cases heq
      rw [((sameClasses_allMembers hu).trans (sameClasses_allMembers hv)).keys, keys_modify]
  · cases h
    rfl

lemma forest_setSuper (hs : Forest s) {superclass subclass : Name} {result : Bool}
    (h : setSuperClassNamed depth s superclass subclass = some (t, result)) :
    Forest t ↔ (s.isKnownClass subclass = true → s.isKnownClass superclass = true ∧ superclass ≠ subclass) := by
  rcases hierarchy_setSuper h with ⟨⟨hsub, -, hlinked⟩, hupdate⟩ | ⟨hnot, hsame⟩
  · refine ⟨fun ht _ => known_of_forest_update ht hupdate, fun hallowed => ?_⟩
    obtain ⟨hsuper, hne⟩ := hallowed hsub
    refine forest_update hs hupdate (fun p hp => ?_) fun p hp hpath => ?_
    · obtain rfl := Option.some.inj hp
      exact hsuper
    · obtain rfl := Option.some.inj hp
      rcases reflTransGen_iff_eq_or_transGen.mp hpath with rfl | hpath
      · exact hne rfl
      · exact absurd ((linked_iff hlinked).mpr ⟨superclass, rfl, hpath⟩) Bool.false_ne_true
  · refine ⟨fun _ hsub => ?_, fun _ => forest_of_eq hs hsame⟩
    rcases hnot with hunknown | ⟨hunknown, hroot⟩ | hlinked
    · rw [hsub] at hunknown
      cases hunknown
    · -- A class with a superclass of its own is an entry.
      rw [isRootClass, Option.bind_some, Option.isNone_eq_false_iff, Option.isSome_iff_exists] at hroot
      obtain ⟨p, hp⟩ := hroot
      rw [known_of_super hp] at hunknown
      cases hunknown
    · obtain ⟨c, hc, hpath⟩ := (linked_iff hlinked).mp rfl
      obtain rfl := Option.some.inj hc
      obtain ⟨p, hp, -⟩ := TransGen.head'_iff.mp hpath
      refine ⟨known_of_super hp, ?_⟩
      rintro rfl
      exact hs.acyclic superclass hpath

lemma forest_addClass (hs : Forest s) {className : Name} {superClassName : Option Name} {actions outlets : List Name}
    {isCustom result : Bool}
    (h : addClassNamed depth s className superClassName actions outlets isCustom = some (t, result)) :
    Forest t ↔ s.isKnownClass className = true ∨ ∀ superName ∈ superClassName, s.isKnownClass superName = true := by
  rcases hierarchy_addClass h with ⟨⟨-, hnew⟩, hupdate⟩ | ⟨hnot, hsame⟩
  · constructor
    · rintro ht
      refine .inr fun p hp => ?_
      obtain rfl : superClassName = some p := hp
      exact (known_of_forest_update ht hupdate).1
    · rintro (hknown | hsuper)
      · rw [hknown] at hnew
        cases hnew
      · exact forest_update hs hupdate hsuper fun p hp => not_above_unknown hs (hsuper p hp) hnew
  · refine ⟨fun _ => ?_, fun _ => forest_of_eq hs hsame⟩
    by_contra hcontra
    rw [not_or] at hcontra
    obtain ⟨hnew, hsuper⟩ := hcontra
    rw [Bool.not_eq_true] at hnew
    refine hnot ⟨?_, hnew⟩
    cases superClassName with
    | none => exact .inl rfl
    | some p =>
      refine mayBeSuper_of_unknown ?_
      by_contra hp
      refine hsuper fun q hq => ?_
      obtain rfl := Option.some.inj hq
      exact Bool.not_eq_false _ ▸ hp

/-! Removal. -/

lemma mem_subClassesOf {superclass c : Name} :
    c ∈ s.subClassesOf (some superclass) ↔ s.superClassNameForClassNamed c = some superclass := by
  rw [subClassesOf, sortCaseInsensitive, (List.perm_insertionSort _ _).mem_iff, List.mem_filter, decide_eq_true_eq]
  exact ⟨And.right, fun h => ⟨mem_keys_iff.mpr (known_of_super h), h⟩⟩

lemma forest_remove (hs : Forest s) (className : Name) :
    Forest (removeClassNamed s className) ↔ s.subClassesOf (some className) = [] := by
  have hremove := hierarchy_remove s className
  have hsuper (c : Name) : (removeClassNamed s className).superClassNameForClassNamed c =
      if c = className then none else s.superClassNameForClassNamed c := by
    rw [superClassName_eq, hremove]
    split
    · next hc => rw [hc, Function.update_self, Option.join_none]
    · next hc => rw [Function.update_of_ne hc, superClassName_eq]
  have hknown (c : Name) : (removeClassNamed s className).isKnownClass c = true ↔
      c ≠ className ∧ s.isKnownClass c = true := by
    rw [isKnownClass_eq, hremove]
    by_cases hc : c = className
    · simp [hc]
    · rw [Function.update_of_ne hc, ← isKnownClass_eq]
      simp [hc]
  rw [List.eq_nil_iff_forall_not_mem]
  constructor
  · intro ht c hc
    rw [mem_subClassesOf] at hc
    have hne : c ≠ className := by
      rintro rfl
      exact hs.acyclic c (TransGen.single hc)
    have hclosed := ht.closed c className (by rw [hsuper, if_neg hne, hc])
    exact ((hknown className).mp hclosed).1 rfl
  · intro hnone
    refine ⟨acyclic_of_map (f := id) hs.acyclic fun a b hab => ?_, fun c p hc => ?_⟩
    · rw [hsuper] at hab
      split at hab
      · cases hab
      · exact hab
    · rw [hsuper] at hc
      split at hc
      · cases hc
      refine (hknown p).mpr ⟨?_, hs.closed c p hc⟩
      rintro rfl
      exact hnone c (mem_subClassesOf.mpr hc)

/-! Renaming. -/

/-- The table under the new name; `left` are the subclasses that still have the old one. -/
structure Renaming (s t : ClassManager) (oldName newName : Name) (left : List Name) : Prop where
  known : ∀ c, t.isKnownClass c = true ↔ c = newName ∨ c ≠ oldName ∧ s.isKnownClass c = true
  super : ∀ c p, t.superClassNameForClassNamed c = some p →
    s.superClassNameForClassNamed (if c = newName then oldName else c) = some (if p = newName then oldName else p)
  left : ∀ c, t.superClassNameForClassNamed c = some oldName → c ∈ left

variable {oldName newName : Name}

lemma ne_of_super (ha : Acyclic s.superClassNameForClassNamed) {a b : Name}
    (h : s.superClassNameForClassNamed a = some b) : a ≠ b := by
  rintro rfl
  exact ha a (TransGen.single h)

/-- No class has a name that is free as its superclass. -/
def Unnamed (s : ClassManager) (newName : Name) : Prop := ∀ c, s.superClassNameForClassNamed c ≠ some newName

lemma Forest.unnamed (hs : Forest s) (hnew : s.isKnownClass newName = false) : Unnamed s newName := by
  intro c hc
  rw [hs.closed c newName hc] at hnew
  cases hnew

lemma Unnamed.ne (h : Unnamed s newName) {c p : Name} (hc : s.superClassNameForClassNamed c = some p) :
    p ≠ newName := by
  rintro rfl
  exact h c hc

lemma ne_of_known {a b : Name} (ha : s.isKnownClass a = true) (hb : s.isKnownClass b = false) : a ≠ b := by
  rintro rfl
  rw [ha] at hb
  cases hb

lemma superClassName_rename {info : ClassInfo} (hold : s.classInfo oldName = some info)
    (h : t.classInformation = (s.classInformation.erase oldName).insert newName info) (c : Name) :
    t.superClassNameForClassNamed c =
      if c = newName then s.superClassNameForClassNamed oldName
      else if c = oldName then none else s.superClassNameForClassNamed c := by
  have hinsert := @hierarchy_insert { s with classInformation := s.classInformation.erase oldName } t newName _ h
  rw [superClassName_update hinsert]
  split
  · rw [superClassNameForClassNamed, hold]
    rfl
  · have herase := @hierarchy_erase s { s with classInformation := s.classInformation.erase oldName } oldName rfl
    rw [superClassName_eq, herase]
    split
    · next hc => rw [hc, Function.update_self, Option.join_none]
    · next hc => rw [Function.update_of_ne hc, superClassName_eq]

lemma isKnownClass_rename {info : ClassInfo}
    (h : t.classInformation = (s.classInformation.erase oldName).insert newName info) (c : Name) :
    t.isKnownClass c = true ↔ c = newName ∨ c ≠ oldName ∧ s.isKnownClass c = true := by
  rw [isKnownClass, classInfo, h, AList.lookup_isSome, AList.mem_insert, AList.mem_erase, ← AList.lookup_isSome]
  rfl

lemma renaming_start (ha : Acyclic s.superClassNameForClassNamed) (hfree : Unnamed s newName)
    {info : ClassInfo} (hold : s.classInfo oldName = some info)
    (h : t.classInformation = (s.classInformation.erase oldName).insert newName info) :
    Renaming s t oldName newName (s.subClassesOf (some oldName)) := by
  refine ⟨isKnownClass_rename h, fun c p hc => ?_, fun c hc => ?_⟩
  · rw [superClassName_rename hold h] at hc
    split at hc
    · next hcnew =>
      rw [if_pos hcnew, if_neg (hfree.ne hc)]
      exact hc
    · next hcnew =>
      split at hc
      · cases hc
      · rw [if_neg hcnew, if_neg (hfree.ne hc)]
        exact hc
  · rw [mem_subClassesOf]
    rw [superClassName_rename hold h] at hc
    split at hc
    · exact absurd rfl (ne_of_super ha hc)
    · split at hc
      · cases hc
      · exact hc

lemma Renaming.acyclic {left : List Name} (ha : Acyclic s.superClassNameForClassNamed)
    (h : Renaming s t oldName newName left) : Acyclic t.superClassNameForClassNamed :=
  acyclic_of_map (f := fun c => if c = newName then oldName else c) ha h.super

lemma Renaming.forest (hs : Forest s) (h : Renaming s t oldName newName []) : Forest t := by
  refine ⟨h.acyclic hs.acyclic, fun c p hc => (h.known p).mpr ?_⟩
  by_cases hp : p = newName
  · exact .inl hp
  · have hsuper := h.super c p hc
    rw [if_neg hp] at hsuper
    refine .inr ⟨?_, hs.closed _ p hsuper⟩
    rintro rfl
    exact absurd (h.left c hc) List.not_mem_nil

lemma Renaming.update {left : List Name} {sc : Name} {u : ClassManager} (ha : Acyclic s.superClassNameForClassNamed)
    (hfree : Unnamed s newName) (hsc : s.superClassNameForClassNamed sc = some oldName)
    (h : Renaming s t oldName newName (sc :: left))
    (hupdate : u.hierarchy = Function.update t.hierarchy sc (some (some newName)))
    (hscnew : sc ≠ newName) : Renaming s u oldName newName left := by
  have hscold := ne_of_super ha hsc
  refine ⟨fun c => ?_, fun c p hc => ?_, fun c hc => ?_⟩
  · rw [isKnownClass_update hupdate, h.known]
    refine ⟨fun hc => hc.elim ?_ id, .inr⟩
    rintro rfl
    exact .inr ⟨hscold, known_of_super hsc⟩
  · rw [superClassName_update hupdate] at hc
    split at hc
    · next hcsc =>
      obtain rfl := Option.some.inj hc
      rw [hcsc, if_neg hscnew, if_pos rfl, hsc]
    · exact h.super c p hc
  · rw [superClassName_update hupdate] at hc
    split at hc
    · next hcsc =>
      obtain rfl := Option.some.inj hc
      exact absurd hsc (hfree sc)
    · next hcsc => exact (List.mem_cons.mp (h.left c hc)).resolve_left hcsc

lemma Renaming.not_linked {left : List Name} {sc : Name} (ha : Acyclic s.superClassNameForClassNamed)
    (hsc : s.superClassNameForClassNamed sc = some oldName) (h : Renaming s t oldName newName left)
    (hscnew : sc ≠ newName) : ¬TransGen (Above t.superClassNameForClassNamed) newName sc := by
  intro hpath
  have hlift := TransGen.lift (p := Above s.superClassNameForClassNamed)
    (fun c => if c = newName then oldName else c) h.super _ _ hpath
  rw [Function.onFun, if_pos rfl, if_neg hscnew] at hlift
  exact ha oldName (TransGen.tail hlift hsc)

lemma Renaming.next {left : List Name} {sc : Name} {result : Bool} {u : ClassManager}
    (ha : Acyclic s.superClassNameForClassNamed) (hfree : Unnamed s newName)
    (hnew : s.isKnownClass newName = false) (hsc : s.superClassNameForClassNamed sc = some oldName)
    (h : Renaming s t oldName newName (sc :: left))
    (hset : setSuperClassNamed depth t newName sc = some (u, result)) : Renaming s u oldName newName left := by
  have hscnew := ne_of_known (known_of_super hsc) hnew
  have hknownsc : t.isKnownClass sc = true := (h.known sc).mpr (.inr ⟨ne_of_super ha hsc, known_of_super hsc⟩)
  have hknownnew : t.isKnownClass newName = true := (h.known newName).mpr (.inl rfl)
  rcases hierarchy_setSuper hset with ⟨-, hupdate⟩ | ⟨hnot | ⟨hnot, -⟩ | hlinked, -⟩
  · exact h.update ha hfree hsc hupdate hscnew
  · rw [hknownsc] at hnot
    cases hnot
  · rw [hknownnew] at hnot
    cases hnot
  · obtain ⟨c, hc, hpath⟩ := (linked_iff hlinked).mp rfl
    obtain rfl := Option.some.inj hc
    exact absurd hpath (h.not_linked ha hsc hscnew)

lemma forest_renaming (hs : Forest s) (hnew : s.isKnownClass newName = false) {left : List Name}
    (hleft : ∀ c ∈ left, s.superClassNameForClassNamed c = some oldName) (h : Renaming s t oldName newName left)
    {u : ClassManager}
    (hu : left.foldlM (fun s sc => (setSuperClassNamed depth s newName sc).map Prod.fst) t = some u) : Forest u := by
  induction left generalizing t with
  | nil =>
    obtain rfl := Option.some.inj hu
    exact h.forest hs
  | cons sc left ih =>
    rw [List.forall_mem_cons] at hleft
    rw [List.foldlM_cons] at hu
    obtain ⟨v, hv, hu⟩ := Option.bind_eq_some_iff.mp hu
    obtain ⟨⟨w, result⟩, hw, rfl⟩ := Option.map_eq_some_iff.mp hv
    exact ih hleft.2 (h.next hs.acyclic (hs.unnamed hnew) hnew hleft.1 hw) hu

lemma renaming_isSome (hs : Forest s) (hnew : s.isKnownClass newName = false) {left : List Name}
    (hleft : ∀ c ∈ left, s.superClassNameForClassNamed c = some oldName) (h : Renaming s t oldName newName left)
    (hd : Deep t depth) :
    (left.foldlM (fun s sc => (setSuperClassNamed depth s newName sc).map Prod.fst) t).isSome = true := by
  induction left generalizing t with
  | nil => rfl
  | cons sc left ih =>
    rw [List.forall_mem_cons] at hleft
    have hne : newName ≠ sc := fun heq => ne_of_known (known_of_super hleft.1) hnew heq.symm
    obtain ⟨⟨u, result⟩, hu⟩ := Option.isSome_iff_exists.mp (setSuper_isSome hd (h.acyclic hs.acyclic) fun _ => hne)
    have hdeep : Deep u depth := by
      rw [Deep, keys_setSuper hu]
      exact hd
    rw [List.foldlM_cons, hu]
    exact ih hleft.2 (h.next hs.acyclic (hs.unnamed hnew) hnew hleft.1 hu) hdeep

lemma forest_rename (hs : Forest s) {result : Bool}
    (h : renameClassNamed depth s oldName newName = some (t, result)) :
    Forest t ↔ (s.isKnownClass oldName = true → s.isKnownClass newName = false →
      s.isCustomClass oldName = true ∨ s.subClassesOf (some oldName) = []) := by
  rw [renameClassNamed] at h
  split at h
  · next hnone =>
    cases h
    refine ⟨fun _ hold => ?_, fun _ => hs⟩
    rw [isKnownClass, hnone] at hold
    cases hold
  · next info hold =>
    split at h
    · next hknown =>
      cases h
      refine ⟨fun _ _ hnew => ?_, fun _ => hs⟩
      rw [hknown] at hnew
      cases hnew
    · next hnew =>
      rw [Bool.not_eq_true] at hnew
      have hknown : s.isKnownClass oldName = true := by rw [isKnownClass, hold, Option.isSome_some]
      dsimp only at h
      split at h
      · next hcustom =>
        obtain ⟨u, hu, heq⟩ := Option.map_eq_some_iff.mp h
        cases heq
        refine ⟨fun _ _ _ => .inl hcustom, fun _ => ?_⟩
        exact forest_renaming hs hnew (fun c hc => mem_subClassesOf.mp hc)
          (renaming_start hs.acyclic (hs.unnamed hnew) hold rfl) hu
      · next hcustom =>
        cases h
        have hstart := renaming_start (t := { s with
          classInformation := (s.classInformation.erase oldName).insert newName info })
          hs.acyclic (hs.unnamed hnew) hold rfl
        refine ⟨fun ht _ _ => .inr ?_, fun hallowed => ?_⟩
        · rw [List.eq_nil_iff_forall_not_mem]
          intro c hc
          rw [mem_subClassesOf] at hc
          -- The subclass still has the old name, which is no entry any more.
          have hsuper := superClassName_rename (t := { s with
            classInformation := (s.classInformation.erase oldName).insert newName info }) hold rfl c
          rw [if_neg (ne_of_known (known_of_super hc) hnew), if_neg (ne_of_super hs.acyclic hc), hc] at hsuper
          rcases (hstart.known oldName).mp (ht.closed c oldName hsuper) with heq | ⟨hne, -⟩
          · exact ne_of_known hknown hnew heq
          · exact hne rfl
        · have hnone := (hallowed hknown hnew).resolve_left hcustom
          rw [hnone] at hstart
          exact hstart.forest hs

lemma rename_isSome (hs : Forest s) (hd : s.classInformation.keys.length + 3 ≤ depth) :
    (renameClassNamed depth s oldName newName).isSome = true := by
  rw [renameClassNamed]
  split
  · rfl
  · next info hold =>
    split
    · rfl
    · next hnew =>
      rw [Bool.not_eq_true] at hnew
      dsimp only
      split
      · rw [Option.isSome_map]
        refine renaming_isSome hs hnew (fun c hc => mem_subClassesOf.mp hc)
          (renaming_start hs.acyclic (hs.unnamed hnew) hold rfl) ?_
        rw [Deep, AList.keys_insert, AList.keys_erase]
        have hle := (@List.erase_sublist Name instBEqOfDecidableEq oldName s.classInformation.keys).length_le
        have hle' := (@List.erase_sublist Name instBEqOfDecidableEq newName
          (@List.erase Name instBEqOfDecidableEq s.classInformation.keys oldName)).length_le
        exact (Nat.add_le_add_right (Nat.succ_le_succ (hle'.trans hle)) 2).trans hd
      · rfl

/-! Loading. -/

lemma superClassName_load (dict : AList fun _ : Name => ClassEntry) (c p : Name) :
    (loadCustomClassesWithDict s dict).superClassNameForClassNamed c = some p ↔
      s.superClassNameForClassNamed c = some p ∨
        ∃ classDict, NewClass s dict c classDict ∧ classDict.superName = some p := by
  rw [superClassName_eq, superClassName_eq, hierarchy_load]
  cases hc : s.hierarchy c with
  | some sup =>
    rw [Option.some_or]
    refine ⟨.inl, fun h => h.elim id fun ⟨classDict, hnew, _⟩ => ?_⟩
    have hunknown := hnew.1
    rw [isKnownClass_eq, hc] at hunknown
    cases hunknown
  | none =>
    have hnew : s.isKnownClass c = false := by rw [isKnownClass_eq, hc, Option.isSome_none]
    rw [Option.none_or]
    constructor
    · intro h
      cases hentry : dict.lookup c with
      | none =>
        rw [hentry] at h
        cases h
      | some entry =>
        rw [hentry] at h
        cases entry with
        | text value => cases h
        | dictionary classDict => exact .inr ⟨classDict, ⟨hnew, hentry⟩, h⟩
    · rintro (h | ⟨classDict, ⟨-, hentry⟩, hsuper⟩)
      · cases h
      · rw [hentry]
        exact hsuper

lemma isKnownClass_load (dict : AList fun _ : Name => ClassEntry) (c : Name) :
    (loadCustomClassesWithDict s dict).isKnownClass c = true ↔
      s.isKnownClass c = true ∨ ∃ classDict, NewClass s dict c classDict := by
  rw [isKnownClass_eq, isKnownClass_eq, hierarchy_load]
  cases hc : s.hierarchy c with
  | some sup => simp
  | none =>
    have hnew : s.isKnownClass c = false := by rw [isKnownClass_eq, hc, Option.isSome_none]
    rw [Option.none_or]
    constructor
    · intro h
      cases hentry : dict.lookup c with
      | none =>
        rw [hentry] at h
        cases h
      | some entry =>
        rw [hentry] at h
        cases entry with
        | text value => cases h
        | dictionary classDict => exact .inr ⟨classDict, hnew, hentry⟩
    · rintro (h | ⟨classDict, -, hentry⟩)
      · cases h
      · rw [hentry]
        rfl

lemma forest_load (hs : Forest s) (dict : AList fun _ : Name => ClassEntry) :
    Forest (loadCustomClassesWithDict s dict) ↔
      ∃ level : Name → ℕ, ∀ key classDict, NewClass s dict key classDict →
        ∀ superName ∈ classDict.superName, s.isKnownClass superName = true ∨
          (∃ superDict, NewClass s dict superName superDict) ∧ level superName < level key := by
  constructor
  · intro ht
    obtain ⟨rank, hrank, -⟩ := exists_rank (supported _) ht.acyclic
    refine ⟨rank, fun key classDict hnew p hp => ?_⟩
    have hsuper := (superClassName_load dict key p).mpr (.inr ⟨classDict, hnew, hp⟩)
    exact ((isKnownClass_load dict p).mp (ht.closed key p hsuper)).imp id fun h => ⟨h, hrank key p hsuper⟩
  · rintro ⟨level, hlevel⟩
    obtain ⟨rank, hrank, hle⟩ := exists_rank (supported s) hs.acyclic
    constructor
    · -- The new classes come after all others, in the order of their levels.
      apply acyclic_of_rank (fun c =>
        if s.isKnownClass c = true then rank c else s.classInformation.keys.length + 1 + level c)
      intro c p hcp
      rcases (superClassName_load dict c p).mp hcp with hold | ⟨classDict, hnew, hp⟩
      · rw [if_pos (hs.closed c p hold), if_pos (known_of_super hold)]
        exact hrank c p hold
      · have hunknown : ¬s.isKnownClass c = true := by
          rw [hnew.1]
          exact Bool.false_ne_true
        rw [if_neg hunknown]
        split
        · have hp := hle p
          omega
        · next hunknown =>
          have hlt := ((hlevel c classDict hnew p hp).resolve_left hunknown).2
          omega
    · intro c p hcp
      rw [isKnownClass_load]
      rcases (superClassName_load dict c p).mp hcp with hold | ⟨classDict, hnew, hp⟩
      · exact .inl (hs.closed c p hold)
      · exact (hlevel c classDict hnew p hp).imp id And.left

lemma ends_iff {op : ℕ → Option (ClassManager × Bool)} {P : Prop} (hends : P → ∃ depth, (op depth).isSome = true)
    (hforest : ∀ depth t result, op depth = some (t, result) → (Forest t ↔ P)) :
    ((∃ t depth, (op depth).map Prod.fst = some t) ∧ ∀ t, (∃ depth, (op depth).map Prod.fst = some t) → Forest t) ↔
      P := by
  constructor
  · rintro ⟨⟨t, depth, hdepth⟩, hall⟩
    obtain ⟨⟨u, result⟩, hu, rfl⟩ := Option.map_eq_some_iff.mp hdepth
    exact (hforest depth u result hu).mp (hall u ⟨depth, hdepth⟩)
  · intro hp
    obtain ⟨depth, hdepth⟩ := hends hp
    obtain ⟨⟨u, result⟩, hu⟩ := Option.isSome_iff_exists.mp hdepth
    refine ⟨⟨u, depth, by rw [hu]; rfl⟩, ?_⟩
    rintro t ⟨depth, ht⟩
    obtain ⟨⟨v, result⟩, hv, rfl⟩ := Option.map_eq_some_iff.mp ht
    exact (hforest depth v result hv).mpr hp

lemma edits_forest_iff (hs : Forest s) (e : Edit) :
    ((∃ t, Edits s e t) ∧ ∀ t, Edits s e t → Forest t) ↔ Allowed s e := by
  cases e with
  | addClass className superClassName actions outlets isCustom =>
    exact ends_iff (fun hallowed => ⟨_, addClass_isSome hs (le_refl _) hallowed actions outlets isCustom⟩)
      fun depth t result h => forest_addClass hs h
  | setSuperClass superclass subclass =>
    exact ends_iff (fun hallowed => ⟨_, setSuper_isSome (le_refl _) hs.acyclic fun h => (hallowed h).2⟩)
      fun depth t result h => forest_setSuper hs h
  | rename oldName newName =>
    exact ends_iff (fun _ => ⟨_, rename_isSome hs (le_refl _)⟩) fun depth t result h => forest_rename hs h
  | remove className =>
    refine ⟨fun h => (forest_remove hs className).mp (h.2 _ ⟨0, rfl⟩), fun hallowed => ⟨⟨_, 0, rfl⟩, ?_⟩⟩
    rintro t ⟨depth, hdepth⟩
    obtain rfl := Option.some.inj hdepth
    exact (forest_remove hs className).mpr hallowed
  | load dict =>
    refine ⟨fun h => (forest_load hs dict).mp (h.2 _ ⟨0, rfl⟩), fun hallowed => ⟨⟨_, 0, rfl⟩, ?_⟩⟩
    rintro t ⟨depth, hdepth⟩
    obtain rfl := Option.some.inj hdepth
    exact (forest_load hs dict).mpr hallowed

end Steps

/-! Runs. -/

/-- Every class stays below its superclass exactly when each edit is one of these. -/
theorem staysForest_iff (s : ClassManager) (edits : List Edit) :
    StaysForest s edits ↔ Forest s ∧ AllAllowed s edits := by
  induction edits generalizing s with
  | nil => exact ⟨fun h => ⟨h.1, trivial⟩, fun h => ⟨h.1, h.1.queriesTerminate⟩⟩
  | cons e edits ih =>
    constructor
    · rintro ⟨⟨hs, -⟩, hends, hall⟩
      refine ⟨hs, ?_, fun t ht => ((ih t).mp (hall t ht)).2⟩
      exact (edits_forest_iff hs e).mp ⟨hends, fun t ht => ((ih t).mp (hall t ht)).1⟩
    · rintro ⟨hs, hallowed, hrest⟩
      obtain ⟨hends, hforest⟩ := (edits_forest_iff hs e).mpr hallowed
      exact ⟨⟨hs, hs.queriesTerminate⟩, hends, fun t ht => (ih t).mpr ⟨hforest t ht, hrest t ht⟩⟩

def loneClass : ClassManager := { classInformation := AList.singleton ['A'] {} }

lemma forest_loneClass : Forest loneClass := by
  have hnone (c : Name) : loneClass.superClassNameForClassNamed c = none := by
    rw [superClassName_eq, hierarchy, ClassManager.classInfo]
    by_cases hc : c = ['A']
    · rw [hc]
      rfl
    · rw [show loneClass.classInformation.lookup c = none from List.dlookup_cons_ne [] _ hc]
      rfl
  refine ⟨acyclic_of_rank (fun _ => 0) fun a b hab => ?_, fun c sup hc => ?_⟩
  · rw [hnone] at hab
    cases hab
  · rw [hnone] at hc
    cases hc

/-- A class may be made its own superclass. -/
theorem setSuperClass_itself : ¬∀ s edits, Forest s → StaysForest s edits := by
  intro h
  obtain ⟨-, hends, hall⟩ := h loneClass [.setSuperClass ['A'] ['A']] forest_loneClass
  have hallowed := (edits_forest_iff forest_loneClass (.setSuperClass ['A'] ['A'])).mp ⟨hends, fun t ht => (hall t ht).1⟩
  exact (hallowed (by decide)).2 rfl

end Xperimentum.Gorm
