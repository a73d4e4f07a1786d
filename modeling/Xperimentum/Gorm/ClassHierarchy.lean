import Xperimentum.Gorm.ClassManager
import Xperimentum.Lib.Hierarchies

/-! What each edit does to the superclasses of the table. -/

namespace Xperimentum.Gorm

open Lib.Hierarchies

lemma lookup_replace {α : Type*} [DecidableEq α] {β : Type*} (table : AList fun _ : α => β) (a c : α) (b : β) :
    (table.replace a b).lookup c = if c = a then (table.lookup a).map fun _ => b else table.lookup c := by
  obtain ⟨entries, hnodup⟩ := table
  change (entries.kreplace a b).dlookup c = if c = a then (entries.dlookup a).map fun _ => b else entries.dlookup c
  clear hnodup
  have hskip (d : α) (e : (_ : α) × β) (l : List ((_ : α) × β)) (h : d ≠ e.1) : (e :: l).dlookup d = l.dlookup d :=
    List.dlookup_cons_ne l e h
  induction entries with
  | nil => split <;> rfl
  | cons e entries ih =>
    obtain ⟨key, value⟩ := e
    by_cases hkey : a = key
    · subst hkey
      have hhead : List.kreplace a b (⟨a, value⟩ :: entries) = ⟨a, b⟩ :: entries := by
        apply List.lookmap_cons_some
        exact if_pos rfl
      rw [hhead]
      split
      · next hc =>
        subst hc
        rw [List.dlookup_cons_eq, List.dlookup_cons_eq]
        rfl
      · next hc => rw [hskip c _ _ hc, hskip c _ _ hc]
    · have hhead : List.kreplace a b (⟨key, value⟩ :: entries) = ⟨key, value⟩ :: List.kreplace a b entries := by
        apply List.lookmap_cons_none
        exact if_neg hkey
      rw [hhead, hskip a _ _ hkey]
      by_cases hc : c = key
      · subst hc
        rw [List.dlookup_cons_eq, List.dlookup_cons_eq, if_neg fun h => hkey h.symm]
      · rw [hskip c _ _ hc, hskip c _ _ hc, ih]

namespace ClassManager

variable {s t : ClassManager} {c d : Name}

/-- The superclass of each entry. -/
def hierarchy (s : ClassManager) (className : Name) : Option (Option Name) :=
  (s.classInfo className).map ClassInfo.superName

lemma superClassName_eq : s.superClassNameForClassNamed c = (s.hierarchy c).join := by
  rw [superClassNameForClassNamed, hierarchy]
  cases s.classInfo c <;> rfl

lemma isKnownClass_eq : s.isKnownClass c = (s.hierarchy c).isSome := by
  rw [isKnownClass, hierarchy, Option.isSome_map]

lemma mem_keys_iff : c ∈ s.classInformation.keys ↔ s.isKnownClass c = true := by
  rw [isKnownClass, classInfo, AList.lookup_isSome, AList.mem_keys]

lemma classInfo_modify (change : ClassInfo → ClassInfo) (d : Name) :
    (s.modify c change).classInfo d = if d = c then (s.classInfo c).map change else s.classInfo d := by
  rw [modify]
  cases hc : s.classInfo c with
  | none =>
    by_cases hd : d = c
    · rw [if_pos hd, hd, hc, Option.map_none]
    · rw [if_neg hd]
  | some info =>
    have hlookup : s.classInformation.lookup c = some info := hc
    change (s.classInformation.replace c (change info)).lookup d = if d = c then some (change info) else _
    rw [lookup_replace, hlookup]
    rfl

lemma keys_modify (change : ClassInfo → ClassInfo) :
    (s.modify c change).classInformation.keys = s.classInformation.keys := by
  rw [modify]
  cases s.classInfo c with
  | none => rfl
  | some info => exact AList.keys_replace c _ _

/-- The same entries with the same superclasses. -/
structure SameClasses (s t : ClassManager) : Prop where
  hierarchy : t.hierarchy = s.hierarchy
  keys : t.classInformation.keys = s.classInformation.keys

lemma SameClasses.refl (s : ClassManager) : SameClasses s s := ⟨rfl, rfl⟩

lemma SameClasses.trans {u : ClassManager} (h : SameClasses s t) (h' : SameClasses t u) : SameClasses s u :=
  ⟨h'.hierarchy.trans h.hierarchy, h'.keys.trans h.keys⟩

lemma sameClasses_modify {change : ClassInfo → ClassInfo} (h : ∀ info, (change info).superName = info.superName) :
    SameClasses s (s.modify c change) := by
  refine ⟨?_, keys_modify change⟩
  funext d
  rw [ClassManager.hierarchy, classInfo_modify, ClassManager.hierarchy]
  split
  · next hd =>
    rw [hd, Option.map_map]
    exact congrArg (Option.map · (s.classInfo c)) (funext h)
  · rfl

lemma superName_setMembers (info : ClassInfo) (kind : MemberKind) (members : Members) :
    (info.setMembers kind members).superName = info.superName := by
  cases kind <;> rfl

lemma sameClasses_setAll (kind : MemberKind) (all : List Name) : SameClasses s (s.setAll kind c all) :=
  sameClasses_modify fun info => superName_setMembers info kind _

end ClassManager

open ClassManager

variable {s t : ClassManager} {depth : ℕ}

lemma sameClasses_allMembers {kind : MemberKind} {className : Name} {members : Option (List Name)}
    (h : allMembersForClassNamed kind depth s className = some (t, members)) : SameClasses s t := by
  induction depth generalizing s t className members with
  | zero => cases h
  | succ depth ih =>
    rw [allMembersForClassNamed] at h
    split at h
    · cases h
      exact SameClasses.refl s
    split at h
    · cases h
      exact SameClasses.refl s
    obtain ⟨⟨u, superMembers⟩, hu, heq⟩ := Option.map_eq_some_iff.mp h
    cases heq
    refine SameClasses.trans ?_ (sameClasses_setAll kind _)
    split at hu
    · cases hu
      exact SameClasses.refl s
    split at hu
    · cases hu
      exact SameClasses.refl s
    · exact ih hu

lemma sameClasses_mergeInto (kind : MemberKind) (member : Name) (classes : List Name) (s : ClassManager) :
    SameClasses s (classes.foldl (fun s subclassName =>
      s.modify subclassName fun info =>
        info.setMembers kind
          { info.members kind with all := (info.members kind).all.map fun all => mergeObject all member }) s) := by
  induction classes generalizing s with
  | nil => exact SameClasses.refl s
  | cons className classes ih =>
    exact (sameClasses_modify fun info => superName_setMembers info kind _).trans (ih _)

lemma sameClasses_addMember {kind : MemberKind} {mirror : ClassManager → Option ClassManager}
    (hmirror : ∀ s t, mirror s = some t → SameClasses s t) {member className : Name}
    (h : addMember kind mirror depth s member className = some t) : SameClasses s t := by
  rw [addMember] at h
  obtain ⟨subClasses, -, h⟩ := Option.bind_eq_some_iff.mp h
  dsimp only at h
  split at h
  · cases h
    exact SameClasses.refl s
  obtain ⟨u, hu, rfl⟩ := Option.map_eq_some_iff.mp h
  refine SameClasses.trans ?_ (sameClasses_mergeInto kind member subClasses u)
  refine SameClasses.trans ?_ (hmirror _ u hu)
  refine SameClasses.trans ?_ (sameClasses_modify fun info => superName_setMembers info kind _)
  split
  · exact ⟨rfl, rfl⟩
  · exact SameClasses.refl s

lemma sameClasses_addAction {action className : Name} (h : addAction depth s action className = some t) :
    SameClasses s t := by
  refine sameClasses_addMember (fun s t hmirror => ?_) h
  split at hmirror
  · cases hmirror
    exact SameClasses.refl s
  · refine sameClasses_addMember (fun s t hmirror => ?_) hmirror
    cases hmirror
    exact SameClasses.refl s

lemma sameClasses_addActions {className : Name} {actions : List Name}
    (h : actions.foldlM (fun s action => addAction depth s action className) s = some t) : SameClasses s t := by
  induction actions generalizing s with
  | nil =>
    cases h
    exact SameClasses.refl _
  | cons action actions ih =>
    rw [List.foldlM_cons] at h
    obtain ⟨u, hu, h⟩ := Option.bind_eq_some_iff.mp h
    exact (sameClasses_addAction hu).trans (ih h)

/-! The superclasses after each edit. -/

lemma hierarchy_insert (className : Name) {info : ClassInfo}
    (h : t.classInformation = s.classInformation.insert className info) :
    t.hierarchy = Function.update s.hierarchy className (some info.superName) := by
  funext d
  rw [hierarchy, classInfo, h]
  by_cases hd : d = className
  · rw [hd, AList.lookup_insert, Function.update_self]
    rfl
  · rw [AList.lookup_insert_ne hd, Function.update_of_ne hd]
    rfl

lemma hierarchy_erase (className : Name) (h : t.classInformation = s.classInformation.erase className) :
    t.hierarchy = Function.update s.hierarchy className none := by
  funext d
  rw [hierarchy, classInfo, h]
  by_cases hd : d = className
  · rw [hd, AList.lookup_erase, Function.update_self]
    rfl
  · rw [AList.lookup_erase_ne hd, Function.update_of_ne hd]
    rfl

lemma hierarchy_modify_super (change : ClassInfo → ClassInfo) {subclass superclass : Name}
    (h : ∀ info, (change info).superName = some superclass) (hknown : s.isKnownClass subclass = true) :
    (s.modify subclass change).hierarchy = Function.update s.hierarchy subclass (some (some superclass)) := by
  obtain ⟨info, hinfo⟩ := Option.isSome_iff_exists.mp hknown
  funext d
  rw [hierarchy, classInfo_modify]
  by_cases hd : d = subclass
  · rw [if_pos hd, hd, hinfo, Function.update_self, Option.map_some, Option.map_some, h]
  · rw [if_neg hd, Function.update_of_ne hd]
    rfl

/-- The check on the superclass of a new class. -/
def MayBeSuper (s : ClassManager) (superClassName : Option Name) : Prop :=
  s.isRootClass superClassName = true ∨
    ∃ superName ∈ superClassName, s.isKnownClass superName = true ∧ superName ≠ firstResponder

lemma mayBeSuper_of_unknown {superName : Name} (h : s.isKnownClass superName = false) :
    MayBeSuper s (some superName) := by
  left
  rw [isKnownClass_eq, Option.isSome_eq_false_iff, Option.isNone_iff_eq_none] at h
  rw [isRootClass, Option.bind_some, superClassName_eq, h]
  rfl

lemma sameClasses_allMembersForSuper {kind : MemberKind} {superClassName : Option Name} {members : Option (List Name)}
    (h : allMembersForSuperClass kind depth s superClassName = some (t, members)) : SameClasses s t := by
  cases superClassName with
  | none =>
    cases h
    exact SameClasses.refl s
  | some superName => exact sameClasses_allMembers h

lemma hierarchy_addClass {className : Name} {superClassName : Option Name} {actions outlets : List Name}
    {isCustom result : Bool}
    (h : addClassNamed depth s className superClassName actions outlets isCustom = some (t, result)) :
    (MayBeSuper s superClassName ∧ s.isKnownClass className = false) ∧
        t.hierarchy = Function.update s.hierarchy className (some superClassName) ∨
      ¬(MayBeSuper s superClassName ∧ s.isKnownClass className = false) ∧ t.hierarchy = s.hierarchy := by
  rw [addClassNamed] at h
  dsimp only at h
  split at h
  · next hsuper =>
    split at h
    · next hknown =>
      cases h
      refine .inr ⟨fun ⟨_, hnew⟩ => ?_, rfl⟩
      rw [hknown] at hnew
      cases hnew
    · next hknown =>
      obtain ⟨⟨u, superActions⟩, hu, h⟩ := Option.bind_eq_some_iff.mp h
      obtain ⟨⟨v, superOutlets⟩, hv, h⟩ := Option.bind_eq_some_iff.mp h
      obtain ⟨w, hw, heq⟩ := Option.map_eq_some_iff.mp h
      cases heq
      refine .inl ⟨⟨hsuper, Bool.not_eq_true _ ▸ hknown⟩, ?_⟩
      rw [(sameClasses_addActions hw).hierarchy, hierarchy_insert className rfl,
        ((sameClasses_allMembersForSuper hu).trans (sameClasses_allMembersForSuper hv)).hierarchy]
  · next hsuper =>
    cases h
    exact .inr ⟨fun ⟨hmay, _⟩ => hsuper hmay, rfl⟩

lemma hierarchy_setSuper {superclass subclass : Name} {result : Bool}
    (h : setSuperClassNamed depth s superclass subclass = some (t, result)) :
    (s.isKnownClass subclass = true ∧
        (s.isKnownClass superclass = true ∨ s.isRootClass (some superclass) = true) ∧
        s.isSuperclassLinkedToClass subclass depth (some superclass) = some false) ∧
        t.hierarchy = Function.update s.hierarchy subclass (some (some superclass)) ∨
      (s.isKnownClass subclass = false ∨
        (s.isKnownClass superclass = false ∧ s.isRootClass (some superclass) = false) ∨
        s.isSuperclassLinkedToClass subclass depth (some superclass) = some true) ∧ t.hierarchy = s.hierarchy := by
  rw [setSuperClassNamed] at h
  split at h
  · next hguard =>
    obtain ⟨linked, hlinked, h⟩ := Option.bind_eq_some_iff.mp h
    cases linked with
    | true =>
      cases h
      exact .inr ⟨.inr (.inr hlinked), rfl⟩
    | false =>
      obtain ⟨⟨u, actions⟩, hu, h⟩ := Option.bind_eq_some_iff.mp h
      obtain ⟨⟨v, outlets⟩, hv, heq⟩ := Option.map_eq_some_iff.mp h
      cases heq
      refine .inl ⟨⟨hguard.1, hguard.2, hlinked⟩, ?_⟩
      rw [((sameClasses_allMembers hu).trans (sameClasses_allMembers hv)).hierarchy]
      exact hierarchy_modify_super _ (fun info => rfl) hguard.1
  · next hguard =>
    cases h
    refine .inr ⟨?_, rfl⟩
    rw [not_and_or, not_or, Bool.not_eq_true, Bool.not_eq_true, Bool.not_eq_true] at hguard
    exact hguard.imp id .inl

lemma hierarchy_remove (s : ClassManager) (className : Name) :
    (removeClassNamed s className).hierarchy = Function.update s.hierarchy className none := by
  rw [removeClassNamed]
  split
  · exact hierarchy_erase className rfl
  · exact hierarchy_erase className rfl

def ClassEntry.super : ClassEntry → Option (Option Name)
  | .text _ => none
  | .dictionary classDict => some classDict.superName

lemma sameClasses_loadCategory (key : Name) (info classDict : ClassInfo) :
    SameClasses s (loadCategory s key info classDict) := by
  have hextra (u : ClassManager) (actions : List Name) : SameClasses u
      { u.modify key fun info => { info with actions := { info.actions with extra := some actions } } with
        categoryClasses := u.categoryClasses ++ [key] } := by
    obtain ⟨hhierarchy, hkeys⟩ := @sameClasses_modify u key
      (fun info => { info with actions := { info.actions with extra := some actions } }) fun info => rfl
    exact ⟨hhierarchy, hkeys⟩
  rw [loadCategory]
  cases info.actions.own with
  | none =>
    dsimp only
    split
    · exact hextra s _
    · exact SameClasses.refl s
  | some origActions =>
    dsimp only
    split
    · exact (sameClasses_setAll .action _).trans (hextra _ _)
    · exact sameClasses_setAll .action _

lemma hierarchy_loadEntry (s : ClassManager) (key : Name) (entry : ClassEntry) (c : Name) :
    (loadEntry s key entry).hierarchy c = (s.hierarchy c).or (if c = key then entry.super else none) := by
  cases entry with
  | text value =>
    rw [loadEntry, ClassEntry.super, ite_self, Option.or_none]
  | dictionary classDict =>
    rw [loadEntry]
    split
    · next hnew =>
      rw [hierarchy_insert key rfl]
      split
      · next hc =>
        have hnone : s.hierarchy key = none := by rw [hierarchy, hnew, Option.map_none]
        rw [hc, Function.update_self, hnone]
        rfl
      · next hc =>
        rw [Function.update_of_ne hc, Option.or_none]
    · next info hinfo =>
      rw [(sameClasses_loadCategory key info classDict).hierarchy]
      split
      · next hc =>
        rw [hc, hierarchy, hinfo]
        rfl
      · rw [Option.or_none]

lemma hierarchy_load (s : ClassManager) (dict : AList fun _ : Name => ClassEntry) (c : Name) :
    (loadCustomClassesWithDict s dict).hierarchy c = (s.hierarchy c).or ((dict.lookup c).bind ClassEntry.super) := by
  obtain ⟨entries, hnodup⟩ := dict
  change (entries.foldl (fun s e => loadEntry s e.1 e.2) s).hierarchy c =
    (s.hierarchy c).or ((entries.dlookup c).bind ClassEntry.super)
  induction entries generalizing s with
  | nil => rw [List.foldl_nil, List.dlookup_nil, Option.bind_none, Option.or_none]
  | cons e entries ih =>
    obtain ⟨hnew, hrest⟩ := List.nodupKeys_cons.mp hnodup
    rw [List.foldl_cons, ih _ hrest, hierarchy_loadEntry, Option.or_assoc]
    by_cases hc : c = e.1
    · subst hc
      rw [if_pos rfl, List.dlookup_eq_none.mpr hnew, Option.bind_none, Option.or_none]
      obtain ⟨key, entry⟩ := e
      rw [List.dlookup_cons_eq, Option.bind_some]
    · rw [if_neg hc, Option.none_or, List.dlookup_cons_ne _ _ hc]

end Xperimentum.Gorm
