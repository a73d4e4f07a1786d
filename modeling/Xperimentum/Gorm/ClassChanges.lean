import Xperimentum.Gorm.MemberCaches

/-! New, moved and removed classes keep the filled lists right. -/

namespace Xperimentum.Gorm

open Lib.Hierarchies Relation ClassManager

variable {s t u v : ClassManager} {kind : MemberKind} {depth : ℕ} {c d x : Name}

/-- One class is another one, without filled lists. -/
structure ChangedClass (s t : ClassManager) (c : Name) : Prop where
  members : ∀ kind d, d ≠ c → t.members kind d = s.members kind d
  super : ∀ d, d ≠ c → t.superClassNameForClassNamed d = s.superClassNameForClassNamed d
  known : ∀ d, d ≠ c → t.isKnownClass d = s.isKnownClass d
  empty : ∀ kind, (t.members kind c).all = none

lemma ChangedClass.parent (h : ChangedClass s t c) (hd : d ≠ c) : t.parent kind d = s.parent kind d := by
  rw [ClassManager.parent, ClassManager.parent, h.super d hd]

lemma ChangedClass.defines (h : ChangedClass s t c) (hd : d ≠ c) : t.Defines kind d x ↔ s.Defines kind d x := by
  rw [ClassManager.Defines, ClassManager.Defines, h.members kind d hd]

lemma ChangedClass.inherits_apart (h : ChangedClass s t c) (hnot : ¬ReflTransGen (Above (s.parent kind)) d c) :
    t.Inherits kind d x ↔ s.Inherits kind d x := by
  have hne {d : Name} (hnot : ¬ReflTransGen (Above (s.parent kind)) d c) : d ≠ c := by
    rintro rfl
    exact hnot .refl
  constructor
  · intro hx
    induction hx with
    | own hx => exact .own ((h.defines (hne hnot)).mp hx)
    | super hp _ ih =>
      rw [h.parent (hne hnot)] at hp
      exact .super hp (ih fun hpath => hnot (.head hp hpath))
  · intro hx
    induction hx with
    | own hx => exact .own ((h.defines (hne hnot)).mpr hx)
    | super hp _ ih =>
      have hp' := hp
      rw [← h.parent (hne hnot)] at hp'
      exact .super hp' (ih fun hpath => hnot (.head hp hpath))

lemma ChangedClass.inherits_same (h : ChangedClass s t c)
    (hsame : ∀ x, t.Inherits kind c x ↔ s.Inherits kind c x) : t.Inherits kind d x ↔ s.Inherits kind d x := by
  constructor
  · intro hx
    induction hx with
    | @own d x hx =>
      by_cases hd : d = c
      · subst hd
        exact (hsame x).mp (.own hx)
      · exact .own ((h.defines hd).mp hx)
    | @super d p x hp hx ih =>
      by_cases hd : d = c
      · subst hd
        exact (hsame x).mp (.super hp hx)
      · rw [h.parent hd] at hp
        exact .super hp ih
  · intro hx
    induction hx with
    | @own d x hx =>
      by_cases hd : d = c
      · subst hd
        exact (hsame x).mpr (.own hx)
      · exact .own ((h.defines hd).mpr hx)
    | @super d p x hp hx ih =>
      by_cases hd : d = c
      · subst hd
        exact (hsame x).mpr (.super hp hx)
      · rw [← h.parent hd] at hp
        exact .super hp ih

lemma ListsRight.changedClass (hs : ListsRight s) (h : ChangedClass s t c)
    (hbelow : ∀ kind, Unfilled s kind c ∨ ∀ x, t.Inherits kind c x ↔ s.Inherits kind c x)
    (hroot : ∀ kind, (∀ p, t.parent kind c = some p → t.isKnownClass p = false) →
      ((t.members kind c).own.getD []).Nodup)
    (hroots : ∀ kind d, s.parent kind d = some c → (s.members kind d).all = none → t.isKnownClass c = false →
      ((s.members kind d).own.getD []).Nodup) : ListsRight t := by
  constructor
  · intro kind d all hall
    have hd : d ≠ c := by
      rintro rfl
      rw [h.empty] at hall
      cases hall
    rw [h.members kind d hd] at hall
    obtain ⟨hnodup, hmem⟩ := hs.lists kind d all hall
    refine ⟨hnodup, fun x => (hmem x).trans (Iff.symm ?_)⟩
    rcases hbelow kind with hunfilled | hsame
    · refine h.inherits_apart fun hpath => ?_
      rw [hunfilled d ((of_atOrBelow (super_path hpath)).resolve_left hd)] at hall
      cases hall
    · exact h.inherits_same hsame
  · intro kind d hnone hparents
    by_cases hd : d = c
    · subst hd
      exact hroot kind hparents
    · rw [h.members kind d hd] at hnone ⊢
      rw [h.parent hd] at hparents
      cases hp : s.parent kind d with
      | none => exact hs.roots kind d hnone fun p hp' => by rw [hp] at hp'; cases hp'
      | some p =>
        by_cases hpc : p = c
        · subst hpc
          exact hroots kind d hp hnone (hparents p hp)
        · refine hs.roots kind d hnone fun q hq => ?_
          have hqc : q ≠ c := by
            rintro rfl
            rw [hp] at hq
            exact hpc (Option.some.inj hq)
          rw [← h.known q hqc]
          exact hparents q hq

/-! Another superclass. -/

lemma members_modifyInfo (change : ClassInfo → ClassInfo) (kind : MemberKind) (d : Name) :
    (s.modify c change).members kind d =
      if d = c then ((s.classInfo c).map fun info => (change info).members kind).getD {} else s.members kind d := by
  rw [ClassManager.members, classInfo_modify]
  split
  · rw [Option.map_map]
    rfl
  · rfl

lemma members_inherit (info : ClassInfo) (superclass : Name) (kind : MemberKind) :
    (info.inherit superclass).members kind = { info.members kind with all := none } := by
  cases kind <;> rfl

def moved (s : ClassManager) (superclass subclass : Name) : ClassManager :=
  s.modify subclass fun info => info.inherit superclass

lemma hierarchy_moved {superclass : Name} (hc : s.isKnownClass c = true) :
    (moved s superclass c).hierarchy = Function.update s.hierarchy c (some (some superclass)) :=
  hierarchy_modify_super _ (fun _ => rfl) hc

lemma members_moved {superclass : Name} (kind : MemberKind) (d : Name) :
    (moved s superclass c).members kind d =
      if d = c then { s.members kind c with all := none } else s.members kind d := by
  rw [moved, members_modifyInfo]
  split
  · rw [ClassManager.members]
    cases s.classInfo c with
    | none => rfl
    | some info => exact members_inherit info superclass kind
  · rfl

lemma isKnownClass_moved {superclass : Name} (hc : s.isKnownClass c = true) (d : Name) :
    (moved s superclass c).isKnownClass d = s.isKnownClass d := by
  rw [isKnownClass_eq, hierarchy_moved hc, isKnownClass_eq]
  by_cases hd : d = c
  · subst hd
    rw [Function.update_self, ← isKnownClass_eq, hc]
    rfl
  · rw [Function.update_of_ne hd]

lemma changedClass_moved {superclass : Name} (hc : s.isKnownClass c = true) :
    ChangedClass s (moved s superclass c) c where
  members kind d hd := by rw [members_moved, if_neg hd]
  super d hd := by rw [superClassName_update (hierarchy_moved hc), if_neg hd]
  known d _ := isKnownClass_moved hc d
  empty kind := by rw [members_moved, if_pos rfl]

/-- What setting a superclass needs. -/
def MayMove (s : ClassManager) (superclass subclass : Name) : Prop :=
  s.isKnownClass subclass = true → ¬AtOrBelow s superclass subclass → ∀ kind,
    (Unfilled s kind subclass ∨
      ∀ x, (moved s superclass subclass).Inherits kind subclass x ↔ s.Inherits kind subclass x) ∧
    (s.isKnownClass superclass = true ∧ ¬IsFirst kind subclass ∨ ((s.members kind subclass).own.getD []).Nodup)

lemma setSuper_cases {superclass subclass : Name} {result : Bool}
    (h : setSuperClassNamed depth s superclass subclass = some (t, result)) :
    (s.isKnownClass subclass = false ∨ TransGen (Above s.superClassNameForClassNamed) superclass subclass) ∧ t = s ∨
      (s.isKnownClass subclass = true ∧ ¬TransGen (Above s.superClassNameForClassNamed) superclass subclass) ∧
      ∃ u actions outlets, allActionsForClassNamed depth (moved s superclass subclass) subclass = some (u, actions) ∧
        allOutletsForClassNamed depth u subclass = some (t, outlets) := by
  rw [setSuperClassNamed] at h
  split at h
  · next hguard =>
    obtain ⟨linked, hlinked, h⟩ := Option.bind_eq_some_iff.mp h
    cases linked with
    | true =>
      cases h
      obtain ⟨c, hc, hpath⟩ := (linked_iff hlinked).mp rfl
      obtain rfl := Option.some.inj hc
      exact .inl ⟨.inr hpath, rfl⟩
    | false =>
      obtain ⟨⟨u, actions⟩, hu, h⟩ := Option.bind_eq_some_iff.mp h
      obtain ⟨⟨v, outlets⟩, hv, heq⟩ := Option.map_eq_some_iff.mp h
      cases heq
      refine .inr ⟨⟨hguard.1, fun hpath => ?_⟩, u, actions, outlets, hu, hv⟩
      have htrue := (linked_iff hlinked).mpr ⟨superclass, rfl, hpath⟩
      cases htrue
  · next hguard =>
    cases h
    refine .inl ⟨.inl (Bool.not_eq_true _ ▸ fun hknown => hguard ⟨hknown, ?_⟩), rfl⟩
    -- An unknown class is a root class.
    by_cases hsuper : s.isKnownClass superclass = true
    · exact .inl hsuper
    · refine .inr ((mayBeSuper_of_unknown (Bool.not_eq_true _ ▸ hsuper)).resolve_right fun hp => ?_)
      obtain ⟨p, hp, hknown, -⟩ := hp
      exact hsuper (Option.some.inj hp ▸ hknown)

lemma ListsRight.setSuper (hs : ListsRight s) {superclass subclass : Name} {result : Bool}
    (ht : Acyclic t.superClassNameForClassNamed) (hmay : MayMove s superclass subclass)
    (h : setSuperClassNamed depth s superclass subclass = some (t, result)) : ListsRight t := by
  rcases setSuper_cases h with ⟨-, rfl⟩ | ⟨⟨hknown, hpath⟩, u, actions, outlets, hu, hv⟩
  · exact hs
  have hsu := sameClasses_allMembers hu
  have huv := sameClasses_allMembers hv
  rw [superClassName_congr huv.hierarchy] at ht
  have hm : Acyclic (moved s superclass subclass).superClassNameForClassNamed :=
    superClassName_congr hsu.hierarchy ▸ ht
  have hsuper := superClassName_update (hierarchy_moved hknown : (moved s superclass subclass).hierarchy = _)
  have hnot : ¬AtOrBelow s superclass subclass := by
    intro hbelow
    rcases of_atOrBelow hbelow with rfl | hbelow
    · refine hm superclass (TransGen.single ?_)
      rw [Above, hsuper, if_pos rfl]
    · exact hpath hbelow
  have hcond := hmay hknown hnot
  have hright : ListsRight (moved s superclass subclass) := by
    refine hs.changedClass (changedClass_moved hknown) (fun kind => (hcond kind).1) (fun kind hroot => ?_) ?_
    · rw [members_moved, if_pos rfl]
      refine (hcond kind).2.resolve_left fun hk => ?_
      obtain ⟨hk, hfirst⟩ := hk
      rw [IsFirst] at hfirst
      have hparent := hroot superclass (by rw [ClassManager.parent, if_neg hfirst, hsuper, if_pos rfl])
      rw [isKnownClass_moved hknown, hk] at hparent
      cases hparent
    · intro kind d _ _ hunknown
      rw [isKnownClass_moved hknown, hknown] at hunknown
      cases hunknown
  exact (hright.query hm hu).query ht hv

/-! A removed class. -/

lemma classInformation_remove (s : ClassManager) (className : Name) :
    (removeClassNamed s className).classInformation = s.classInformation.erase className := by
  rw [removeClassNamed]
  split
  · rfl
  · rfl

lemma classInfo_remove (s : ClassManager) (className d : Name) :
    (removeClassNamed s className).classInfo d = if d = className then none else s.classInfo d := by
  rw [ClassManager.classInfo, classInformation_remove]
  split
  · next hd => rw [hd, AList.lookup_erase]
  · next hd => rw [AList.lookup_erase_ne hd, ClassManager.classInfo]

lemma changedClass_remove (s : ClassManager) (className : Name) :
    ChangedClass s (removeClassNamed s className) className where
  members kind d hd := by rw [ClassManager.members, classInfo_remove, if_neg hd, ClassManager.members]
  super d hd := by
    rw [superClassNameForClassNamed, classInfo_remove, if_neg hd, superClassNameForClassNamed]
  known d hd := by rw [isKnownClass, classInfo_remove, if_neg hd, isKnownClass]
  empty kind := by
    rw [ClassManager.members, classInfo_remove, if_pos rfl]
    rfl

lemma unknown_remove (s : ClassManager) (className : Name) :
    (removeClassNamed s className).isKnownClass className = false := by
  rw [isKnownClass, classInfo_remove, if_pos rfl]
  rfl

/-- What removing a class needs. -/
def MayRemove (s : ClassManager) (className : Name) : Prop :=
  s.isKnownClass className = true → ∀ kind,
    (Unfilled s kind className ∨ ∀ x, ¬s.Inherits kind className x) ∧
    ∀ d, s.parent kind d = some className → (s.members kind d).all = none → ((s.members kind d).own.getD []).Nodup

lemma ListsRight.remove (hs : ListsRight s) {className : Name} (hmay : MayRemove s className) :
    ListsRight (removeClassNamed s className) := by
  have hchanged := changedClass_remove s className
  have hunknown := unknown_remove s className
  have hnone : ∀ kind x, ¬(removeClassNamed s className).Inherits kind className x := by
    intro kind x hx
    rw [known_of_inherits hx] at hunknown
    cases hunknown
  refine hs.changedClass hchanged (fun kind => ?_) (fun kind _ => ?_) fun kind d hp hall _ => ?_
  · by_cases hknown : s.isKnownClass className = true
    · exact (hmay hknown kind).1.imp id fun hx x => iff_of_false (hnone kind x) (hx x)
    · refine .inr fun x => iff_of_false (hnone kind x) fun hx => hknown (known_of_inherits hx)
  · rw [members_of_unknown hunknown]
    exact List.nodup_nil
  · by_cases hknown : s.isKnownClass className = true
    · exact (hmay hknown kind).2 d hp hall
    · -- The class was no entry before.
      refine hs.roots kind d hall fun p hp' => ?_
      rw [hp] at hp'
      exact Option.some.inj hp' ▸ Bool.not_eq_true _ ▸ hknown

/-! A new class. -/

lemma ListsRight.addActions {actions : List Name} (hs : ListsRight s)
    (hfirst : s.isKnownClass firstResponder = true ∨ s.subClassesOf (some firstResponder) = [])
    (h : actions.foldlM (fun s action => Gorm.addAction depth s action firstResponder) s = some t) :
    ListsRight t := by
  induction actions generalizing s with
  | nil => exact Option.some.inj h ▸ hs
  | cons action actions ih =>
    rw [List.foldlM_cons] at h
    obtain ⟨u, hu, h⟩ := Option.bind_eq_some_iff.mp h
    have hunfilled : s.isKnownClass firstResponder = true ∨ Unfilled s .action firstResponder := by
      refine hfirst.imp id fun hnone d hd => ?_
      obtain ⟨b, -, hb⟩ := TransGen.tail'_iff.mp hd
      have hmem := mem_subClassesOf.mpr hb
      rw [hnone] at hmem
      cases hmem
    have hsame := sameClasses_addAction hu
    refine ih (hs.addAction hunfilled hunfilled hu) ?_ h
    rw [isKnownClass_congr hsame, subClassesOf_congr hsame]
    exact hfirst

def given (actions outlets : List Name) : MemberKind → List Name
  | .action => actions
  | .outlet => outlets

/-- What a new class needs. -/
def MayAdd (s : ClassManager) (className : Name) (superClassName : Option Name) (actions outlets : List Name) : Prop :=
  MayBeSuper s superClassName → s.isKnownClass className = false →
    (∀ kind, (Unfilled s kind className ∨
        given actions outlets kind = [] ∧ ∀ p ∈ superClassName, ∀ x, ¬s.Inherits kind p x) ∧
      ((∃ p ∈ superClassName, s.isKnownClass p = true ∧ ¬IsFirst kind className) ∨
        (given actions outlets kind).Nodup)) ∧
    (s.isKnownClass firstResponder = true ∨ className = firstResponder ∨
      s.subClassesOf (some firstResponder) = [] ∧ superClassName ≠ some firstResponder)

lemma Unfilled.query (hs : ListsRight s) (ha : Acyclic s.superClassNameForClassNamed) {asked : MemberKind}
    {superClassName : Option Name} {result : Option (List Name)}
    (hnot : ∀ p ∈ superClassName, ¬AtOrBelow s p c) (h : Unfilled s kind c)
    (hquery : allMembersForSuperClass asked depth s superClassName = some (t, result)) : Unfilled t kind c := by
  cases superClassName with
  | none =>
    cases hquery
    exact h
  | some p =>
    change allMembersForClassNamed asked depth s p = some (t, result) at hquery
    cases hknown : s.isKnownClass p with
    | false =>
      obtain ⟨rfl, -⟩ := allMembers_unknown hknown hquery
      exact h
    | true =>
      obtain ⟨hfilled, -⟩ := query_spec ha (fun d _ _ => hs.fits asked d) hknown hquery
      intro d hd
      rw [superClassName_congr hfilled.same.hierarchy] at hd
      rcases hfilled.members kind d with heq | ⟨⟨-, hpath, -⟩, -⟩
      · rw [heq]
        exact h d hd
      · exact absurd ((super_path hpath).trans hd.to_reflTransGen) (hnot p rfl)

lemma sameMembers_query (hs : ListsRight s) (ha : Acyclic s.superClassNameForClassNamed)
    {superClassName : Option Name} {result : Option (List Name)}
    (hquery : allMembersForSuperClass kind depth s superClassName = some (t, result)) :
    ListsRight t ∧ SameMembers s t := by
  cases superClassName with
  | none =>
    cases hquery
    exact ⟨hs, SameClasses.refl s, fun _ _ => rfl, fun _ _ => rfl⟩
  | some p =>
    change allMembersForClassNamed kind depth s p = some (t, result) at hquery
    refine ⟨hs.query ha hquery, ?_⟩
    cases hknown : s.isKnownClass p with
    | false =>
      obtain ⟨rfl, -⟩ := allMembers_unknown hknown hquery
      exact ⟨SameClasses.refl _, fun _ _ => rfl, fun _ _ => rfl⟩
    | true => exact (query_spec ha (fun d _ _ => hs.fits kind d) hknown hquery).1.sameMembers

section NewClass

variable {className : Name} {superClassName : Option Name} {actions outlets : List Name}

def newInfo (superClassName : Option Name) (actions outlets : List Name) : ClassInfo :=
  { superName := superClassName, actions := { own := some actions }, outlets := { own := some outlets } }

lemma members_newInfo (kind : MemberKind) :
    (newInfo superClassName actions outlets).members kind = { own := some (given actions outlets kind) } := by
  cases kind <;> rfl

lemma classInfo_insert {info : ClassInfo} (h : t.classInformation = s.classInformation.insert className info)
    (d : Name) : t.classInfo d = if d = className then some info else s.classInfo d := by
  rw [ClassManager.classInfo, h]
  split
  · next hd => rw [hd, AList.lookup_insert]
  · next hd => rw [AList.lookup_insert_ne hd, ClassManager.classInfo]

/-- The table has the new class. -/
def Inserted (s t : ClassManager) (className : Name) (superClassName : Option Name) (actions outlets : List Name) :
    Prop :=
  t.classInformation = s.classInformation.insert className (newInfo superClassName actions outlets)

lemma Inserted.changed (h : Inserted s t className superClassName actions outlets) : ChangedClass s t className where
  members kind d hd := by rw [ClassManager.members, classInfo_insert h, if_neg hd, ClassManager.members]
  super d hd := by rw [superClassNameForClassNamed, classInfo_insert h, if_neg hd, superClassNameForClassNamed]
  known d hd := by rw [isKnownClass, classInfo_insert h, if_neg hd, isKnownClass]
  empty kind := by
    rw [ClassManager.members, classInfo_insert h, if_pos rfl, Option.map_some, members_newInfo]
    rfl

lemma Inserted.members (h : Inserted s t className superClassName actions outlets) (kind : MemberKind) :
    t.members kind className = { own := some (given actions outlets kind) } := by
  rw [ClassManager.members, classInfo_insert h, if_pos rfl, Option.map_some, members_newInfo]
  rfl

lemma Inserted.super (h : Inserted s t className superClassName actions outlets) :
    t.superClassNameForClassNamed className = superClassName := by
  rw [superClassNameForClassNamed, classInfo_insert h, if_pos rfl]
  rfl

lemma Inserted.known (h : Inserted s t className superClassName actions outlets) :
    t.isKnownClass className = true := by
  rw [isKnownClass, classInfo_insert h, if_pos rfl]
  rfl

lemma Inserted.not_below (h : Inserted s t className superClassName actions outlets)
    (hunknown : s.isKnownClass className = false) (ht : Acyclic t.superClassNameForClassNamed) :
    ∀ p ∈ superClassName, ¬AtOrBelow s p className := by
  rintro p hp hbelow
  have hmono : ∀ a b, Above s.superClassNameForClassNamed a b → Above t.superClassNameForClassNamed a b := by
    intro a b hab
    have hne : a ≠ className := ne_of_known (known_of_super hab) hunknown
    rw [Above, h.changed.super a hne]
    exact hab
  have hsuper : Above t.superClassNameForClassNamed className p := by
    rw [Above, h.super, hp]
  exact ht className (TransGen.head' hsuper (ReflTransGen.mono hmono _ _ hbelow))

lemma ListsRight.inserted (hs : ListsRight s) (actions outlets : List Name) {actions' outlets' : List Name}
    (h : Inserted s t className superClassName actions' outlets')
    (hunknown : s.isKnownClass className = false) (ht : Acyclic t.superClassNameForClassNamed)
    (hsub : ∀ kind, (given actions' outlets' kind).Sublist (given actions outlets kind))
    (hcond : ∀ kind, (Unfilled s kind className ∨
        given actions outlets kind = [] ∧ ∀ p ∈ superClassName, ∀ x, ¬s.Inherits kind p x) ∧
      ((∃ p ∈ superClassName, s.isKnownClass p = true ∧ ¬IsFirst kind className) ∨
        (given actions outlets kind).Nodup)) : ListsRight t := by
  refine hs.changedClass h.changed (fun kind => ?_) (fun kind hroot => ?_) fun kind d _ _ hnot => ?_
  · refine (hcond kind).1.imp id fun ⟨hnil, habove⟩ x => iff_of_false ?_ fun hx => ?_
    · intro hx
      rcases inherits_iff.mp hx with hx | ⟨p, hp, hx⟩
      · rw [ClassManager.Defines, h.members] at hx
        rcases hx with hx | hx
        · have hx := (hsub kind).subset hx
          rw [hnil] at hx
          cases hx
        · cases hx
      · have hsuper := super_of_parent hp
        rw [h.super] at hsuper
        have hnot := h.not_below hunknown ht p hsuper
        exact habove p hsuper x ((h.changed.inherits_apart fun hpath => hnot (super_path hpath)).mp hx)
    · rw [known_of_inherits hx] at hunknown
      cases hunknown
  · rw [h.members]
    refine ((hcond kind).2.resolve_left ?_).sublist (hsub kind)
    rintro ⟨p, hp, hknown, hfirst⟩
    rw [IsFirst] at hfirst
    have hparent := hroot p (by rw [ClassManager.parent, if_neg hfirst, h.super, hp])
    rw [h.changed.known p (ne_of_known hknown hunknown), hknown] at hparent
    cases hparent
  · rw [h.known] at hnot
    cases hnot

lemma ListsRight.addClass (hs : ListsRight s) {isCustom result : Bool} (ha : Acyclic s.superClassNameForClassNamed)
    (ht : Acyclic t.superClassNameForClassNamed) (hmay : MayAdd s className superClassName actions outlets)
    (h : addClassNamed depth s className superClassName actions outlets isCustom = some (t, result)) :
    ListsRight t := by
  rw [addClassNamed] at h
  dsimp only at h
  split at h
  · next hsuper =>
    split at h
    · cases h
      exact hs
    · next hknown =>
      have hunknown : s.isKnownClass className = false := Bool.not_eq_true _ ▸ hknown
      obtain ⟨⟨u, superActions⟩, hu, h⟩ := Option.bind_eq_some_iff.mp h
      obtain ⟨⟨v, superOutlets⟩, hv, h⟩ := Option.bind_eq_some_iff.mp h
      obtain ⟨w, hw, heq⟩ := Option.map_eq_some_iff.mp h
      cases heq
      obtain ⟨hcond, hfirst⟩ := hmay hsuper hunknown
      obtain ⟨hur, hsu⟩ := sameMembers_query hs ha hu
      have hau := (superClassName_congr hsu.same.hierarchy).symm ▸ ha
      obtain ⟨hvr, huv⟩ := sameMembers_query hur hau hv
      have hsv := hsu.same.trans huv.same
      rw [superClassName_congr (sameClasses_addActions hw).hierarchy] at ht
      have hinserted : Inserted v { v with
          classInformation := v.classInformation.insert className
            { superName := superClassName
              actions := { own := some (removeObjectsInArray actions superActions) }
              outlets := { own := some (removeObjectsInArray outlets superOutlets) } }
          customClasses := if isCustom then v.customClasses ++ [className] else v.customClasses }
          className superClassName (removeObjectsInArray actions superActions)
          (removeObjectsInArray outlets superOutlets) := rfl
      have hvunknown := (isKnownClass_congr hsv className).trans hunknown
      have hnot : ∀ p ∈ superClassName, ¬AtOrBelow s p className := by
        intro p hp
        rw [← atOrBelow_congr hsv]
        exact hinserted.not_below hvunknown ht p hp
      refine ListsRight.addActions (hvr.inserted actions outlets hinserted hvunknown ht ?_ ?_) ?_ hw
      · intro kind
        cases kind
        · exact List.filter_sublist
        · exact List.filter_sublist
      · intro kind
        refine ⟨(hcond kind).1.imp (fun hunfilled => ?_) (And.imp id fun habove p hp x hx => ?_), ?_⟩
        · refine (hunfilled.query hs ha hnot hu).query hur hau (fun p hp => ?_) hv
          rw [atOrBelow_congr hsu.same]
          exact hnot p hp
        · exact habove p hp x ((hsu.inherits kind p x).mp ((huv.inherits kind p x).mp hx))
        · refine (hcond kind).2.imp (fun hp => ?_) id
          obtain ⟨p, hp, hknown, hne⟩ := hp
          refine ⟨p, hp, ?_, hne⟩
          rw [isKnownClass_congr hsv]
          exact hknown
      · by_cases hname : firstResponder = className
        · exact .inl (hname ▸ hinserted.known)
        · rcases hfirst with hfirst | hfirst | ⟨hnone, hne⟩
          · left
            rw [hinserted.changed.known firstResponder hname, isKnownClass_congr hsv]
            exact hfirst
          · exact absurd hfirst.symm hname
          · right
            rw [List.eq_nil_iff_forall_not_mem]
            intro d hd
            have hd := mem_subClassesOf.mp hd
            by_cases hdc : d = className
            · rw [hdc, hinserted.super] at hd
              exact hne hd
            · rw [hinserted.changed.super d hdc, superClassName_congr hsv.hierarchy] at hd
              have hmem := mem_subClassesOf.mpr hd
              rw [hnone] at hmem
              cases hmem
  · cases h
    exact hs

end NewClass

end Xperimentum.Gorm
