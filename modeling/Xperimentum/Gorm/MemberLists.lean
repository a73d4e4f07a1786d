import Xperimentum.Gorm.MemberEdits
import Xperimentum.Gorm.Subtrees

/-! What the queries return when the filled lists on the way up are right. -/

namespace Xperimentum.Gorm

open Lib.Hierarchies Relation ClassManager

/-! Arrays as sets. -/

section Arrays

variable {array : List Name} {object x : Name}

lemma mem_mergeObject : x ∈ mergeObject array object ↔ x ∈ array ∨ x = object := by
  rw [mergeObject]
  split
  · next h =>
    refine ⟨.inl, fun hx => hx.elim id ?_⟩
    rintro rfl
    exact h
  · rw [sortByCompare, (List.perm_insertionSort _ _).mem_iff, List.mem_append, List.mem_singleton]

lemma nodup_mergeObject (h : array.Nodup) : (mergeObject array object).Nodup := by
  rw [mergeObject]
  split
  · exact h
  · next hnot =>
    rw [sortByCompare, (List.perm_insertionSort _ _).nodup_iff]
    refine List.nodup_append.mpr ⟨h, List.nodup_singleton object, fun a ha b hb => ?_⟩
    rw [List.mem_singleton.mp hb]
    rintro rfl
    exact hnot ha

lemma mem_mergeObjects {objects : Option (List Name)} :
    x ∈ mergeObjectsFromArray array objects ↔ x ∈ array ∨ x ∈ objects.getD [] := by
  rw [mergeObjectsFromArray]
  induction objects.getD [] generalizing array with
  | nil => simp
  | cons object objects ih =>
    rw [List.foldl_cons, ih, mem_mergeObject, List.mem_cons, or_assoc]

lemma nodup_mergeObjects {objects : Option (List Name)} (h : array.Nodup) :
    (mergeObjectsFromArray array objects).Nodup := by
  rw [mergeObjectsFromArray]
  induction objects.getD [] generalizing array with
  | nil => exact h
  | cons object objects ih => exact ih (nodup_mergeObject h)

lemma mem_combine {members : Members} {inherited : Option (List Name)} :
    x ∈ combine members inherited ↔
      (x ∈ members.own.getD [] ∨ x ∈ members.extra.getD []) ∨ x ∈ inherited.getD [] := by
  cases inherited with
  | none =>
    rw [combine, mem_mergeObjects, Option.getD_none]
    exact ⟨.inl, fun h => h.resolve_right List.not_mem_nil⟩
  | some inherited =>
    rw [combine, mem_mergeObjects, mem_mergeObjects, Option.getD_some, or_assoc, or_comm]

lemma nodup_combine {members : Members} {inherited : Option (List Name)}
    (hnone : inherited = none → (members.own.getD []).Nodup) (hsome : ∀ names ∈ inherited, names.Nodup) :
    (combine members inherited).Nodup := by
  cases inherited with
  | none => exact nodup_mergeObjects (hnone rfl)
  | some inherited => exact nodup_mergeObjects (nodup_mergeObjects (hsome inherited rfl))

end Arrays

/-! The lists of one class. -/

section Members

variable {s t : ClassManager} {kind : MemberKind} {c d : Name}

lemma members_setMembers (info : ClassInfo) (kind other : MemberKind) (members : Members) :
    (info.setMembers kind members).members other = if other = kind then members else info.members other := by
  cases kind <;> cases other <;> rfl

lemma members_of_unknown (h : s.isKnownClass c = false) : s.members kind c = {} := by
  rw [isKnownClass, Option.isSome_eq_false_iff, Option.isNone_iff_eq_none] at h
  rw [ClassManager.members, h]
  rfl

lemma members_of_classInfo {info : ClassInfo} (h : s.classInfo c = some info) :
    s.members kind c = info.members kind := by
  rw [ClassManager.members, h]
  rfl

lemma members_modify {change : Members → Members} (other : MemberKind) (d : Name) :
    (s.modifyMembers kind c change).members other d =
      if other = kind ∧ d = c ∧ s.isKnownClass c = true then change (s.members kind c) else s.members other d := by
  rw [ClassManager.members, modifyMembers, classInfo_modify]
  by_cases hd : d = c
  · subst hd
    rw [if_pos rfl]
    cases hinfo : s.classInfo d with
    | none =>
      have hunknown : ¬s.isKnownClass d = true := by
        rw [isKnownClass, hinfo]
        exact Bool.false_ne_true
      rw [if_neg fun h => hunknown h.2.2, ClassManager.members, hinfo]
      rfl
    | some info =>
      have hknown : s.isKnownClass d = true := by
        rw [isKnownClass, hinfo]
        rfl
      rw [Option.map_some, Option.map_some, Option.getD_some, members_setMembers, members_of_classInfo hinfo,
        members_of_classInfo hinfo]
      by_cases hk : other = kind
      · rw [if_pos hk, if_pos ⟨hk, rfl, hknown⟩]
      · rw [if_neg hk, if_neg fun h => hk h.1]
  · rw [if_neg hd, if_neg fun h => hd h.2.1, ClassManager.members]

lemma members_modify_of_empty {change : Members → Members} (hempty : change {} = {}) (other : MemberKind) (d : Name) :
    (s.modifyMembers kind c change).members other d =
      if other = kind ∧ d = c then change (s.members kind c) else s.members other d := by
  rw [members_modify]
  by_cases hd : other = kind ∧ d = c
  · rw [if_pos hd]
    by_cases hknown : s.isKnownClass c = true
    · rw [if_pos ⟨hd.1, hd.2, hknown⟩]
    · rw [if_neg fun h => hknown h.2.2, hd.1, hd.2, members_of_unknown (Bool.not_eq_true _ ▸ hknown), hempty]
  · rw [if_neg hd, if_neg fun h => hd ⟨h.1, h.2.1⟩]

lemma sameClasses_modifyMembers (change : Members → Members) : SameClasses s (s.modifyMembers kind c change) :=
  sameClasses_modify fun info => superName_setMembers info kind _

lemma setAll_eq (all : List Name) :
    s.setAll kind c all = s.modifyMembers kind c fun members => { members with all := some all } := rfl

lemma isKnownClass_congr (h : SameClasses s t) (c : Name) : t.isKnownClass c = s.isKnownClass c := by
  rw [isKnownClass_eq, h.hierarchy, isKnownClass_eq]

lemma parent_congr (h : SameClasses s t) (kind : MemberKind) : t.parent kind = s.parent kind := by
  funext c
  rw [ClassManager.parent, ClassManager.parent, superClassName_congr h.hierarchy]

lemma super_of_parent {p : Name} (h : s.parent kind c = some p) : s.superClassNameForClassNamed c = some p := by
  rw [ClassManager.parent] at h
  split at h
  · cases h
  · exact h

lemma acyclic_parent (kind : MemberKind) (h : Acyclic s.superClassNameForClassNamed) : Acyclic (s.parent kind) :=
  acyclic_of_map (f := id) h fun _ _ => super_of_parent

lemma known_of_parent {p : Name} (h : s.parent kind c = some p) : s.isKnownClass c = true :=
  known_of_super (super_of_parent h)

end Members

/-! Queries. -/

section Queries

variable {s t : ClassManager} {kind : MemberKind} {F : Name → Name → Prop} {depth : ℕ}

/-- A filled list is right, and an empty one will be. -/
structure Fits (s : ClassManager) (kind : MemberKind) (F : Name → Name → Prop) (c : Name) : Prop where
  filled : ∀ all, (s.members kind c).all = some all → all.Nodup ∧ ∀ x, x ∈ all ↔ F c x
  empty : (s.members kind c).all = none → ∀ x, F c x ↔
    s.Defines kind c x ∨ ∃ p, s.parent kind c = some p ∧ s.isKnownClass p = true ∧ F p x
  root : (s.members kind c).all = none → (∀ p, s.parent kind c = some p → s.isKnownClass p = false) →
    ((s.members kind c).own.getD []).Nodup

/-- Some lists of one kind are filled, and nothing else changes. -/
structure Filled (s t : ClassManager) (kind : MemberKind) (F : Name → Name → Prop) (c : Name) : Prop where
  same : SameClasses s t
  members : ∀ other d, t.members other d = s.members other d ∨
    (other = kind ∧ ReflTransGen (Above (s.parent kind)) c d ∧ s.isKnownClass d = true ∧
      (s.members kind d).all = none) ∧
      ∃ all : List Name, all.Nodup ∧ (∀ x, x ∈ all ↔ F d x) ∧
        t.members other d = { s.members other d with all := some all }

lemma Filled.refl (s : ClassManager) (kind : MemberKind) (F : Name → Name → Prop) (c : Name) : Filled s s kind F c :=
  ⟨SameClasses.refl s, fun _ _ => .inl rfl⟩

lemma allMembers_unknown {c : Name} {result : Option (List Name)} (hc : s.isKnownClass c = false)
    (h : allMembersForClassNamed kind depth s c = some (t, result)) : t = s ∧ result = none := by
  cases depth with
  | zero => cases h
  | succ depth =>
    rw [isKnownClass, Option.isSome_eq_false_iff, Option.isNone_iff_eq_none] at hc
    rw [allMembersForClassNamed, hc] at h
    cases h
    exact ⟨rfl, rfl⟩

lemma allMembers_eq {c : Name} {info : ClassInfo} (hinfo : s.classInfo c = some info)
    (hall : (info.members kind).all = none) :
    allMembersForClassNamed kind (depth + 1) s c =
      (allMembersForSuperClass kind depth s (s.parent kind c)).map fun (u, superMembers) =>
        (u.setAll kind c (combine (info.members kind) superMembers),
          some (combine (info.members kind) superMembers)) := by
  have hsuper : s.superClassNameForClassNamed c = info.superName := by
    rw [superClassNameForClassNamed, hinfo]
    rfl
  rw [allMembersForClassNamed, hinfo]
  dsimp only
  rw [hall, ClassManager.parent, hsuper]
  cases info.superName with
  | none =>
    rw [ite_self]
    rfl
  | some superName =>
    by_cases hfirst : kind = .action ∧ c = firstResponder
    · rw [if_pos hfirst]
      dsimp only
      rw [if_pos hfirst]
      rfl
    · rw [if_neg hfirst]
      dsimp only
      rw [if_neg hfirst]
      rfl

lemma Filled.fill {u : ClassManager} {c : Name} {all : List Name} (hc : s.isKnownClass c = true)
    (hnone : (s.members kind c).all = none) (hsame : SameClasses s u)
    (hmembers : ∀ other d, u.members other d = s.members other d ∨
      (other = kind ∧ TransGen (Above (s.parent kind)) c d ∧ s.isKnownClass d = true ∧
        (s.members kind d).all = none) ∧
        ∃ all : List Name, all.Nodup ∧ (∀ x, x ∈ all ↔ F d x) ∧
          u.members other d = { s.members other d with all := some all })
    (ha : Acyclic (s.parent kind)) (hnodup : all.Nodup) (hall : ∀ x, x ∈ all ↔ F c x) :
    Filled s (u.setAll kind c all) kind F c := by
  refine ⟨hsame.trans (sameClasses_setAll kind all), fun other d => ?_⟩
  have hself : u.members kind c = s.members kind c :=
    (hmembers kind c).elim id fun ⟨⟨_, hpath, _⟩, _⟩ => absurd hpath (ha c)
  rw [setAll_eq, members_modify]
  split
  · next hat =>
    obtain ⟨rfl, rfl, -⟩ := hat
    rw [hself]
    exact .inr ⟨⟨rfl, .refl, hc, hnone⟩, all, hnodup, hall, rfl⟩
  · exact (hmembers other d).imp id fun ⟨⟨hkind, hpath, hrest⟩, hfill⟩ =>
      ⟨⟨hkind, hpath.to_reflTransGen, hrest⟩, hfill⟩

lemma query_spec (ha : Acyclic s.superClassNameForClassNamed) {c : Name} {result : Option (List Name)}
    (hfits : ∀ d, ReflTransGen (Above (s.parent kind)) c d → s.isKnownClass d = true → Fits s kind F d)
    (hc : s.isKnownClass c = true) (h : allMembersForClassNamed kind depth s c = some (t, result)) :
    Filled s t kind F c ∧ ∃ all, result = some all ∧ all.Nodup ∧ ∀ x, x ∈ all ↔ F c x := by
  induction depth generalizing c t result with
  | zero => cases h
  | succ depth ih =>
    have hfit := hfits c .refl hc
    obtain ⟨info, hinfo⟩ := Option.isSome_iff_exists.mp hc
    have hmembers : s.members kind c = info.members kind := members_of_classInfo hinfo
    cases hall : (s.members kind c).all with
    | some all =>
      rw [hmembers] at hall
      rw [allMembersForClassNamed, hinfo] at h
      dsimp only at h
      rw [hall] at h
      cases h
      rw [← hmembers] at hall
      exact ⟨Filled.refl s kind F c, all, rfl, hfit.filled all hall⟩
    | none =>
      rw [allMembers_eq hinfo (hmembers ▸ hall)] at h
      obtain ⟨⟨u, superMembers⟩, hu, heq⟩ := Option.map_eq_some_iff.mp h
      cases heq
      have hparent := acyclic_parent kind ha
      have hempty := hfit.empty hall
      -- Without an answer from above there are the own lists only.
      have halone (hroot : ∀ p, s.parent kind c = some p → s.isKnownClass p = false) :
          (combine (info.members kind) none).Nodup ∧ ∀ x, x ∈ combine (info.members kind) none ↔ F c x := by
        refine ⟨nodup_combine (fun _ => hmembers ▸ hfit.root hall hroot) (fun _ h => nomatch h), fun x => ?_⟩
        rw [mem_combine, hempty, ← hmembers]
        refine or_congr_right ⟨fun h => absurd h List.not_mem_nil, fun ⟨p, hp, hknown, _⟩ => ?_⟩
        rw [hroot p hp] at hknown
        cases hknown
      cases hp : s.parent kind c with
      | none =>
        rw [hp] at hu
        cases hu
        obtain ⟨hnodup, hmem⟩ := halone fun p hp' => by rw [hp] at hp'; cases hp'
        exact ⟨Filled.fill hc hall (SameClasses.refl s) (fun _ _ => .inl rfl) hparent hnodup hmem, _, rfl, hnodup, hmem⟩
      | some p =>
        rw [hp] at hu
        change allMembersForClassNamed kind depth s p = some (u, superMembers) at hu
        have hup : Above (s.parent kind) c p := hp
        cases hknown : s.isKnownClass p with
        | false =>
          obtain ⟨rfl, rfl⟩ := allMembers_unknown hknown hu
          obtain ⟨hnodup, hmem⟩ := halone fun q hq => by
            rw [hp] at hq
            rwa [Option.some.inj hq] at hknown
          exact ⟨Filled.fill hc hall (SameClasses.refl _) (fun _ _ => .inl rfl) hparent hnodup hmem, _, rfl, hnodup,
            hmem⟩
        | true =>
          obtain ⟨hfilled, all, rfl, hnodup, hmem⟩ := ih (fun d hd => hfits d (.head hup hd)) hknown hu
          have hcombined : ∀ x, x ∈ combine (info.members kind) (some all) ↔ F c x := by
            intro x
            rw [mem_combine, hempty, Option.getD_some, hmem, ← hmembers]
            refine or_congr_right ⟨fun h => ⟨p, hp, hknown, h⟩, fun ⟨q, hq, _, h⟩ => ?_⟩
            rw [hp] at hq
            rwa [Option.some.inj hq]
          have hnodup' : (combine (info.members kind) (some all)).Nodup :=
            nodup_combine (fun h => by cases h) fun names h => by
              obtain rfl := Option.some.inj h
              exact hnodup
          refine ⟨Filled.fill hc hall hfilled.same (fun other d => ?_) hparent hnodup' hcombined, _, rfl, hnodup',
            hcombined⟩
          exact (hfilled.members other d).imp id fun ⟨⟨hkind, hpath, hrest⟩, hfill⟩ =>
            ⟨⟨hkind, TransGen.head' hup hpath, hrest⟩, hfill⟩

end Queries

end Xperimentum.Gorm
