import Xperimentum.Gorm.MemberLists

/-! The lists that are filled stay what a class should have: queries and new members. -/

namespace Xperimentum.Gorm

open Lib.Hierarchies Relation ClassManager

variable {s t u : ClassManager} {kind : MemberKind} {depth : ℕ}

lemma inherits_iff {c x : Name} :
    s.Inherits kind c x ↔ s.Defines kind c x ∨ ∃ p, s.parent kind c = some p ∧ s.Inherits kind p x := by
  constructor
  · intro h
    cases h with
    | own h => exact .inl h
    | super hp h => exact .inr ⟨_, hp, h⟩
  · rintro (h | ⟨p, hp, h⟩)
    · exact .own h
    · exact .super hp h

lemma known_of_defines {c x : Name} (h : s.Defines kind c x) : s.isKnownClass c = true := by
  by_contra hc
  rw [ClassManager.Defines, members_of_unknown (Bool.not_eq_true _ ▸ hc)] at h
  exact h.elim List.not_mem_nil List.not_mem_nil

lemma known_of_inherits {c x : Name} (h : s.Inherits kind c x) : s.isKnownClass c = true := by
  cases h with
  | own h => exact known_of_defines h
  | super hp h => exact known_of_parent hp

lemma inherits_of_path {c d x : Name} (hpath : ReflTransGen (Above (s.parent kind)) c d) (h : s.Inherits kind d x) :
    s.Inherits kind c x := by
  induction hpath using ReflTransGen.head_induction_on with
  | refl => exact h
  | head hup _ ih => exact .super hup ih

lemma path_of_inherits {c x : Name} (h : s.Inherits kind c x) :
    ∃ d, ReflTransGen (Above (s.parent kind)) c d ∧ s.Defines kind d x := by
  induction h with
  | own h => exact ⟨_, .refl, h⟩
  | super hp _ ih =>
    obtain ⟨d, hpath, hd⟩ := ih
    exact ⟨d, .head hp hpath, hd⟩

/-- Every filled list is right, and a class that inherits from no entry has no member twice. -/
structure ListsRight (s : ClassManager) : Prop where
  lists : ∀ kind c all, (s.members kind c).all = some all → all.Nodup ∧ ∀ x, x ∈ all ↔ s.Inherits kind c x
  roots : ∀ kind c, (s.members kind c).all = none →
    (∀ p, s.parent kind c = some p → s.isKnownClass p = false) → ((s.members kind c).own.getD []).Nodup

lemma ListsRight.fits (h : ListsRight s) (kind : MemberKind) (c : Name) : Fits s kind (s.Inherits kind) c where
  filled := h.lists kind c
  empty _ x := by
    rw [inherits_iff]
    refine or_congr_right ⟨fun ⟨p, hp, hx⟩ => ⟨p, hp, known_of_inherits hx, hx⟩, fun ⟨p, hp, _, hx⟩ => ⟨p, hp, hx⟩⟩
  root := h.roots kind c

/-- A query ends, and its answer is the class's own members with those of all classes above it. -/
structure QueriesExact (s : ClassManager) : Prop where
  ends : ∀ kind c, ∃ depth, (allMembersForClassNamed kind depth s c).isSome = true
  answer : ∀ kind c depth t all, allMembersForClassNamed kind depth s c = some (t, some all) →
    all.Nodup ∧ ∀ x, x ∈ all ↔ s.Inherits kind c x
  nothing : ∀ kind c depth t, allMembersForClassNamed kind depth s c = some (t, none) → s.isKnownClass c = false

lemma ListsRight.queriesExact (h : ListsRight s) (ha : Acyclic s.superClassNameForClassNamed) : QueriesExact s where
  ends kind c := ⟨_, allMembers_isSome ha (le_refl _) kind c⟩
  answer kind c depth t all hquery := by
    cases hc : s.isKnownClass c with
    | false =>
      have hnone := (allMembers_unknown hc hquery).2
      cases hnone
    | true =>
      obtain ⟨-, all', heq, hall⟩ := query_spec ha (fun d _ _ => h.fits kind d) hc hquery
      obtain rfl := Option.some.inj heq
      exact hall
  nothing kind c depth t hquery := by
    by_contra hc
    obtain ⟨-, all', heq, -⟩ := query_spec ha (fun d _ _ => h.fits kind d) (Bool.not_eq_false _ ▸ hc) hquery
    cases heq

/-! Filling lists. -/

/-- The same classes with the same own members. -/
structure SameMembers (s t : ClassManager) : Prop where
  same : SameClasses s t
  own : ∀ kind c, (t.members kind c).own = (s.members kind c).own
  extra : ∀ kind c, (t.members kind c).extra = (s.members kind c).extra

lemma SameMembers.defines (h : SameMembers s t) (kind : MemberKind) (c x : Name) :
    t.Defines kind c x ↔ s.Defines kind c x := by
  rw [ClassManager.Defines, ClassManager.Defines, h.own, h.extra]

lemma inherits_mono (hparent : t.parent kind = s.parent kind) {x : Name}
    (hdefines : ∀ c, s.Defines kind c x → t.Defines kind c x) {c : Name} (h : s.Inherits kind c x) :
    t.Inherits kind c x := by
  obtain ⟨d, hpath, hd⟩ := path_of_inherits h
  rw [← hparent] at hpath
  exact inherits_of_path hpath (.own (hdefines d hd))

lemma inherits_congr_of (hparent : t.parent kind = s.parent kind)
    (hdefines : ∀ c x, t.Defines kind c x ↔ s.Defines kind c x) (c x : Name) :
    t.Inherits kind c x ↔ s.Inherits kind c x :=
  ⟨inherits_mono hparent.symm fun c => (hdefines c x).mp, inherits_mono hparent fun c => (hdefines c x).mpr⟩

lemma SameMembers.inherits (h : SameMembers s t) (kind : MemberKind) (c x : Name) :
    t.Inherits kind c x ↔ s.Inherits kind c x :=
  inherits_congr_of (parent_congr h.same kind) (h.defines kind) c x

lemma Filled.sameMembers {F : Name → Name → Prop} {c : Name} (h : Filled s t kind F c) : SameMembers s t := by
  refine ⟨h.same, fun other d => ?_, fun other d => ?_⟩
  · rcases h.members other d with heq | ⟨-, all, -, -, heq⟩
    · rw [heq]
    · rw [heq]
  · rcases h.members other d with heq | ⟨-, all, -, -, heq⟩
    · rw [heq]
    · rw [heq]

lemma ListsRight.of_filled {c : Name} (h : ListsRight s) (hfilled : Filled s t kind (s.Inherits kind) c) :
    ListsRight t := by
  have hsame := hfilled.sameMembers
  constructor
  · intro other d all hall
    rcases hfilled.members other d with heq | ⟨⟨rfl, -, -⟩, all', hnodup, hmem, heq⟩
    · rw [heq] at hall
      obtain ⟨hnodup, hmem⟩ := h.lists other d all hall
      exact ⟨hnodup, fun x => (hmem x).trans (hsame.inherits other d x).symm⟩
    · rw [heq] at hall
      obtain rfl := Option.some.inj hall
      exact ⟨hnodup, fun x => (hmem x).trans (hsame.inherits other d x).symm⟩
  · intro other d hnone hroot
    rw [hsame.own]
    rw [parent_congr hsame.same] at hroot
    refine h.roots other d ?_ fun p hp => isKnownClass_congr hsame.same p ▸ hroot p hp
    rcases hfilled.members other d with heq | ⟨-, all', -, -, heq⟩
    · rw [← heq]
      exact hnone
    · rw [heq] at hnone
      cases hnone

lemma ListsRight.query (h : ListsRight s) (ha : Acyclic s.superClassNameForClassNamed) {c : Name}
    {result : Option (List Name)} (hquery : allMembersForClassNamed kind depth s c = some (t, result)) :
    ListsRight t := by
  cases hc : s.isKnownClass c with
  | false =>
    obtain ⟨rfl, -⟩ := allMembers_unknown hc hquery
    exact h
  | true => exact h.of_filled (query_spec ha (fun d _ _ => h.fits kind d) hc hquery).1

/-! All subclasses. -/

lemma mem_flatten_mapM {α β : Type*} {f : α → Option (List β)} {l : List α} {ls : List (List β)}
    (h : l.mapM f = some ls) {b : β} : b ∈ ls.flatten ↔ ∃ a ∈ l, ∃ r, f a = some r ∧ b ∈ r := by
  induction l generalizing ls with
  | nil =>
    cases h
    simp
  | cons a l ih =>
    rw [List.mapM_cons] at h
    obtain ⟨r, hr, h⟩ := Option.bind_eq_some_iff.mp h
    obtain ⟨rs, hrs, heq⟩ := Option.bind_eq_some_iff.mp h
    cases heq
    rw [List.flatten_cons, List.mem_append, ih hrs]
    constructor
    · rintro (hb | ⟨c, hc, hrest⟩)
      · exact ⟨a, List.mem_cons_self, r, hr, hb⟩
      · exact ⟨c, List.mem_cons_of_mem a hc, hrest⟩
    · rintro ⟨c, hc, r', hr', hb⟩
      rcases List.mem_cons.mp hc with rfl | hc
      · rw [hr] at hr'
        cases hr'
        exact .inl hb
      · exact .inr ⟨c, hc, r', hr', hb⟩

lemma some_of_mapM {α β : Type*} {f : α → Option β} {l : List α} {ls : List β} (h : l.mapM f = some ls) :
    ∀ a ∈ l, ∃ b, f a = some b := by
  induction l generalizing ls with
  | nil => exact fun a ha => absurd ha List.not_mem_nil
  | cons a l ih =>
    rw [List.mapM_cons] at h
    obtain ⟨b, hb, h⟩ := Option.bind_eq_some_iff.mp h
    obtain ⟨bs, hbs, -⟩ := Option.bind_eq_some_iff.mp h
    exact List.forall_mem_cons.mpr ⟨⟨b, hb⟩, ih hbs⟩

lemma mem_allSubclassesInto {c d : Name} {classes : List Name}
    (h : s.allSubclassesInto s.classInformation.keys depth (some c) = some classes) :
    d ∈ classes ↔ TransGen (Above s.superClassNameForClassNamed) d c := by
  induction depth generalizing c d classes with
  | zero => cases h
  | succ depth ih =>
    rw [allSubclassesInto] at h
    obtain ⟨ls, hls, rfl⟩ := Option.map_eq_some_iff.mp h
    rw [mem_flatten_mapM hls]
    constructor
    · rintro ⟨e, -, r, hr, hd⟩
      split at hr
      · next hsuper =>
        obtain ⟨below, hbelow, rfl⟩ := Option.map_eq_some_iff.mp hr
        rcases List.mem_cons.mp hd with rfl | hd
        · exact .single hsuper
        · exact .tail ((ih hbelow).mp hd) hsuper
      · cases hr
        cases hd
    · intro hpath
      obtain ⟨e, hde, hsuper⟩ := TransGen.tail'_iff.mp hpath
      have hkey : e ∈ s.classInformation.keys := mem_keys_iff.mpr (known_of_super hsuper)
      have hsuper : s.superClassNameForClassNamed e = some c := hsuper
      obtain ⟨r, hr⟩ := some_of_mapM hls e hkey
      have hbranch := hr
      rw [if_pos hsuper] at hbranch
      obtain ⟨below, hbelow, rfl⟩ := Option.map_eq_some_iff.mp hbranch
      refine ⟨e, hkey, e :: below, hr, ?_⟩
      rcases reflTransGen_iff_eq_or_transGen.mp hde with rfl | hde
      · exact List.mem_cons_self
      · exact List.mem_cons_of_mem e ((ih hbelow).mpr hde)

lemma mem_allSubclassesOf {c d : Name} {classes : List Name}
    (h : s.allSubclassesOf depth (some c) = some classes) :
    d ∈ classes ↔ TransGen (Above s.superClassNameForClassNamed) d c := by
  obtain ⟨into, hinto, rfl⟩ := Option.map_eq_some_iff.mp h
  rw [sortCaseInsensitive, (List.perm_insertionSort _ _).mem_iff, mem_allSubclassesInto hinto]

/-! New members. -/

/-- One more member for some classes, merged into the filled lists of others. -/
structure Grown (s t : ClassManager) (kind : MemberKind) (member : Name) (defined merged : Name → Prop) : Prop where
  same : SameClasses s t
  other : ∀ other d, other ≠ kind → t.members other d = s.members other d
  own : ∀ d, (t.members kind d).own = (s.members kind d).own
  extra : ∀ d x, x ∈ (t.members kind d).extra.getD [] ↔
    x ∈ (s.members kind d).extra.getD [] ∨ x = member ∧ defined d
  empty : ∀ d, (s.members kind d).all = none → (t.members kind d).all = none
  filled : ∀ d all, (s.members kind d).all = some all → ∃ all', (t.members kind d).all = some all' ∧
    (all.Nodup → all'.Nodup) ∧ ∀ x, x ∈ all' ↔ x ∈ all ∨ x = member ∧ merged d

section Grown

variable {member : Name} {defined merged defined' merged' : Name → Prop}

lemma Grown.refl (s : ClassManager) (kind : MemberKind) (member : Name) :
    Grown s s kind member (fun _ => False) fun _ => False where
  same := SameClasses.refl s
  other _ _ _ := rfl
  own _ := rfl
  extra _ _ := by simp
  empty _ h := h
  filled d all h := ⟨all, h, id, by simp⟩

lemma Grown.trans (h : Grown s t kind member defined merged) (h' : Grown t u kind member defined' merged') :
    Grown s u kind member (fun d => defined d ∨ defined' d) fun d => merged d ∨ merged' d where
  same := h.same.trans h'.same
  other other d hne := (h'.other other d hne).trans (h.other other d hne)
  own d := (h'.own d).trans (h.own d)
  extra d x := by rw [h'.extra, h.extra, or_assoc, and_or_left]
  empty d hnone := h'.empty d (h.empty d hnone)
  filled d all hall := by
    obtain ⟨all', hall', hnodup, hmem⟩ := h.filled d all hall
    obtain ⟨all'', hall'', hnodup', hmem'⟩ := h'.filled d all' hall'
    refine ⟨all'', hall'', hnodup' ∘ hnodup, fun x => ?_⟩
    rw [hmem', hmem, or_assoc, and_or_left]

lemma grown_mergeAll (member c : Name) :
    Grown s (s.modifyMembers kind c fun members =>
      { members with all := members.all.map fun all => mergeObject all member }) kind member (fun _ => False)
      fun d => d = c where
  same := sameClasses_modifyMembers _
  other other d hne := by rw [members_modify, if_neg fun h => hne h.1]
  own d := by
    rw [members_modify]
    split
    · next h => rw [h.2.1]
    · rfl
  extra d x := by
    rw [members_modify]
    split
    · next h => simp [h.2.1]
    · simp
  empty d hnone := by
    rw [members_modify]
    split
    · next h =>
      rw [h.2.1] at hnone
      rw [hnone]
      rfl
    · exact hnone
  filled d all hall := by
    by_cases hd : d = c
    · have hknown : s.isKnownClass c = true := by
        by_contra hunknown
        rw [hd, members_of_unknown (Bool.not_eq_true _ ▸ hunknown)] at hall
        cases hall
      refine ⟨mergeObject all member, ?_, nodup_mergeObject, fun x => ?_⟩
      · rw [members_modify, if_pos ⟨rfl, hd, hknown⟩, ← hd, hall]
        rfl
      · rw [mem_mergeObject]
        simp [hd]
    · refine ⟨all, ?_, id, fun x => by simp [hd]⟩
      rw [members_modify, if_neg fun h => hd h.2.1]
      exact hall

lemma grown_mergeInto (kind : MemberKind) (member : Name) (classes : List Name) (s : ClassManager) :
    Grown s (classes.foldl (fun s subclassName =>
      s.modify subclassName fun info =>
        info.setMembers kind
          { info.members kind with all := (info.members kind).all.map fun all => mergeObject all member }) s)
      kind member (fun _ => False) fun d => d ∈ classes := by
  induction classes generalizing s with
  | nil => simpa using Grown.refl s kind member
  | cons c classes ih =>
    have h := (grown_mergeAll member c : Grown s _ kind member _ _).trans (ih _)
    simp only [or_self, ← List.mem_cons] at h
    exact h

lemma Grown.defines (h : Grown s t kind member defined merged) (d x : Name) :
    t.Defines kind d x ↔ s.Defines kind d x ∨ x = member ∧ defined d := by
  rw [ClassManager.Defines, h.own, h.extra, ClassManager.Defines, or_assoc]

lemma Grown.inherits (h : Grown s t kind member defined merged) (d x : Name) :
    t.Inherits kind d x ↔ s.Inherits kind d x ∨
      x = member ∧ ∃ e, ReflTransGen (Above (s.parent kind)) d e ∧ defined e := by
  constructor
  · intro hx
    obtain ⟨e, hpath, he⟩ := path_of_inherits hx
    rw [parent_congr h.same] at hpath
    rcases (h.defines e x).mp he with he | ⟨rfl, he⟩
    · exact .inl (inherits_of_path hpath (.own he))
    · exact .inr ⟨rfl, e, hpath, he⟩
  · rintro (hx | ⟨rfl, e, hpath, he⟩)
    · obtain ⟨e, hpath, he⟩ := path_of_inherits hx
      rw [← parent_congr h.same] at hpath
      exact inherits_of_path hpath (.own ((h.defines e x).mpr (.inl he)))
    · rw [← parent_congr h.same] at hpath
      exact inherits_of_path hpath (.own ((h.defines e x).mpr (.inr ⟨rfl, he⟩)))

lemma Grown.otherInherits (h : Grown s t kind member defined merged) {other : MemberKind} (hne : other ≠ kind)
    (d x : Name) : t.Inherits other d x ↔ s.Inherits other d x := by
  refine inherits_congr_of (parent_congr h.same other) (fun c y => ?_) d x
  rw [ClassManager.Defines, h.other other c hne, ClassManager.Defines]

lemma ListsRight.grown (hs : ListsRight s) (h : Grown s t kind member defined merged)
    (hmerged : ∀ d all, (s.members kind d).all = some all →
      (merged d → s.Inherits kind d member ∨ ∃ e, ReflTransGen (Above (s.parent kind)) d e ∧ defined e) ∧
      ∀ e, ReflTransGen (Above (s.parent kind)) d e → defined e → s.Inherits kind d member ∨ merged d) :
    ListsRight t := by
  constructor
  · intro other d all hall
    by_cases hkind : other = kind
    · subst hkind
      cases hold : (s.members other d).all with
      | none =>
        rw [h.empty d hold] at hall
        cases hall
      | some old =>
        obtain ⟨all', hall', hnodup, hmem⟩ := h.filled d old hold
        rw [hall] at hall'
        obtain rfl := Option.some.inj hall'
        obtain ⟨hnodup', hmem'⟩ := hs.lists other d old hold
        obtain ⟨hin, hout⟩ := hmerged d old hold
        refine ⟨hnodup hnodup', fun x => ?_⟩
        rw [hmem, hmem', h.inherits]
        constructor
        · rintro (hx | ⟨rfl, hd⟩)
          · exact .inl hx
          · exact (hin hd).imp id fun he => ⟨rfl, he⟩
        · rintro (hx | ⟨rfl, e, hpath, he⟩)
          · exact .inl hx
          · exact (hout e hpath he).imp id fun hd => ⟨rfl, hd⟩
    · rw [h.other other d hkind] at hall
      obtain ⟨hnodup, hmem⟩ := hs.lists other d all hall
      exact ⟨hnodup, fun x => (hmem x).trans (h.otherInherits hkind d x).symm⟩
  · intro other d hnone hroot
    rw [parent_congr h.same] at hroot
    have hroot' : ∀ p, s.parent other d = some p → s.isKnownClass p = false :=
      fun p hp => isKnownClass_congr h.same p ▸ hroot p hp
    by_cases hkind : other = kind
    · subst hkind
      rw [h.own]
      refine hs.roots other d ?_ hroot'
      cases hold : (s.members other d).all with
      | none => rfl
      | some old =>
        obtain ⟨all', hall', -⟩ := h.filled d old hold
        rw [hall'] at hnone
        cases hnone
    · rw [h.other other d hkind] at hnone ⊢
      exact hs.roots other d hnone hroot'

lemma grown_addExtra (kind : MemberKind) (member c : Name) :
    Grown s (s.modifyMembers kind c fun members =>
      { members with
        extra := some (mergeObject ((s.members kind c).extra.getD []) member)
        all := (s.members kind c).all.map fun all => mergeObject all member }) kind member
      (fun d => d = c ∧ s.isKnownClass c = true) fun d => d = c where
  same := sameClasses_modifyMembers _
  other other d hne := by rw [members_modify, if_neg fun h => hne h.1]
  own d := by
    rw [members_modify]
    split
    · next h => rw [h.2.1]
    · rfl
  extra d x := by
    rw [members_modify]
    by_cases hd : d = c ∧ s.isKnownClass c = true
    · rw [if_pos ⟨rfl, hd⟩, hd.1, Option.getD_some, mem_mergeObject]
      simp [hd.2]
    · rw [if_neg fun h => hd h.2]
      simp [hd]
  empty d hnone := by
    rw [members_modify]
    split
    · next h =>
      rw [h.2.1] at hnone
      rw [hnone]
      rfl
    · exact hnone
  filled d all hall := by
    by_cases hd : d = c
    · have hknown : s.isKnownClass c = true := by
        by_contra hunknown
        rw [hd, members_of_unknown (Bool.not_eq_true _ ▸ hunknown)] at hall
        cases hall
      refine ⟨mergeObject all member, ?_, nodup_mergeObject, fun x => ?_⟩
      · rw [members_modify, if_pos ⟨rfl, hd, hknown⟩, ← hd, hall]
        rfl
      · rw [mem_mergeObject]
        simp [hd]
    · refine ⟨all, ?_, id, fun x => by simp [hd]⟩
      rw [members_modify, if_neg fun h => hd h.2.1]
      exact hall

lemma addMember_cases {mirror : ClassManager → Option ClassManager} {c : Name}
    (h : addMember kind mirror depth s member c = some t) :
    member ∈ (s.members kind c).all.getD [] ∧ t = s ∨
      ∃ u v, Grown s u kind member (fun d => d = c ∧ s.isKnownClass c = true) (fun d => d = c) ∧ mirror u = some v ∧
        Grown v t kind member (fun _ => False) fun d => TransGen (Above s.superClassNameForClassNamed) d c := by
  obtain ⟨subClasses, hsub, h⟩ := Option.bind_eq_some_iff.mp h
  dsimp only at h
  split at h
  · next hmem =>
    cases h
    exact .inl ⟨hmem, rfl⟩
  · obtain ⟨v, hv, rfl⟩ := Option.map_eq_some_iff.mp h
    refine .inr ⟨_, v, ?_, hv, ?_⟩
    · split
      · obtain ⟨⟨hhierarchy, hkeys⟩, hother, hown, hextra, hempty, hfilled⟩ :=
          grown_addExtra (s := { s with categoryClasses := s.categoryClasses ++ [c] }) kind member c
        exact ⟨⟨hhierarchy, hkeys⟩, hother, hown, hextra, hempty, hfilled⟩
      · exact grown_addExtra kind member c
    · simp only [← mem_allSubclassesOf hsub]
      exact grown_mergeInto kind member subClasses v

def IsFirst (kind : MemberKind) (d : Name) : Prop := kind = .action ∧ d = firstResponder

/-- The first responder inherits nothing in the table either. -/
def FirstAlone (s : ClassManager) (kind : MemberKind) : Prop :=
  kind = .action → s.superClassNameForClassNamed firstResponder = none

lemma FirstAlone.parent (h : FirstAlone s kind) : s.parent kind = s.superClassNameForClassNamed := by
  funext c
  rw [ClassManager.parent]
  split
  · next hfirst => rw [hfirst.2, h hfirst.1]
  · rfl

/-- No class below has a filled list. -/
def Unfilled (s : ClassManager) (kind : MemberKind) (c : Name) : Prop :=
  ∀ d, TransGen (Above s.superClassNameForClassNamed) d c → (s.members kind d).all = none

lemma super_path {c d : Name} (h : ReflTransGen (Above (s.parent kind)) d c) :
    ReflTransGen (Above s.superClassNameForClassNamed) d c :=
  ReflTransGen.mono (fun _ _ => super_of_parent) d c h

lemma parent_path (kind : MemberKind) {c d : Name} (h : ReflTransGen (Above s.superClassNameForClassNamed) d c) :
    ReflTransGen (Above (s.parent kind)) d c ∨
      kind = .action ∧ ReflTransGen (Above (s.parent kind)) d firstResponder := by
  induction h using ReflTransGen.head_induction_on with
  | refl => exact .inl .refl
  | @head a b hup _ ih =>
    by_cases hfirst : kind = .action ∧ a = firstResponder
    · obtain ⟨hkind, rfl⟩ := hfirst
      exact .inr ⟨hkind, .refl⟩
    · have hparent : Above (s.parent kind) a b := by
        rw [Above, ClassManager.parent, if_neg hfirst]
        exact hup
      refine ih.imp (.head hparent) fun hpath => ?_
      exact ⟨hpath.1, .head hparent hpath.2⟩

lemma parent_path_firstResponder {d : Name}
    (h : ReflTransGen (Above s.superClassNameForClassNamed) d firstResponder) :
    ReflTransGen (Above (s.parent kind)) d firstResponder :=
  (parent_path kind h).elim id And.right

lemma known_of_filled {d : Name} {all : List Name} (h : (s.members kind d).all = some all) :
    s.isKnownClass d = true := by
  by_contra hunknown
  rw [members_of_unknown (Bool.not_eq_true _ ▸ hunknown)] at h
  cases h

lemma known_of_below {c d : Name} {all : List Name} (hc : s.isKnownClass c = true ∨ Unfilled s kind c)
    (hall : (s.members kind d).all = some all) (h : ReflTransGen (Above s.superClassNameForClassNamed) d c) :
    s.isKnownClass c = true := by
  rcases reflTransGen_iff_eq_or_transGen.mp h with rfl | hbelow
  · exact known_of_filled hall
  · refine hc.resolve_right fun hunfilled => ?_
    rw [hunfilled d hbelow] at hall
    cases hall

lemma ListsRight.addOutlet {outlet c : Name} (hs : ListsRight s)
    (hc : s.isKnownClass c = true ∨ Unfilled s .outlet c) (h : addOutlet depth s outlet c = some t) :
    ListsRight t := by
  rcases addMember_cases h with ⟨-, rfl⟩ | ⟨u, v, hu, hv, ht⟩
  · exact hs
  · obtain rfl := Option.some.inj hv
    refine hs.grown (hu.trans ht) fun d all hall => ⟨fun hd => .inr ?_, fun e hpath he => .inr ?_⟩
    · have hbelow : ReflTransGen (Above s.superClassNameForClassNamed) d c := by
        rcases hd with rfl | hd
        · exact .refl
        · exact hd.to_reflTransGen
      have hpath := (parent_path .outlet hbelow).resolve_right fun h => nomatch h.1
      exact ⟨c, hpath, .inl ⟨rfl, known_of_below hc hall hbelow⟩⟩
    · obtain ⟨rfl, -⟩ := he.resolve_right id
      exact (reflTransGen_iff_eq_or_transGen.mp (super_path hpath)).imp Eq.symm id

lemma merged_firstResponder {d : Name} {all : List Name}
    (hfirst : s.isKnownClass firstResponder = true ∨ Unfilled s .action firstResponder)
    (hall : (s.members .action d).all = some all)
    (h : ReflTransGen (Above s.superClassNameForClassNamed) d firstResponder) :
    ∃ e, ReflTransGen (Above (s.parent .action)) d e ∧ e = firstResponder ∧
      s.isKnownClass firstResponder = true :=
  ⟨firstResponder, parent_path_firstResponder h, rfl, known_of_below hfirst hall h⟩

lemma atOrBelow_of {c d : Name} (h : d = c ∨ TransGen (Above s.superClassNameForClassNamed) d c) :
    ReflTransGen (Above s.superClassNameForClassNamed) d c := by
  rcases h with rfl | h
  · exact .refl
  · exact h.to_reflTransGen

lemma of_atOrBelow {c d : Name} (h : ReflTransGen (Above s.superClassNameForClassNamed) d c) :
    d = c ∨ TransGen (Above s.superClassNameForClassNamed) d c :=
  (reflTransGen_iff_eq_or_transGen.mp h).imp Eq.symm id

lemma ListsRight.addAction {action c : Name} (hs : ListsRight s)
    (hc : s.isKnownClass c = true ∨ Unfilled s .action c)
    (hfirst : s.isKnownClass firstResponder = true ∨ Unfilled s .action firstResponder)
    (h : addAction depth s action c = some t) : ListsRight t := by
  rcases addMember_cases h with ⟨-, rfl⟩ | ⟨u, v, hu, hv, ht⟩
  · exact hs
  split at hv
  · next hc =>
    obtain rfl := Option.some.inj hv
    subst hc
    refine hs.grown (hu.trans ht) fun d all hall => ⟨fun hd => .inr ?_, fun e hpath he => .inr ?_⟩
    · obtain ⟨e, hpath, rfl, hknown⟩ := merged_firstResponder hfirst hall (atOrBelow_of hd)
      exact ⟨_, hpath, .inl ⟨rfl, hknown⟩⟩
    · obtain ⟨rfl, -⟩ := he.resolve_right id
      exact of_atOrBelow (super_path hpath)
  · next hne =>
    rcases addMember_cases hv with ⟨hmem, rfl⟩ | ⟨w, x, hw, hx, hv⟩
    · -- The first responder has the action, and with it all classes below.
      have hhas : s.Inherits .action firstResponder action := by
        cases hlist : (s.members .action firstResponder).all with
        | none =>
          rw [hu.empty firstResponder hlist] at hmem
          cases hmem
        | some all =>
          obtain ⟨all', hall', -, hall⟩ := hu.filled firstResponder all hlist
          rw [hall', Option.getD_some, hall] at hmem
          exact ((hs.lists _ _ all hlist).2 action).mp (hmem.resolve_right fun h => hne h.2.symm)
      refine hs.grown (hu.trans ht) fun d all hall => ⟨fun hd => ?_, fun e hpath he => .inr ?_⟩
      · have hbelow := atOrBelow_of hd
        rcases parent_path .action hbelow with hpath | ⟨-, hpath⟩
        · exact .inr ⟨c, hpath, .inl ⟨rfl, known_of_below hc hall hbelow⟩⟩
        · exact .inl (inherits_of_path hpath hhas)
      · obtain ⟨rfl, -⟩ := he.resolve_right id
        exact of_atOrBelow (super_path hpath)
    · obtain rfl := Option.some.inj hx
      have hsuper := superClassName_congr hu.same.hierarchy
      have hknown := isKnownClass_congr hu.same
      rw [hsuper] at hv
      refine hs.grown (hu.trans ((hw.trans hv).trans ht)) fun d all hall => ⟨fun hd => .inr ?_, fun e hpath he => .inr ?_⟩
      · rcases hd with hd | (hd | hd) | hd
        · subst hd
          exact ⟨d, .refl, .inl ⟨rfl, known_of_filled hall⟩⟩
        · obtain ⟨e, hpath, he⟩ := merged_firstResponder hfirst hall (atOrBelow_of (.inl hd))
          exact ⟨e, hpath, .inr (.inl (.inl ⟨he.1, hknown firstResponder ▸ he.2⟩))⟩
        · obtain ⟨e, hpath, he⟩ := merged_firstResponder hfirst hall (atOrBelow_of (.inr hd))
          exact ⟨e, hpath, .inr (.inl (.inl ⟨he.1, hknown firstResponder ▸ he.2⟩))⟩
        · have hbelow := atOrBelow_of (.inr hd)
          rcases parent_path .action hbelow with hpath | ⟨-, hpath⟩
          · exact ⟨c, hpath, .inl ⟨rfl, known_of_below hc hall hbelow⟩⟩
          · obtain ⟨e, hpath, he⟩ := merged_firstResponder hfirst hall (super_path hpath)
            exact ⟨e, hpath, .inr (.inl (.inl ⟨he.1, hknown firstResponder ▸ he.2⟩))⟩
      · rcases he with ⟨rfl, -⟩ | (⟨rfl, -⟩ | he) | he
        · exact (of_atOrBelow (super_path hpath)).imp id fun h => .inr h
        · exact .inr (.inl (of_atOrBelow (super_path hpath)))
        · exact he.elim
        · exact he.elim

end Grown

end Xperimentum.Gorm
