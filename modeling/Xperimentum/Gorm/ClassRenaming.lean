import Xperimentum.Gorm.ClassChanges

/-! Renaming a class keeps the filled lists right. -/

namespace Xperimentum.Gorm

open Lib.Hierarchies Relation ClassManager

variable {s t u v : ClassManager} {kind : MemberKind} {depth : ℕ} {oldName newName c d x : Name} {left : List Name}

/-- The name that a class had before. -/
def former (oldName newName c : Name) : Name := if c = newName then oldName else c

/-- The table on the way to the new name. -/
structure RenamedLists (s u : ClassManager) (oldName newName : Name) (left : List Name) : Prop extends
    Renaming s u oldName newName left where
  kept : ∀ c p, u.isKnownClass c = true → s.superClassNameForClassNamed (former oldName newName c) = some p →
    ∃ q, u.superClassNameForClassNamed c = some q ∧ former oldName newName q = p
  own : ∀ kind c, u.isKnownClass c = true →
    (u.members kind c).own = (s.members kind (former oldName newName c)).own
  extra : ∀ kind c, u.isKnownClass c = true →
    (u.members kind c).extra = (s.members kind (former oldName newName c)).extra
  lists : ∀ kind c all, (u.members kind c).all = some all → all.Nodup ∧
    ∀ x, x ∈ all ↔ s.Inherits kind (former oldName newName c) x
  roots : ∀ kind c, u.isKnownClass c = true → (u.members kind c).all = none →
    (∀ p, s.parent kind (former oldName newName c) = some p → s.isKnownClass p = false) →
    ((u.members kind c).own.getD []).Nodup

/-- The first responder inherits nothing, before and afterwards. -/
def FirstApart (s : ClassManager) (oldName newName : Name) : Prop :=
  s.superClassNameForClassNamed firstResponder = none ∧
    (newName = firstResponder → s.superClassNameForClassNamed oldName = none)

lemma firstAlone_of (kind : MemberKind) (h : s.superClassNameForClassNamed firstResponder = none) :
    s.parent kind = s.superClassNameForClassNamed :=
  FirstAlone.parent fun _ => h

lemma Renaming.firstAlone (h : Renaming s u oldName newName left) (hfirst : FirstApart s oldName newName) :
    u.superClassNameForClassNamed firstResponder = none := by
  cases hp : u.superClassNameForClassNamed firstResponder with
  | none => rfl
  | some p =>
    have hsuper := h.super firstResponder p hp
    split at hsuper
    · next hname =>
      rw [hfirst.2 hname.symm] at hsuper
      cases hsuper
    · rw [hfirst.1] at hsuper
      cases hsuper

lemma RenamedLists.step_up (h : RenamedLists s u oldName newName left) (hc : u.isKnownClass c = true)
    (hleft : c ∉ left) {p : Name} (hp : s.superClassNameForClassNamed (former oldName newName c) = some p) :
    ∃ q, u.superClassNameForClassNamed c = some q ∧ former oldName newName q = p ∧
      (s.isKnownClass p = true → u.isKnownClass q = true) := by
  obtain ⟨q, hq, heq⟩ := h.kept c p hc hp
  refine ⟨q, hq, heq, fun hknown => (h.known q).mpr ?_⟩
  by_cases hqnew : q = newName
  · exact .inl hqnew
  · rw [former, if_neg hqnew] at heq
    refine .inr ⟨?_, heq ▸ hknown⟩
    rintro rfl
    exact hleft (h.left c hq)

lemma RenamedLists.defines (h : RenamedLists s u oldName newName left) (hc : u.isKnownClass c = true) :
    u.Defines kind c x ↔ s.Defines kind (former oldName newName c) x := by
  rw [ClassManager.Defines, ClassManager.Defines, h.own kind c hc, h.extra kind c hc]

lemma RenamedLists.root (h : RenamedLists s u oldName newName left) (hfirst : FirstApart s oldName newName)
    (hc : u.isKnownClass c = true) (hleft : c ∉ left) (hnone : (u.members kind c).all = none)
    (hroot : ∀ p, u.parent kind c = some p → u.isKnownClass p = false) :
    ((u.members kind c).own.getD []).Nodup := by
  refine h.roots kind c hc hnone fun p hp => ?_
  rw [firstAlone_of kind hfirst.1] at hp
  obtain ⟨q, hq, -, hknown⟩ := h.step_up hc hleft hp
  rw [firstAlone_of kind (h.firstAlone hfirst)] at hroot
  by_contra hp
  have hnot := hroot q hq
  rw [hknown (Bool.not_eq_false _ ▸ hp)] at hnot
  cases hnot

lemma RenamedLists.fits (h : RenamedLists s u oldName newName left) (hfirst : FirstApart s oldName newName)
    (hc : u.isKnownClass c = true) (hleft : c ∉ left) :
    Fits u kind (fun d => s.Inherits kind (former oldName newName d)) c where
  filled := h.lists kind c
  empty _ x := by
    rw [inherits_iff, h.defines hc]
    refine or_congr_right ⟨fun ⟨p, hp, hx⟩ => ?_, fun ⟨q, hq, _, hx⟩ => ?_⟩
    · rw [firstAlone_of kind hfirst.1] at hp
      obtain ⟨q, hq, heq, hknown⟩ := h.step_up hc hleft hp
      rw [firstAlone_of kind (h.firstAlone hfirst)]
      refine ⟨q, hq, hknown (known_of_inherits hx), ?_⟩
      rw [heq]
      exact hx
    · rw [firstAlone_of kind (h.firstAlone hfirst)] at hq
      refine ⟨former oldName newName q, ?_, hx⟩
      rw [firstAlone_of kind hfirst.1]
      exact h.super c q hq
  root := h.root hfirst hc hleft

lemma Renaming.done_above (h : Renaming s u oldName newName left) (ha : Acyclic s.superClassNameForClassNamed)
    {sc : Name} (hsc : s.superClassNameForClassNamed sc = some oldName) (hscnew : sc ≠ newName) (hleft : sc ∉ left)
    (hold : ∀ c ∈ left, s.superClassNameForClassNamed c = some oldName ∧ c ≠ newName)
    (hpath : ReflTransGen (Above u.superClassNameForClassNamed) sc d) : d ∉ left := by
  intro hd
  obtain ⟨hsuper, hdnew⟩ := hold d hd
  rcases reflTransGen_iff_eq_or_transGen.mp hpath with rfl | hpath
  · exact hleft hd
  · have hlift := TransGen.lift (p := Above s.superClassNameForClassNamed) (former oldName newName) h.super _ _ hpath
    rw [Function.onFun, former, former, if_neg hscnew, if_neg hdnew] at hlift
    obtain ⟨b, hb, hbd⟩ := TransGen.head'_iff.mp hlift
    rw [Above, hsc] at hb
    obtain rfl := Option.some.inj hb
    exact ha oldName (TransGen.tail' hbd hsuper)

lemma RenamedLists.filled {F : Name → Name → Prop} (h : RenamedLists s u oldName newName left)
    (hF : F = fun d => s.Inherits kind (former oldName newName d)) (hfilled : Filled u v kind F c) :
    RenamedLists s v oldName newName left := by
  have hsame := hfilled.sameMembers
  have hsuper := superClassName_congr hsame.same.hierarchy
  have hknown := isKnownClass_congr hsame.same
  refine ⟨⟨fun d => ?_, fun d p hp => ?_, fun d hd => ?_⟩, fun d p hd hp => ?_, fun other d hd => ?_,
    fun other d hd => ?_, fun other d all hall => ?_, fun other d hd hnone hroot => ?_⟩
  · rw [hknown]
    exact h.known d
  · rw [hsuper] at hp
    exact h.super d p hp
  · rw [hsuper] at hd
    exact h.left d hd
  · rw [hknown] at hd
    rw [hsuper]
    exact h.kept d p hd hp
  · rw [hknown] at hd
    rw [hsame.own, h.own other d hd]
  · rw [hknown] at hd
    rw [hsame.extra, h.extra other d hd]
  · rcases hfilled.members other d with heq | ⟨⟨rfl, -, -⟩, all', hnodup, hmem, heq⟩
    · rw [heq] at hall
      exact h.lists other d all hall
    · rw [heq] at hall
      obtain rfl := Option.some.inj hall
      subst hF
      exact ⟨hnodup, hmem⟩
  · rw [hknown] at hd
    rw [hsame.own]
    refine h.roots other d hd ?_ hroot
    rcases hfilled.members other d with heq | ⟨-, all', -, -, heq⟩
    · rw [← heq]
      exact hnone
    · rw [heq] at hnone
      cases hnone

lemma RenamedLists.query (h : RenamedLists s u oldName newName left) (ha : Acyclic s.superClassNameForClassNamed)
    (hfirst : FirstApart s oldName newName) {sc : Name} (hsc : s.superClassNameForClassNamed sc = some oldName)
    (hscnew : sc ≠ newName) (hknown : u.isKnownClass sc = true) (hleft : sc ∉ left)
    (hold : ∀ c ∈ left, s.superClassNameForClassNamed c = some oldName ∧ c ≠ newName)
    {result : Option (List Name)} (hquery : allMembersForClassNamed kind depth u sc = some (v, result)) :
    RenamedLists s v oldName newName left ∧ SameClasses u v := by
  have hfits : ∀ d, ReflTransGen (Above (u.parent kind)) sc d → u.isKnownClass d = true →
      Fits u kind (fun d => s.Inherits kind (former oldName newName d)) d := by
    intro d hpath hd
    exact h.fits hfirst hd (h.done_above ha hsc hscnew hleft hold (super_path hpath))
  have hfilled := (query_spec (h.acyclic ha) hfits hknown hquery).1
  exact ⟨h.filled rfl hfilled, hfilled.same⟩

lemma RenamedLists.moved (h : RenamedLists s u oldName newName (d :: left)) (ha : Acyclic s.superClassNameForClassNamed)
    (hfree : Unnamed s newName) (hd : s.superClassNameForClassNamed d = some oldName) (hdnew : d ≠ newName)
    (holdknown : s.isKnownClass oldName = true) (hfirst : FirstApart s oldName newName)
    (hknown : u.isKnownClass d = true) :
    RenamedLists s (moved u newName d) oldName newName left := by
  have hsuper := superClassName_update (hierarchy_moved hknown : (Gorm.moved u newName d).hierarchy = _)
  have hsame : ∀ c, (Gorm.moved u newName d).isKnownClass c = u.isKnownClass c := isKnownClass_moved hknown
  have hd' : former oldName newName d = d := if_neg hdnew
  refine ⟨h.toRenaming.update ha hfree hd (hierarchy_moved hknown) hdnew, fun c p hc hp => ?_, fun kind c hc => ?_,
    fun kind c hc => ?_, fun kind c all hall => ?_, fun kind c hc hnone hroot => ?_⟩
  · rw [hsame] at hc
    rw [hsuper]
    by_cases hcd : c = d
    · rw [hcd, hd', hd] at hp
      refine ⟨newName, if_pos hcd, ?_⟩
      rw [former, if_pos rfl]
      exact Option.some.inj hp
    · rw [if_neg hcd]
      exact h.kept c p hc hp
  · rw [hsame] at hc
    rw [members_moved, ← h.own kind c hc]
    split
    · next hcd => rw [hcd]
    · rfl
  · rw [hsame] at hc
    rw [members_moved, ← h.extra kind c hc]
    split
    · next hcd => rw [hcd]
    · rfl
  · rw [members_moved] at hall
    split at hall
    · cases hall
    · exact h.lists kind c all hall
  · by_cases hcd : c = d
    · -- The class inherits from an entry.
      subst hcd
      rw [hd', firstAlone_of kind hfirst.1] at hroot
      rw [hroot oldName hd] at holdknown
      cases holdknown
    · rw [hsame] at hc
      rw [members_moved, if_neg hcd] at hnone ⊢
      exact h.roots kind c hc hnone hroot

lemma RenamedLists.setSuper (h : RenamedLists s u oldName newName (d :: left))
    (ha : Acyclic s.superClassNameForClassNamed) (hfree : Unnamed s newName)
    (holdknown : s.isKnownClass oldName = true) (hfirst : FirstApart s oldName newName)
    (hold : ∀ c ∈ d :: left, s.superClassNameForClassNamed c = some oldName ∧ c ≠ newName) (hleft : d ∉ left)
    {result : Bool} (hset : setSuperClassNamed depth u newName d = some (v, result)) :
    RenamedLists s v oldName newName left := by
  rw [List.forall_mem_cons] at hold
  obtain ⟨⟨hd, hdnew⟩, hold⟩ := hold
  have hknown : u.isKnownClass d = true := (h.known d).mpr (.inr ⟨ne_of_super ha hd, known_of_super hd⟩)
  rcases setSuper_cases hset with ⟨hnot | hlinked, -⟩ | ⟨-, w, actions, outlets, hw, hv⟩
  · rw [hknown] at hnot
    cases hnot
  · exact absurd hlinked (h.not_linked ha hd hdnew)
  · have hmoved := h.moved ha hfree hd hdnew holdknown hfirst hknown
    have hknown' : (Gorm.moved u newName d).isKnownClass d = true := (isKnownClass_moved hknown d).trans hknown
    obtain ⟨hw, hsame⟩ := hmoved.query ha hfirst hd hdnew hknown' hleft hold hw
    exact (hw.query ha hfirst hd hdnew ((isKnownClass_congr hsame d).trans hknown') hleft hold hv).1

lemma RenamedLists.setSupers (ha : Acyclic s.superClassNameForClassNamed) (hfree : Unnamed s newName)
    (holdknown : s.isKnownClass oldName = true) (hfirst : FirstApart s oldName newName)
    (h : RenamedLists s u oldName newName left) (hnodup : left.Nodup)
    (hold : ∀ c ∈ left, s.superClassNameForClassNamed c = some oldName ∧ c ≠ newName)
    (hrun : left.foldlM (fun s sc => (setSuperClassNamed depth s newName sc).map Prod.fst) u = some v) :
    RenamedLists s v oldName newName [] := by
  induction left generalizing u with
  | nil => exact Option.some.inj hrun ▸ h
  | cons d left ih =>
    rw [List.foldlM_cons] at hrun
    obtain ⟨w, hw, hrest⟩ := Option.bind_eq_some_iff.mp hrun
    obtain ⟨⟨w, result⟩, hset, rfl⟩ := Option.map_eq_some_iff.mp hw
    obtain ⟨hd, hnodup⟩ := List.nodup_cons.mp hnodup
    exact ih (h.setSuper ha hfree holdknown hfirst hold hd hset) hnodup (List.forall_mem_cons.mp hold).2 hrest

lemma RenamedLists.inherits (h : RenamedLists s u oldName newName []) (hfirst : FirstApart s oldName newName)
    (hd : u.isKnownClass d = true) :
    u.Inherits kind d x ↔ s.Inherits kind (former oldName newName d) x := by
  have hs := firstAlone_of kind hfirst.1
  have hu := firstAlone_of kind (h.firstAlone hfirst)
  constructor
  · intro hx
    clear hd
    induction hx with
    | own hx => exact .own ((h.defines (known_of_defines hx)).mp hx)
    | @super d p x hp _ ih =>
      rw [hu] at hp
      refine .super ?_ ih
      rw [hs]
      exact h.super d p hp
  · intro hx
    generalize hc : former oldName newName d = c at hx
    induction hx generalizing d with
    | own hx =>
      subst hc
      exact .own ((h.defines hd).mpr hx)
    | @super c p x hp hx ih =>
      subst hc
      rw [hs] at hp
      obtain ⟨q, hq, heq, hknown⟩ := h.step_up hd List.not_mem_nil hp
      rw [← hu] at hq
      exact .super hq (ih (hknown (known_of_inherits hx)) heq)

lemma RenamedLists.listsRight (h : RenamedLists s u oldName newName []) (hfirst : FirstApart s oldName newName) :
    ListsRight u := by
  constructor
  · intro kind c all hall
    obtain ⟨hnodup, hmem⟩ := h.lists kind c all hall
    exact ⟨hnodup, fun x => (hmem x).trans (h.inherits hfirst (known_of_filled hall)).symm⟩
  · intro kind c hnone hroot
    by_cases hc : u.isKnownClass c = true
    · exact h.root hfirst hc List.not_mem_nil hnone hroot
    · rw [members_of_unknown (Bool.not_eq_true _ ▸ hc)]
      exact List.nodup_nil

/-- What renaming a class needs. -/
def MayRename (s : ClassManager) (oldName newName : Name) : Prop :=
  s.isKnownClass oldName = true → s.isKnownClass newName = false →
    (s.isCustomClass oldName = true ∨ s.subClassesOf (some oldName) = []) ∧ Unnamed s newName ∧
      FirstApart s oldName newName

lemma renamedLists_start (hs : ListsRight s) (ha : Acyclic s.superClassNameForClassNamed) {info : ClassInfo}
    (hold : s.classInfo oldName = some info) (hfree : Unnamed s newName)
    (h : t.classInformation = (s.classInformation.erase oldName).insert newName info) :
    RenamedLists s t oldName newName (s.subClassesOf (some oldName)) := by
  have hstart := renaming_start ha hfree hold h
  have hinfo : ∀ c, t.isKnownClass c = true → t.classInfo c = s.classInfo (former oldName newName c) := by
    intro c hc
    rw [classInfo_insert (s := { s with classInformation := s.classInformation.erase oldName }) h, former]
    by_cases hcnew : c = newName
    · rw [if_pos hcnew, if_pos hcnew, hold]
    · rw [if_neg hcnew, if_neg hcnew]
      exact AList.lookup_erase_ne (((hstart.known c).mp hc).resolve_left hcnew).1
  have hmembers : ∀ kind c, t.isKnownClass c = true → t.members kind c = s.members kind (former oldName newName c) := by
    intro kind c hc
    rw [ClassManager.members, hinfo c hc, ClassManager.members]
  refine ⟨hstart, fun c p hc hp => ⟨p, ?_, if_neg (hfree.ne hp)⟩, fun kind c hc => ?_, fun kind c hc => ?_,
    fun kind c all hall => ?_, fun kind c hc hnone hroot => ?_⟩
  · rw [superClassNameForClassNamed, hinfo c hc]
    exact hp
  · rw [hmembers kind c hc]
  · rw [hmembers kind c hc]
  · rw [hmembers kind c (known_of_filled hall)] at hall
    exact hs.lists kind _ all hall
  · rw [hmembers kind c hc] at hnone ⊢
    exact hs.roots kind _ hnone hroot

lemma ListsRight.rename (hs : ListsRight s) (ha : Acyclic s.superClassNameForClassNamed)
    (hmay : MayRename s oldName newName) {result : Bool}
    (h : renameClassNamed depth s oldName newName = some (t, result)) : ListsRight t := by
  rw [renameClassNamed] at h
  split at h
  · cases h
    exact hs
  · next info hold =>
    split at h
    · cases h
      exact hs
    · next hnew =>
      rw [Bool.not_eq_true] at hnew
      have hknown : s.isKnownClass oldName = true := by rw [isKnownClass, hold, Option.isSome_some]
      obtain ⟨hsub, hfree, hfirst⟩ := hmay hknown hnew
      dsimp only at h
      split at h
      · obtain ⟨u, hu, heq⟩ := Option.map_eq_some_iff.mp h
        cases heq
        refine RenamedLists.listsRight (RenamedLists.setSupers ha hfree hknown hfirst
          (renamedLists_start hs ha hold hfree rfl) (nodup_subClassesOf s _) (fun c hc => ?_) hu) hfirst
        have hc := mem_subClassesOf.mp hc
        exact ⟨hc, ne_of_known (known_of_super hc) hnew⟩
      · next hcustom =>
        cases h
        have hnone := hsub.resolve_left hcustom
        have hstart := renamedLists_start (t := { s with
          classInformation := (s.classInformation.erase oldName).insert newName info }) hs ha hold hfree rfl
        rw [hnone] at hstart
        exact hstart.listsRight hfirst

end Xperimentum.Gorm
