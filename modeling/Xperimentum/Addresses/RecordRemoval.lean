import Xperimentum.Addresses.LocalAddressBook

/-! When the removal of a record comes back, and what it leaves. -/

namespace Xperimentum.Addresses.AddressBook

open Lib.Partial

variable {Id : Type} [DecidableEq Id] {b c d : AddressBook Id} {uid g m x y z : Id}
  {rank : Id → ℕ}
  {doneAnything : AddressBook Id → Id → Bool}

abbrev members (b : AddressBook Id) (group : Id) : List Id := (b.record group).memberIds

abbrev isGroup (b : AddressBook Id) (uid : Id) : Prop := (b.record uid).isGroup = true

/-- A record of the book, or a group that is listed although it is deleted. -/
def Known (b : AddressBook Id) (uid : Id) : Prop := b.holds uid = true ∨ uid ∈ b.groups

def Child (b : AddressBook Id) (g m : Id) : Prop := m ∈ b.members g ∧ b.isGroup m

/-- The group to be removed and the groups below it. -/
def Cut (b : AddressBook Id) (uid z : Id) : Prop := b.isGroup uid ∧ Relation.ReflTransGen b.Child uid z

/-- Groups contain records of the book and no circles, and each group is listed or in another one. -/
structure Hierarchy (b : AddressBook Id) (rank : Id → ℕ) : Prop where
  held : ∀ g, b.Known g → b.isGroup g → ∀ m ∈ b.members g, b.holds m = true
  acyclic : ∀ g m, b.Known g → b.Child g m → rank m < rank g
  listed : ∀ g, b.holds g = true → b.isGroup g → (b.record g).toplevel = true ∨ ∃ p, b.Known p ∧ b.isGroup p ∧ b.Child p g

/-- Outside of what is removed, no group of the list has a subgroup other than the record. -/
def Flat (b : AddressBook Id) (uid : Id) : Prop :=
  ∀ g ∈ b.groups, ¬b.Cut uid g → ∀ m, b.Child g m → m = uid

/-- No group lists the record, and what else the groups of the book list is unchanged. -/
def Removed (b : AddressBook Id) (uid : Id) (c : AddressBook Id) : Prop :=
  (∀ g, c.Known g → c.isGroup g → uid ∉ c.members g) ∧
    ∀ z, z ≠ uid → c.holds z = true → c.isGroup z → c.members z = (b.members z).filter (· ≠ uid)

/-- With enough fuel the call comes back, and the record is removed from every group. -/
def RemovesEverywhere (doneAnything : AddressBook Id → Id → Bool) (b : AddressBook Id) (uid : Id) : Prop :=
  ∃ N, ∀ n ≥ N, Ensures (removeRecord doneAnything n b uid) (Removed b uid)

section Operations

lemma mem_groups : g ∈ b.groups ↔
    b.isToplevelGroup g = true ∧ (g ∈ b.files ∧ g ∉ b.deleted ∨ g ∈ b.unsaved) := by
  simp only [groups, holds, List.mem_append, List.mem_filter, Bool.and_eq_true, decide_eq_true_eq, Bool.or_eq_true]
  tauto

lemma holds_iff : b.holds z = true ↔ z ∉ b.deleted ∧ (z ∈ b.unsaved ∨ z ∈ b.files) := by
  simp [holds]

@[simp] lemma members_setMemberIds (l : List Id) :
    (b.setMemberIds g l).members z = if z = g then l else b.members z := by
  by_cases h : z = g <;> simp [members, setMemberIds, Function.update_apply, h]

/-- Everything but the lists of members is the same. -/
structure SameRecords (b c : AddressBook Id) : Prop where
  isGroup : ∀ z, (c.record z).isGroup = (b.record z).isGroup
  toplevel : ∀ z, (c.record z).toplevel = (b.record z).toplevel

lemma SameRecords.refl (b : AddressBook Id) : SameRecords b b := ⟨fun _ => rfl, fun _ => rfl⟩

lemma SameRecords.trans (h : SameRecords b c) (h' : SameRecords c d) : SameRecords b d :=
  ⟨fun z => (h'.isGroup z).trans (h.isGroup z), fun z => (h'.toplevel z).trans (h.toplevel z)⟩

lemma sameRecords_setMemberIds (l : List Id) : SameRecords b (b.setMemberIds g l) := by
  constructor <;> intro z <;> by_cases h : z = g <;> simp [setMemberIds, Function.update_apply, h]

lemma members_subgroupsForGroup : (b.subgroupsForGroup g).2.members z =
    if z = g then (b.members g).filter b.holds else b.members z := members_setMemberIds _

lemma mem_subgroupsForGroup : m ∈ (b.subgroupsForGroup g).1 ↔ b.Child g m ∧ b.holds m = true := by
  simp only [subgroupsForGroup, List.mem_filter, Child]
  tauto

lemma members_removeMemberId : (removeMemberId doneAnything b x y).members z =
    if z = y then (b.members y).filter (· ≠ x) else b.members z := by
  simp only [removeMemberId]
  split_ifs with h hz hz
  · rw [setValue, members, ← members, members_setMemberIds, if_pos hz]
  · rw [setValue, members, ← members, members_setMemberIds, if_neg hz]
  · rw [hz, List.filter_eq_self.mpr]
    intro k hk
    rw [Bool.or_eq_true, not_or, decide_eq_true_eq] at h
    exact decide_eq_true (ne_of_mem_of_not_mem hk h.1)
  · rfl

lemma sameRecords_removeMemberId : SameRecords b (removeMemberId doneAnything b x y) := by
  simp only [removeMemberId]
  split_ifs
  · obtain ⟨hgroup, htop⟩ := @sameRecords_setMemberIds Id _ b y ((b.members y).filter (· ≠ x))
    exact ⟨hgroup, htop⟩
  · exact SameRecords.refl b

lemma files_removeMemberId : (removeMemberId doneAnything b x y).files = b.files ∧
    (removeMemberId doneAnything b x y).deleted = b.deleted := by
  simp only [removeMemberId]
  split_ifs <;> exact ⟨rfl, rfl⟩

lemma mem_unsaved_removeMemberId (h : z ∈ (removeMemberId doneAnything b x y).unsaved) : z ∈ b.unsaved ∨ z = y := by
  simp only [removeMemberId, setValue] at h
  split_ifs at h
  · exact Or.inl h
  · simpa using h
  · exact Or.inl h

lemma subset_unsaved_removeMemberId : b.unsaved ⊆ (removeMemberId doneAnything b x y).unsaved := by
  simp only [removeMemberId, setValue]
  split_ifs <;> simp

end Operations

section NoReturn

/-- A group of the list has a subgroup that is not removed. -/
structure Keeps (b : AddressBook Id) (g m : Id) (c : AddressBook Id) : Prop where
  same : SameRecords b c
  shrinks : ∀ z, c.members z ⊆ b.members z
  listed : g ∈ c.groups
  mem : m ∈ c.members g
  held : c.holds m = true

lemma Keeps.subgroupsForGroup (h : Keeps b g m c) (z : Id) : Keeps b g m (c.subgroupsForGroup z).2 where
  same := h.same.trans (sameRecords_setMemberIds _)
  shrinks k := by
    rw [members_subgroupsForGroup]
    split_ifs with hk
    · rw [hk]
      exact fun k hk => h.shrinks z (List.mem_of_mem_filter hk)
    · exact h.shrinks k
  listed := by
    have hg := mem_groups.mp h.listed
    refine mem_groups.mpr ⟨?_, hg.2⟩
    have hs := @sameRecords_setMemberIds Id _ c z ((c.record z).memberIds.filter c.holds)
    rw [isToplevelGroup] at hg ⊢
    exact hs.isGroup g ▸ hs.toplevel g ▸ hg.1
  mem := by
    rw [members_subgroupsForGroup]
    split_ifs with hz
    · exact List.mem_filter.mpr ⟨hz ▸ h.mem, h.held⟩
    · exact h.mem
  held := h.held

lemma Keeps.removeMemberId (h : Keeps b g m c) (hxy : x ≠ m ∨ y ≠ g) :
    Keeps b g m (removeMemberId doneAnything c x y) where
  same := h.same.trans sameRecords_removeMemberId
  shrinks k := by
    rw [members_removeMemberId]
    split_ifs with hk
    · rw [hk]
      exact fun l hl => h.shrinks y (List.mem_of_mem_filter hl)
    · exact h.shrinks k
  listed := by
    obtain ⟨hgroup, htop⟩ := @sameRecords_removeMemberId Id _ c x y doneAnything
    obtain ⟨hfiles, hdeleted⟩ := @files_removeMemberId Id _ c x y doneAnything
    obtain ⟨hg, hfound⟩ := mem_groups.mp h.listed
    refine mem_groups.mpr ⟨by rwa [isToplevelGroup, hgroup, htop], ?_⟩
    rw [hfiles, hdeleted]
    exact hfound.imp_right fun hu => subset_unsaved_removeMemberId hu
  mem := by
    rw [members_removeMemberId]
    split_ifs with hg
    · refine List.mem_filter.mpr ⟨hg ▸ h.mem, decide_eq_true ?_⟩
      rcases hxy with hx | hy
      · exact hx.symm
      · exact absurd hg.symm hy
    · exact h.mem
  held := by
    obtain ⟨hfiles, hdeleted⟩ := @files_removeMemberId Id _ c x y doneAnything
    obtain ⟨hlive, hfound⟩ := holds_iff.mp h.held
    rw [holds_iff, hfiles, hdeleted]
    exact ⟨hlive, hfound.imp_left fun hu => subset_unsaved_removeMemberId hu⟩

lemma Keeps.delete (h : Keeps b g m c) (hm : z ≠ m) (hg : z ≠ g) : Keeps b g m { c with deleted := z :: c.deleted } where
  same := ⟨h.same.isGroup, h.same.toplevel⟩
  shrinks := h.shrinks
  listed := by
    obtain ⟨htop, hfound⟩ := mem_groups.mp h.listed
    refine mem_groups.mpr ⟨htop, hfound.imp_left fun hf => ⟨hf.1, ?_⟩⟩
    exact List.not_mem_cons_of_ne_of_not_mem hg.symm hf.2
  mem := h.mem
  held := by
    obtain ⟨hlive, hfound⟩ := holds_iff.mp h.held
    exact holds_iff.mpr ⟨List.not_mem_cons_of_ne_of_not_mem hm.symm hlive, hfound⟩

lemma keeps_allSubgroupsBelowGroup (n : ℕ) (h : Keeps b g m c) (z : Id) :
    Allows (allSubgroupsBelowGroup n c z) fun r => Keeps b g m r.2 := by
  induction n generalizing c z with
  | zero =>
    intro r hr
    cases hr
  | succ n ih =>
    rw [allSubgroupsBelowGroup]
    refine @allows_foldlM _ _ (fun s : List Id × AddressBook Id => Keeps b g m s.2) _ _ _ (fun s hs k _ => ?_)
      (h.subgroupsForGroup z)
    intro r hr
    obtain ⟨found, hfound, rfl⟩ := Option.map_eq_some_iff.mp hr
    exact ih hs k found hfound

lemma keeps_allGroupsEverywhere (n : ℕ) (h : Keeps b g m c) :
    Allows (allGroupsEverywhere n c) fun r => Keeps b g m r.2 ∧ ∀ z ∈ c.groups, z ∈ r.1 := by
  have hfold : ∀ (gs : List Id) (s : List Id × AddressBook Id), Keeps b g m s.2 →
      Allows (gs.foldlM (fun s group => (allSubgroupsBelowGroup n s.2 group).map fun found =>
        (s.1 ++ group :: found.1, found.2)) s) fun r => Keeps b g m r.2 ∧ (∀ z ∈ s.1, z ∈ r.1) ∧ ∀ z ∈ gs, z ∈ r.1 := by
    intro gs
    induction gs with
    | nil => exact fun s hs => allows_pure ⟨hs, fun z hz => hz, fun z hz => by cases hz⟩
    | cons k gs ih =>
      intro s hs r hr
      rw [List.foldlM_cons] at hr
      obtain ⟨t, ht, hr⟩ := Option.bind_eq_some_iff.mp hr
      obtain ⟨found, hfound, rfl⟩ := Option.map_eq_some_iff.mp ht
      obtain ⟨hkeeps, hfirst, hrest⟩ :=
        ih (s.1 ++ k :: found.1, found.2) (keeps_allSubgroupsBelowGroup n hs k found hfound) r hr
      refine ⟨hkeeps, fun z hz => hfirst z (List.mem_append_left _ hz), fun z hz => ?_⟩
      rcases List.mem_cons.mp hz with rfl | hz
      · exact hfirst z (List.mem_append_right _ List.mem_cons_self)
      · exact hrest z hz
  exact fun r hr => ⟨(hfold c.groups ([], c) h r hr).1, (hfold c.groups ([], c) h r hr).2.2⟩

lemma cut_child (hx : b.Cut uid x) (h : b.Child x z) : b.Cut uid z := ⟨hx.1, hx.2.tail h⟩

lemma keeps_removeSubgroup (n : ℕ) (hg : ¬b.Cut uid g) (h : Keeps b g m c) (hx : b.Cut uid x) (hy : b.Cut uid y) :
    Allows (removeSubgroup doneAnything n c x y) (Keeps b g m) := by
  have hne : ∀ {k}, b.Cut uid k → k ≠ g := by
    rintro k hk rfl
    exact hg hk
  induction n generalizing c x y with
  | zero =>
    intro r hr
    cases hr
  | succ n ih =>
    rw [removeSubgroup]
    refine Allows.bind (P := Keeps b g m) (allows_foldlM _ (fun s hs k hk => ?_) (h.subgroupsForGroup x))
      fun c' hc' => ?_
    · obtain ⟨hchild, -⟩ := mem_subgroupsForGroup.mp hk
      refine ih hs (cut_child hx ⟨h.shrinks x hchild.1, ?_⟩) hx
      rw [isGroup, ← h.same.isGroup k]
      exact hchild.2
    · intro r hr
      obtain ⟨parents, hparents, hr⟩ := Option.bind_eq_some_iff.mp hr
      obtain ⟨found, hfound, rfl⟩ := Option.map_eq_some_iff.mp hparents
      have hstep : Keeps b g m (AddressBook.removeMemberId doneAnything c' x y) := hc'.removeMemberId (Or.inr (hne hy))
      obtain ⟨hkeeps, hall⟩ := keeps_allGroupsEverywhere n hstep found hfound
      obtain rfl := Option.some.inj hr
      split_ifs with hnil
      · refine hkeeps.delete ?_ (hne hx)
        rintro rfl
        have hmem : g ∈ found.1.filter fun k => x ∈ (found.2.record k).memberIds :=
          List.mem_filter.mpr ⟨hall g hstep.listed, decide_eq_true hkeeps.mem⟩
        have hnone : (found.1.filter fun k => decide (x ∈ (found.2.record k).memberIds)) = [] := hnil
        rw [hnone] at hmem
        cases hmem
      · exact hkeeps

lemma keeps_removeSubgroups (n : ℕ) (hg : ¬b.Cut uid g) (h : Keeps b g m c) (hx : b.Cut uid x) :
    Allows (removeSubgroups doneAnything n c x) (Keeps b g m) := by
  induction n generalizing c with
  | zero =>
    intro r hr
    cases hr
  | succ n ih =>
    intro r hr
    rw [removeSubgroups] at hr
    split at hr
    · obtain rfl := Option.some.inj hr
      exact h.subgroupsForGroup x
    · rename_i k ks hk
      obtain ⟨c', hc', hr⟩ := Option.bind_eq_some_iff.mp hr
      obtain ⟨hchild, -⟩ := mem_subgroupsForGroup.mp (hk ▸ List.mem_cons_self : k ∈ (c.subgroupsForGroup x).1)
      have hcut : b.Cut uid k := cut_child hx ⟨h.shrinks x hchild.1, by
        rw [isGroup, ← h.same.isGroup k]
        exact hchild.2⟩
      exact ih (keeps_removeSubgroup n hg (h.subgroupsForGroup x) hcut hx c' hc') r hr

lemma removeRecordForGroup_none (n : ℕ) (h : Keeps b g m c) (hgroup : b.isGroup m) (hm : m ≠ uid) :
    removeRecordForGroup doneAnything n c uid g true = none := by
  induction n generalizing c with
  | zero => rfl
  | succ n ih =>
    have hstep : Keeps b g m (AddressBook.removeMemberId doneAnything c uid g) := h.removeMemberId (Or.inl hm.symm)
    have hmem : m ∈ ((AddressBook.removeMemberId doneAnything c uid g).subgroupsForGroup g).1 :=
      mem_subgroupsForGroup.mpr ⟨⟨hstep.mem, (hstep.same.isGroup m).trans hgroup⟩, hstep.held⟩
    obtain ⟨k, ks, hks⟩ := List.exists_cons_of_ne_nil (List.ne_nil_of_mem hmem)
    rw [removeRecordForGroup, if_pos rfl, hks, List.foldlM_cons, ih (hstep.subgroupsForGroup g)]
    rfl

lemma keeps_removeRecordForGroup (n : ℕ) (h : Keeps b g m c) (hm : m ≠ uid) (z : Id) (recursive : Bool) :
    Allows (removeRecordForGroup doneAnything n c uid z recursive) (Keeps b g m) := by
  induction n generalizing c recursive with
  | zero =>
    intro r hr
    cases hr
  | succ n ih =>
    have hstep : Keeps b g m (AddressBook.removeMemberId doneAnything c uid z) := h.removeMemberId (Or.inl hm.symm)
    rw [removeRecordForGroup]
    split_ifs
    · exact allows_foldlM _ (fun s hs _ _ => ih hs true) (hstep.subgroupsForGroup z)
    · exact allows_pure hstep

lemma removeRecord_none (h : Hierarchy b rank) (huid : b.holds uid = true) (hg : g ∈ b.groups) (hcut : ¬b.Cut uid g)
    (hchild : b.Child g m) (hm : m ≠ uid) (n : ℕ) : removeRecord doneAnything n b uid = none := by
  have hgroup : b.isGroup g := by
    obtain ⟨htop, -⟩ := mem_groups.mp hg
    exact (Bool.and_eq_true _ _ ▸ htop).1
  have hguid : g ≠ uid := by
    rintro rfl
    exact hcut ⟨hgroup, Relation.ReflTransGen.refl⟩
  have hheld : b.holds m = true := h.held g (Or.inr hg) hgroup m hchild.1
  have hkeeps : Keeps b g m { b with unsaved := b.unsaved.filter (· ≠ uid) } := by
    refine ⟨⟨fun _ => rfl, fun _ => rfl⟩, fun z => List.Subset.refl _, ?_, hchild.1, ?_⟩
    · obtain ⟨htop, hfound⟩ := mem_groups.mp hg
      exact mem_groups.mpr ⟨htop, hfound.imp_right fun hu => List.mem_filter.mpr ⟨hu, decide_eq_true hguid⟩⟩
    · obtain ⟨hlive, hfound⟩ := holds_iff.mp hheld
      exact holds_iff.mpr ⟨hlive, hfound.imp_left fun hu => List.mem_filter.mpr ⟨hu, decide_eq_true hm⟩⟩
  rw [← Option.not_isSome_iff_eq_none, Option.isSome_iff_exists]
  rintro ⟨r, hr⟩
  rw [removeRecord] at hr
  obtain ⟨c, hc, hr⟩ := Option.bind_eq_some_iff.mp hr
  have hphase : Keeps b g m c := by
    split_ifs at hc with hrecord
    · exact keeps_removeSubgroups n hcut hkeeps ⟨hrecord, Relation.ReflTransGen.refl⟩ c hc
    · exact Option.some.inj hc ▸ hkeeps
  have hdeleted := hphase.delete hm.symm hguid.symm
  have hloop : ∀ (gs : List Id) (s : AddressBook Id), Keeps b g m s → g ∈ gs →
      gs.foldlM (fun b k => removeRecordForGroup doneAnything n b uid k true) s = none := by
    intro gs
    induction gs with
    | nil => exact fun s _ hmem => by cases hmem
    | cons k gs ih =>
      intro s hs hmem
      rw [List.foldlM_cons]
      rcases List.mem_cons.mp hmem with rfl | hmem
      · rw [removeRecordForGroup_none n hs hchild.2 hm]
        rfl
      · cases hk : removeRecordForGroup doneAnything n s uid k true with
        | none => rfl
        | some t => exact ih t (keeps_removeRecordForGroup n hs hm k true t hk) hmem
  rw [hloop _ _ hdeleted hdeleted.listed] at hr
  cases hr

end NoReturn

end Xperimentum.Addresses.AddressBook
