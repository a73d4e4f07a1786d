import Xperimentum.Addresses.RecordRemoval

/-! The removal comes back where no group is left with a subgroup, and exactly there. -/

namespace Xperimentum.Addresses.AddressBook

open Lib.Partial

variable {Id : Type} [DecidableEq Id] {b c d e : AddressBook Id} {uid g m x y z : Id} {rank : Id → ℕ}
  {doneAnything : AddressBook Id → Id → Bool}

/-- No group below this one still lists a group that has not been deleted. -/
def CutBelow (b c : AddressBook Id) (t : Id) : Prop :=
  ∀ z, Relation.ReflTransGen b.Child t z → ∀ k ∈ c.members z, b.isGroup k → k ∈ c.deleted

/-- The state while the subgroups of a group are removed. -/
structure Cutting (b : AddressBook Id) (uid : Id) (c : AddressBook Id) : Prop where
  same : SameRecords b c
  files : c.files = b.files
  shrinks : ∀ z, c.members z ⊆ b.members z
  outer : ∀ z, b.Known z → ¬b.Cut uid z → (c.members z).filter (· ≠ uid) = (b.members z).filter (· ≠ uid)
  deleted_old : b.deleted ⊆ c.deleted
  deleted_new : ∀ z ∈ c.deleted, z ∈ b.deleted ∨ b.Cut uid z ∧ z ≠ uid
  unsaved_old : ∀ z ∈ b.unsaved, z ≠ uid → z ∈ c.unsaved
  unsaved_new : ∀ z ∈ c.unsaved, z ∈ b.unsaved ∨ b.Cut uid z
  cut : ∀ z t, b.Cut uid z → b.Child z t → t ∈ c.members z ∧ t ∉ c.deleted ∨ CutBelow b c t

def HasParent (b : AddressBook Id) (uid : Id) (c : AddressBook Id) (s : Id) : Prop :=
  s ∈ c.deleted ∨ ∃ y, b.Cut uid y ∧ s ∈ c.members y

def Parented (b : AddressBook Id) (uid : Id) (c : AddressBook Id) : Prop :=
  ∀ s, b.Cut uid s → s ≠ uid → HasParent b uid c s

/-- Only ids without a record have been taken out of the lists. -/
structure Purged (b c d : AddressBook Id) : Prop where
  same : SameRecords c d
  files : d.files = c.files
  unsaved : d.unsaved = c.unsaved
  deleted : d.deleted = c.deleted
  members : ∀ z, d.members z = c.members z ∨ b.Known z ∧ b.isGroup z ∧ d.members z = (c.members z).filter c.holds

section Book

variable (hb : b.Hierarchy rank) (huid : b.holds uid = true)

include hb huid

lemma cut_known (h : b.Cut uid z) : b.Known z ∧ b.isGroup z ∧ b.holds z = true ∧ rank z ≤ rank uid := by
  obtain ⟨hgroup, hpath⟩ := h
  induction hpath with
  | refl => exact ⟨Or.inl huid, hgroup, huid, le_refl _⟩
  | tail _ hchild ih =>
    obtain ⟨hknown, hy, -, hrank⟩ := ih
    have hheld := hb.held _ hknown hy _ hchild.1
    exact ⟨Or.inl hheld, hchild.2, hheld, (hb.acyclic _ _ hknown hchild).le.trans hrank⟩

lemma child_ne (hz : b.Cut uid z) (h : b.Child z x) : x ≠ uid := by
  obtain ⟨hknown, -, -, hrank⟩ := cut_known hb huid hz
  rintro rfl
  exact absurd (hb.acyclic _ _ hknown h) (by omega)

omit huid in
lemma exists_bound : ∃ B, ∀ z, b.Known z → rank z < B := by
  have hlist : ∀ l : List Id, ∃ B, ∀ z ∈ l, rank z < B := by
    intro l
    induction l with
    | nil => exact ⟨0, fun z hz => by cases hz⟩
    | cons k l ih =>
      obtain ⟨B, hB⟩ := ih
      refine ⟨B + rank k + 1, fun z hz => ?_⟩
      rcases List.mem_cons.mp hz with rfl | hz
      · omega
      · exact (hB z hz).trans (by omega)
  obtain ⟨B, hB⟩ := hlist (b.unsaved ++ b.files)
  refine ⟨B, fun z hz => hB z (List.mem_append.mpr ?_)⟩
  rcases hz with h | h
  · exact (holds_iff.mp h).2
  · obtain ⟨-, hf | hu⟩ := mem_groups.mp h
    · exact Or.inr hf.1
    · exact Or.inl hu

variable (hflat : b.Flat uid)

include hflat

lemma outer_group (hz : b.Known z) (hgroup : b.isGroup z) (hcut : ¬b.Cut uid z) :
    z ∈ b.groups ∧ ∀ k, b.Child z k → k = uid := by
  obtain ⟨B, hB⟩ := exists_bound hb
  suffices h : ∀ n z, B - rank z ≤ n → b.Known z → b.isGroup z → ¬b.Cut uid z → z ∈ b.groups by
    exact ⟨h _ z le_rfl hz hgroup hcut, hflat z (h _ z le_rfl hz hgroup hcut) hcut⟩
  intro n
  induction n with
  | zero =>
    intro z hn hz
    have := hB z hz
    omega
  | succ n ih =>
    intro z hn hz hgroup hcut
    rcases hz with hheld | hlisted
    · rcases hb.listed z hheld hgroup with htop | ⟨p, hp, hpgroup, hchild⟩
      · obtain ⟨hlive, hfound⟩ := holds_iff.mp hheld
        refine mem_groups.mpr ⟨by rw [isToplevelGroup, hgroup, htop]; rfl, ?_⟩
        exact hfound.symm.imp_left fun hf => ⟨hf, hlive⟩
      · exfalso
        have hpcut : ¬b.Cut uid p := fun h => hcut (cut_child h hchild)
        have hrank := hb.acyclic p z hp hchild
        have hplisted := ih p (by have := hB p hp; omega) hp hpgroup hpcut
        obtain rfl := hflat p hplisted hpcut z hchild
        exact hcut ⟨hgroup, Relation.ReflTransGen.refl⟩
    · exact hlisted

end Book

section Purging

lemma Purged.refl (b c : AddressBook Id) : Purged b c c := ⟨SameRecords.refl c, rfl, rfl, rfl, fun _ => Or.inl rfl⟩

lemma Purged.holds_eq (h : Purged b c d) : d.holds = c.holds := by
  funext z
  rw [holds, holds, h.files, h.unsaved, h.deleted]

lemma Purged.trans (h : Purged b c d) (h' : Purged b d e) : Purged b c e where
  same := h.same.trans h'.same
  files := h'.files.trans h.files
  unsaved := h'.unsaved.trans h.unsaved
  deleted := h'.deleted.trans h.deleted
  members z := by
    rcases h'.members z with h2 | ⟨hknown, hgroup, h2⟩
    · rw [h2]
      exact h.members z
    · refine Or.inr ⟨hknown, hgroup, ?_⟩
      rw [h2, h.holds_eq]
      rcases h.members z with h1 | ⟨-, -, h1⟩
      · rw [h1]
      · rw [h1, List.filter_filter]
        simp

lemma purged_subgroupsForGroup (hknown : b.Known g) (hgroup : b.isGroup g) :
    Purged b c (c.subgroupsForGroup g).2 where
  same := @sameRecords_setMemberIds Id _ c g _
  files := rfl
  unsaved := rfl
  deleted := rfl
  members z := by
    rw [members_subgroupsForGroup]
    split_ifs with hz
    · rw [hz]
      exact Or.inr ⟨hknown, hgroup, rfl⟩
    · exact Or.inl rfl

lemma Purged.shrinks (h : Purged b c d) (z : Id) : d.members z ⊆ c.members z := by
  rcases h.members z with hz | ⟨-, -, hz⟩ <;> rw [hz]
  · exact List.Subset.refl _
  · exact fun k hk => List.mem_of_mem_filter hk

omit [DecidableEq Id] in
lemma CutBelow.imp {t : Id} (h : CutBelow b c t) (hshrinks : ∀ z, d.members z ⊆ c.members z)
    (hdeleted : c.deleted ⊆ d.deleted) : CutBelow b d t :=
  fun z hz k hk hgroup => hdeleted (h z hz k (hshrinks z hk) hgroup)

variable (hb : b.Hierarchy rank) (huid : b.holds uid = true)

include hb huid

lemma Cutting.known_of_holds (hc : Cutting b uid c) (h : c.holds z = true) : b.Known z := by
  obtain ⟨hlive, hfound⟩ := holds_iff.mp h
  rw [hc.files] at hfound
  have hold : z ∉ b.deleted := fun hz => hlive (hc.deleted_old hz)
  rcases hfound with hu | hf
  · rcases hc.unsaved_new z hu with hu | hcut
    · exact Or.inl (holds_iff.mpr ⟨hold, Or.inl hu⟩)
    · exact (cut_known hb huid hcut).1
  · exact Or.inl (holds_iff.mpr ⟨hold, Or.inr hf⟩)

lemma Cutting.known_of_groups (hc : Cutting b uid c) (h : z ∈ c.groups) : b.Known z ∧ b.isGroup z := by
  obtain ⟨htop, hfound⟩ := mem_groups.mp h
  have htop' : b.isToplevelGroup z = true := by
    rwa [isToplevelGroup, hc.same.isGroup, hc.same.toplevel] at htop
  have hgroup : b.isGroup z := (Bool.and_eq_true _ _ ▸ htop').1
  refine ⟨?_, hgroup⟩
  rw [hc.files] at hfound
  rcases hfound with ⟨hf, hlive⟩ | hu
  · exact Or.inr (mem_groups.mpr ⟨htop', Or.inl ⟨hf, fun hz => hlive (hc.deleted_old hz)⟩⟩)
  · rcases hc.unsaved_new z hu with hu | hcut
    · exact Or.inr (mem_groups.mpr ⟨htop', Or.inr hu⟩)
    · exact (cut_known hb huid hcut).1

omit huid in
lemma Cutting.holds_member (hc : Cutting b uid c) (hknown : b.Known g) (hgroup : b.isGroup g) (hm : m ∈ b.members g)
    (hne : m ≠ uid) (hlive : m ∉ c.deleted) : c.holds m = true := by
  obtain ⟨-, hfound⟩ := holds_iff.mp (hb.held g hknown hgroup m hm)
  rw [holds_iff, hc.files]
  exact ⟨hlive, hfound.imp_left fun hu => hc.unsaved_old m hu hne⟩

variable (hflat : b.Flat uid)

include hflat

lemma Cutting.filter_outer (hc : Cutting b uid c) (hknown : b.Known g) (hgroup : b.isGroup g) (hcut : ¬b.Cut uid g) :
    ((c.members g).filter c.holds).filter (· ≠ uid) = (c.members g).filter (· ≠ uid) := by
  rw [List.filter_filter]
  refine List.filter_congr fun k hk => ?_
  by_cases hne : k = uid
  · simp [hne]
  · have hlive : k ∉ c.deleted := by
      intro hdel
      have hkb := hc.shrinks g hk
      rcases hc.deleted_new k hdel with hold | ⟨hkcut, -⟩
      · exact (holds_iff.mp (hb.held g hknown hgroup k hkb)).1 hold
      · exact hne ((outer_group hb huid hflat hknown hgroup hcut).2 k ⟨hkb, (cut_known hb huid hkcut).2.1⟩)
    rw [hc.holds_member hb hknown hgroup (hc.shrinks g hk) hne hlive, Bool.and_true]

lemma Cutting.purged (hc : Cutting b uid c) (h : Purged b c d) : Cutting b uid d where
  same := hc.same.trans h.same
  files := h.files.trans hc.files
  shrinks z := List.Subset.trans (h.shrinks z) (hc.shrinks z)
  outer z hknown hcut := by
    rcases h.members z with hz | ⟨-, hgroup, hz⟩
    · rw [hz]
      exact hc.outer z hknown hcut
    · rw [hz, hc.filter_outer hb huid hflat hknown hgroup hcut]
      exact hc.outer z hknown hcut
  deleted_old := by
    rw [h.deleted]
    exact hc.deleted_old
  deleted_new := by
    rw [h.deleted]
    exact hc.deleted_new
  unsaved_old := by
    rw [h.unsaved]
    exact hc.unsaved_old
  unsaved_new := by
    rw [h.unsaved]
    exact hc.unsaved_new
  cut z t hz ht := by
    rcases hc.cut z t hz ht with ⟨hmem, hlive⟩ | hbelow
    · rw [h.deleted]
      refine Or.inl ⟨?_, hlive⟩
      rcases h.members z with hmz | ⟨hknown, hgroup, hmz⟩ <;> rw [hmz]
      · exact hmem
      · exact List.mem_filter.mpr ⟨hmem,
          hc.holds_member hb hknown hgroup ht.1 (child_ne hb huid hz ht) hlive⟩
    · exact Or.inr (hbelow.imp h.shrinks (by rw [h.deleted]; exact List.Subset.refl _))

omit huid hflat in
lemma HasParent.purged {s : Id} (hc : Cutting b uid c) (h : Purged b c d) (hne : s ≠ uid)
    (hs : HasParent b uid c s) : HasParent b uid d s := by
  rcases hs with hdel | ⟨y, hy, hmem⟩
  · exact Or.inl (by rwa [h.deleted])
  · by_cases hdel : s ∈ c.deleted
    · exact Or.inl (by rwa [h.deleted])
    · refine Or.inr ⟨y, hy, ?_⟩
      rcases h.members y with hmz | ⟨hknown, hgroup, hmz⟩ <;> rw [hmz]
      · exact hmem
      · exact List.mem_filter.mpr ⟨hmem, hc.holds_member hb hknown hgroup (hc.shrinks y hmem) hne hdel⟩

lemma ensures_allSubgroupsBelowGroup (n : ℕ) (hc : Cutting b uid c) (hknown : b.Known g) (hgroup : b.isGroup g)
    (hn : rank g < n) : Ensures (allSubgroupsBelowGroup n c g) fun r =>
      Purged b c r.2 ∧ ∀ z ∈ r.1, b.Known z ∧ b.isGroup z := by
  induction n generalizing c g with
  | zero => omega
  | succ n ih =>
    rw [allSubgroupsBelowGroup]
    refine @ensures_foldlM _ _ (fun s : List Id × AddressBook Id => Purged b c s.2 ∧
      ∀ z ∈ s.1, b.Known z ∧ b.isGroup z) _ _ _ (fun s hs k hk => ?_)
      ⟨purged_subgroupsForGroup hknown hgroup, fun z hz => by cases hz⟩
    obtain ⟨hpurged, hall⟩ := hs
    obtain ⟨hchild, hheld⟩ := mem_subgroupsForGroup.mp hk
    have hbchild : b.Child g k := ⟨hc.shrinks g hchild.1, by rw [isGroup, ← hc.same.isGroup k]; exact hchild.2⟩
    have hkknown := hc.known_of_holds hb huid hheld
    have hrank := hb.acyclic g k hknown hbchild
    obtain ⟨found, hfound, hfpurged, hfall⟩ :=
      ih (hc.purged hb huid hflat hpurged) hkknown hbchild.2 (by omega)
    refine ⟨(s.1 ++ k :: found.1, found.2), by rw [hfound]; rfl, hpurged.trans hfpurged, fun z hz => ?_⟩
    rcases List.mem_append.mp hz with hz | hz
    · exact hall z hz
    · rcases List.mem_cons.mp hz with rfl | hz
      · exact ⟨hkknown, hbchild.2⟩
      · exact hfall z hz

lemma ensures_allGroupsEverywhere (n : ℕ) (hc : Cutting b uid c) (hn : ∀ z, b.Known z → rank z < n) :
    Ensures (allGroupsEverywhere n c) fun r => Purged b c r.2 ∧ ∀ z ∈ r.1, b.Known z ∧ b.isGroup z := by
  refine @ensures_foldlM _ _ (fun s : List Id × AddressBook Id => Purged b c s.2 ∧
    ∀ z ∈ s.1, b.Known z ∧ b.isGroup z) _ _ _ (fun s hs k hk => ?_) ⟨Purged.refl b c, fun z hz => by cases hz⟩
  obtain ⟨hpurged, hall⟩ := hs
  obtain ⟨hknown, hgroup⟩ := hc.known_of_groups hb huid hk
  obtain ⟨found, hfound, hfpurged, hfall⟩ :=
    ensures_allSubgroupsBelowGroup hb huid hflat n (hc.purged hb huid hflat hpurged) hknown hgroup (hn k hknown)
  refine ⟨(s.1 ++ k :: found.1, found.2), by rw [hfound]; rfl, hpurged.trans hfpurged, fun z hz => ?_⟩
  rcases List.mem_append.mp hz with hz | hz
  · exact hall z hz
  · rcases List.mem_cons.mp hz with rfl | hz
    · exact ⟨hknown, hgroup⟩
    · exact hfall z hz

end Purging

section Phase

variable (hb : b.Hierarchy rank) (huid : b.holds uid = true)

lemma Cutting.removeMemberId (hc : Cutting b uid c) (hy : b.Cut uid y) (hx : CutBelow b c x) :
    Cutting b uid (removeMemberId doneAnything c x y) := by
  obtain ⟨hfiles, hdeleted⟩ := @files_removeMemberId Id _ c x y doneAnything
  have hshrinks : ∀ z, (AddressBook.removeMemberId doneAnything c x y).members z ⊆ c.members z := by
    intro z
    rw [members_removeMemberId]
    split_ifs with hz
    · rw [hz]
      exact fun k hk => List.mem_of_mem_filter hk
    · exact List.Subset.refl _
  refine ⟨hc.same.trans sameRecords_removeMemberId, hfiles.trans hc.files,
    fun z => List.Subset.trans (hshrinks z) (hc.shrinks z), fun z hknown hcut => ?_, ?_, ?_,
    fun z hz hne => subset_unsaved_removeMemberId (hc.unsaved_old z hz hne), fun z hz => ?_, fun z t hz ht => ?_⟩
  · rw [members_removeMemberId, if_neg (by rintro rfl; exact hcut hy)]
    exact hc.outer z hknown hcut
  · rw [hdeleted]
    exact hc.deleted_old
  · rw [hdeleted]
    exact hc.deleted_new
  · rcases mem_unsaved_removeMemberId hz with hz | rfl
    · exact hc.unsaved_new z hz
    · exact Or.inr hy
  · have hbelow : CutBelow b c t → CutBelow b (AddressBook.removeMemberId doneAnything c x y) t :=
      fun h => h.imp hshrinks (by rw [hdeleted]; exact List.Subset.refl _)
    by_cases htx : t = x
    · rw [htx]
      exact Or.inr (hx.imp hshrinks (by rw [hdeleted]; exact List.Subset.refl _))
    · refine (hc.cut z t hz ht).imp (fun h => ?_) hbelow
      rw [hdeleted, members_removeMemberId]
      refine ⟨?_, h.2⟩
      split_ifs with hzy
      · exact List.mem_filter.mpr ⟨hzy ▸ h.1, decide_eq_true htx⟩
      · exact h.1

lemma Cutting.delete (hc : Cutting b uid c) (hx : b.Cut uid x) (hne : x ≠ uid) (hbelow : CutBelow b c x) :
    Cutting b uid { c with deleted := x :: c.deleted } := by
  have hkeep : ∀ {t}, CutBelow b c t → CutBelow b { c with deleted := x :: c.deleted } t :=
    fun h => h.imp (fun z => List.Subset.refl _) (List.subset_cons_self x c.deleted)
  refine ⟨⟨hc.same.isGroup, hc.same.toplevel⟩, hc.files, hc.shrinks, hc.outer,
    fun k hk => List.mem_cons_of_mem _ (hc.deleted_old hk), fun z hz => ?_, hc.unsaved_old, hc.unsaved_new,
    fun z t hz ht => ?_⟩
  · rcases List.mem_cons.mp hz with rfl | hz
    · exact Or.inr ⟨hx, hne⟩
    · exact hc.deleted_new z hz
  · by_cases htx : t = x
    · rw [htx]
      exact Or.inr (hkeep hbelow)
    · exact (hc.cut z t hz ht).imp (fun h => ⟨h.1, List.not_mem_cons_of_ne_of_not_mem htx h.2⟩) hkeep

lemma HasParent.delete {s : Id} (h : HasParent b uid c s) : HasParent b uid { c with deleted := x :: c.deleted } s :=
  h.imp_left fun hdel => List.mem_cons_of_mem _ hdel

lemma Cutting.cutBelow (hc : Cutting b uid c) (hx : b.Cut uid x) (hnone : ∀ k ∈ c.members x, ¬b.isGroup k) :
    CutBelow b c x := by
  intro z hz k hk hgroup
  rcases hz.cases_head with rfl | ⟨t, ht, hpath⟩
  · exact absurd hgroup (hnone k hk)
  · rcases hc.cut x t hx ht with ⟨hmem, -⟩ | hbelow
    · exact absurd ht.2 (hnone t hmem)
    · exact hbelow z hpath k hk hgroup

variable (hflat : b.Flat uid)

include hb huid hflat

lemma ensures_removeSubgroup {B : ℕ} (hB : ∀ z, b.Known z → rank z < B) (n : ℕ) (hc : Cutting b uid c)
    (hparents : Parented b uid c) (hx : b.Cut uid x) (hne : x ≠ uid) (hy : b.Cut uid y) (hn : rank x + B < n) :
    Ensures (removeSubgroup doneAnything n c x y) fun d => Cutting b uid d ∧ Parented b uid d ∧ x ∉ d.members y ∧
      ∀ z, d.members z ⊆ c.members z := by
  induction n generalizing c x y with
  | zero => omega
  | succ n ih =>
    obtain ⟨hknown, hgroup, -, -⟩ := cut_known hb huid hx
    have hpurged : Purged b c (c.subgroupsForGroup x).2 := purged_subgroupsForGroup hknown hgroup
    rw [removeSubgroup]
    refine Ensures.bind (P := fun d => Cutting b uid d ∧ Parented b uid d ∧ (∀ k ∈ d.members x, ¬b.isGroup k) ∧
      ∀ z, d.members z ⊆ c.members z) ?_ fun d hd => ?_
    · have hfold := @ensures_foldlM_each _ _ (fun d => Cutting b uid d ∧ Parented b uid d ∧
          ∀ z, d.members z ⊆ (c.subgroupsForGroup x).2.members z) (fun b g => removeSubgroup doneAnything n b g x)
        (fun t d => t ∉ d.members x) (c.subgroupsForGroup x).1 (c.subgroupsForGroup x).2 (fun s hs t ht => ?_)
        ⟨hc.purged hb huid hflat hpurged, fun s hs hsne => (hparents s hs hsne).purged hb hc hpurged hsne,
          fun z => List.Subset.refl _⟩
      · refine hfold.imp fun d hd => ?_
        obtain ⟨⟨hcd, hpd, hsub⟩, hgone, -⟩ := hd
        refine ⟨hcd, hpd, fun k hk hkgroup => ?_, fun z => List.Subset.trans (hsub z) (hpurged.shrinks z)⟩
        have hkx := hsub x hk
        rw [members_subgroupsForGroup, if_pos rfl] at hkx
        obtain ⟨hmem, hheld⟩ := List.mem_filter.mp hkx
        exact hgone k (mem_subgroupsForGroup.mpr ⟨⟨hmem, (hc.same.isGroup k).trans hkgroup⟩, hheld⟩) hk
      · obtain ⟨hcs, hps, hsub⟩ := hs
        obtain ⟨hchild, -⟩ := mem_subgroupsForGroup.mp ht
        have hbchild : b.Child x t := ⟨hc.shrinks x hchild.1, by rw [isGroup, ← hc.same.isGroup t]; exact hchild.2⟩
        have hrank := hb.acyclic x t hknown hbchild
        refine (ih hcs hps (cut_child hx hbchild) (child_ne hb huid hx hbchild) hx (by omega)).imp fun d hd => ?_
        obtain ⟨hcd, hpd, hgone, hshr⟩ := hd
        exact ⟨⟨hcd, hpd, fun z => List.Subset.trans (hshr z) (hsub z)⟩, hgone, fun f hf hmem => hf (hshr x hmem)⟩
    · obtain ⟨hcd, hpd, hnone, hsub⟩ := hd
      have hbelow := hcd.cutBelow hx hnone
      have hce : Cutting b uid (AddressBook.removeMemberId doneAnything d x y) := hcd.removeMemberId hy hbelow
      have hmembers : ∀ z, (AddressBook.removeMemberId doneAnything d x y).members z ⊆ d.members z := by
        intro z
        rw [members_removeMemberId]
        split_ifs with hz
        · rw [hz]
          exact fun k hk => List.mem_of_mem_filter hk
        · exact List.Subset.refl _
      have hxgone : x ∉ (AddressBook.removeMemberId doneAnything d x y).members y := by
        rw [members_removeMemberId, if_pos rfl]
        simp
      have hdel := (@files_removeMemberId Id _ d x y doneAnything).2
      have hpe : ∀ s, b.Cut uid s → s ≠ uid → s ≠ x →
          HasParent b uid (AddressBook.removeMemberId doneAnything d x y) s := by
        intro s hs hsne hsx
        rcases hpd s hs hsne with hsdel | ⟨p, hp, hmem⟩
        · exact Or.inl (by rwa [hdel])
        · refine Or.inr ⟨p, hp, ?_⟩
          rw [members_removeMemberId]
          split_ifs with hpy
          · exact List.mem_filter.mpr ⟨hpy ▸ hmem, decide_eq_true hsx⟩
          · exact hmem
      obtain ⟨found, hfound, hfpurged, hfall⟩ := ensures_allGroupsEverywhere hb huid hflat n hce
        fun z hz => (hB z hz).trans_le (by omega)
      have hcf := hce.purged hb huid hflat hfpurged
      have hbelow' : CutBelow b found.2 x := by
        refine hbelow.imp (fun z => List.Subset.trans (hfpurged.shrinks z) (hmembers z)) ?_
        rw [hfpurged.deleted, hdel]
        exact List.Subset.refl _
      have hgone : x ∉ found.2.members y := fun h => hxgone (hfpurged.shrinks y h)
      have hshr : ∀ z, found.2.members z ⊆ c.members z :=
        fun z => List.Subset.trans (hfpurged.shrinks z) (List.Subset.trans (hmembers z) (hsub z))
      have hpf : ∀ s, b.Cut uid s → s ≠ uid → s ≠ x → HasParent b uid found.2 s :=
        fun s hs hsne hsx => (hpe s hs hsne hsx).purged hb hce hfpurged hsne
      refine Ensures.bind (P := fun r => r = (found.1.filter fun k => x ∈ (found.2.record k).memberIds, found.2))
        ⟨_, by rw [parentGroupsForGroup, hfound]; rfl, rfl⟩ ?_
      rintro _ rfl
      by_cases hnil : (found.1.filter fun k => decide (x ∈ (found.2.record k).memberIds)) = []
      · refine ensures_pure ?_
        rw [if_pos hnil]
        refine ⟨hcf.delete hx hne hbelow', fun s hs hsne => ?_, hgone, hshr⟩
        by_cases hsx : s = x
        · exact Or.inl (hsx ▸ List.mem_cons_self)
        · exact (hpf s hs hsne hsx).delete
      · refine ensures_pure ?_
        rw [if_neg hnil]
        refine ⟨hcf, fun s hs hsne => ?_, hgone, hshr⟩
        by_cases hsx : s = x
        · obtain ⟨p, hp⟩ := List.exists_mem_of_ne_nil _ hnil
          obtain ⟨hpmem, hlists⟩ := List.mem_filter.mp hp
          obtain ⟨hpknown, hpgroup⟩ := hfall p hpmem
          have hmem : x ∈ found.2.members p := of_decide_eq_true hlists
          have hchild : b.Child p x := ⟨hcf.shrinks p hmem, hgroup⟩
          refine Or.inr ⟨p, ?_, by rw [hsx]; exact hmem⟩
          by_contra hpcut
          exact hne ((outer_group hb huid hflat hpknown hpgroup hpcut).2 x hchild)
        · exact hpf s hs hsne hsx

lemma ensures_removeSubgroups {B : ℕ} (hB : ∀ z, b.Known z → rank z < B) (n : ℕ) (hc : Cutting b uid c)
    (hparents : Parented b uid c) (hx : b.Cut uid x) (hn : (c.members x).toFinset.card + rank x + B < n) :
    Ensures (removeSubgroups doneAnything n c x) fun d => Cutting b uid d ∧ Parented b uid d ∧
      ∀ k ∈ d.members x, ¬b.isGroup k := by
  induction n generalizing c with
  | zero => omega
  | succ n ih =>
    obtain ⟨hknown, hgroup, -, -⟩ := cut_known hb huid hx
    have hpurged : Purged b c (c.subgroupsForGroup x).2 := purged_subgroupsForGroup hknown hgroup
    have hc' := hc.purged hb huid hflat hpurged
    have hp' : Parented b uid (c.subgroupsForGroup x).2 :=
      fun s hs hsne => (hparents s hs hsne).purged hb hc hpurged hsne
    rw [removeSubgroups]
    split
    · rename_i hnil
      refine ensures_some ⟨hc', hp', fun k hk hkgroup => ?_⟩
      rw [members_subgroupsForGroup, if_pos rfl] at hk
      obtain ⟨hmem, hheld⟩ := List.mem_filter.mp hk
      have hsub : k ∈ (c.subgroupsForGroup x).1 :=
        mem_subgroupsForGroup.mpr ⟨⟨hmem, (hc.same.isGroup k).trans hkgroup⟩, hheld⟩
      rw [hnil] at hsub
      cases hsub
    · rename_i k ks hks
      have hk : k ∈ (c.subgroupsForGroup x).1 := hks ▸ List.mem_cons_self
      obtain ⟨hchild, -⟩ := mem_subgroupsForGroup.mp hk
      have hbchild : b.Child x k := ⟨hc.shrinks x hchild.1, by rw [isGroup, ← hc.same.isGroup k]; exact hchild.2⟩
      have hrank := hb.acyclic x k hknown hbchild
      refine Ensures.bind (ensures_removeSubgroup hb huid hflat hB n hc' hp' (cut_child hx hbchild)
        (child_ne hb huid hx hbchild) hx (by omega)) fun d hd => ?_
      obtain ⟨hcd, hpd, hgone, hshr⟩ := hd
      refine ih hcd hpd ?_
      have hlt : (d.members x).toFinset.card < (c.members x).toFinset.card := by
        refine Finset.card_lt_card (Finset.ssubset_iff_of_subset (fun z hz => ?_) |>.mpr ⟨k, ?_, ?_⟩)
        · exact List.mem_toFinset.mpr (hpurged.shrinks x (hshr x (List.mem_toFinset.mp hz)))
        · exact List.mem_toFinset.mpr hchild.1
        · exact fun h => hgone (List.mem_toFinset.mp h)
      omega

omit hflat in
lemma cutting_start : Cutting b uid { b with unsaved := b.unsaved.filter (· ≠ uid) } ∧
    Parented b uid { b with unsaved := b.unsaved.filter (· ≠ uid) } := by
  refine ⟨⟨⟨fun _ => rfl, fun _ => rfl⟩, rfl, fun z => List.Subset.refl _, fun z _ _ => rfl, List.Subset.refl _,
    fun z hz => Or.inl hz, fun z hz hne => List.mem_filter.mpr ⟨hz, decide_eq_true hne⟩,
    fun z hz => Or.inl (List.mem_of_mem_filter hz), fun z t hz ht => ?_⟩, fun s hs hne => ?_⟩
  · obtain ⟨hknown, hgroup, -, -⟩ := cut_known hb huid hz
    exact Or.inl ⟨ht.1, (holds_iff.mp (hb.held z hknown hgroup t ht.1)).1⟩
  · rcases hs.2.cases_tail with heq | ⟨y, hpath, hchild⟩
    · exact absurd heq hne
    · exact Or.inr ⟨y, ⟨hs.1, hpath⟩, hchild.1⟩

end Phase

section Loop

/-- The subgroups are gone and the record is deleted; what is in the list is `gs`. -/
structure Deleted (b : AddressBook Id) (uid : Id) (gs : List Id) (c : AddressBook Id) : Prop where
  same : SameRecords b c
  files : c.files = b.files
  shrinks : ∀ z, c.members z ⊆ b.members z
  outer : ∀ z, b.Known z → ¬b.Cut uid z → (c.members z).filter (· ≠ uid) = (b.members z).filter (· ≠ uid)
  deleted : ∀ z, z ∈ c.deleted ↔ z ∈ b.deleted ∨ b.Cut uid z ∨ z = uid
  unsaved_old : ∀ z ∈ b.unsaved, z ≠ uid → z ∈ c.unsaved
  unsaved_new : ∀ z ∈ c.unsaved, z ∈ b.unsaved ∨ b.Cut uid z ∨ z ∈ gs
  groups : ∀ z ∈ c.groups, z ∈ gs
  known : ∀ z ∈ gs, b.Known z ∧ b.isGroup z

variable {gs : List Id} (hb : b.Hierarchy rank) (huid : b.holds uid = true) (hflat : b.Flat uid)

include hb huid hflat

lemma Deleted.holds_member (hc : Deleted b uid gs c) (hknown : b.Known g) (hgroup : b.isGroup g)
    (hcut : ¬b.Cut uid g) (hm : m ∈ b.members g) (hne : m ≠ uid) : c.holds m = true := by
  obtain ⟨hlive, hfound⟩ := holds_iff.mp (hb.held g hknown hgroup m hm)
  rw [holds_iff, hc.files, hc.deleted]
  refine ⟨?_, hfound.imp_left fun hu => hc.unsaved_old m hu hne⟩
  rintro (hdel | hmcut | heq)
  · exact hlive hdel
  · exact hne ((outer_group hb huid hflat hknown hgroup hcut).2 m ⟨hm, (cut_known hb huid hmcut).2.1⟩)
  · exact hne heq

lemma Deleted.removeRecordForGroup (hc : Deleted b uid gs c) (hg : g ∈ gs) (n : ℕ) :
    Ensures (removeRecordForGroup doneAnything (n + 1) c uid g true) fun d => Deleted b uid gs d ∧
      uid ∉ d.members g ∧ ∀ z, d.members z ⊆ c.members z := by
  obtain ⟨hknown, hgroup⟩ := hc.known g hg
  obtain ⟨hfiles, hdeleted⟩ := @files_removeMemberId Id _ c uid g doneAnything
  set e := AddressBook.removeMemberId doneAnything c uid g with he
  have hsame : SameRecords c e := sameRecords_removeMemberId
  have hholds : ∀ z, c.holds z = true → e.holds z = true := by
    intro z hz
    obtain ⟨hlive, hfound⟩ := holds_iff.mp hz
    rw [holds_iff, hfiles, hdeleted]
    exact ⟨hlive, hfound.imp_left fun hu => subset_unsaved_removeMemberId hu⟩
  have heg : e.members g = (c.members g).filter (· ≠ uid) := by
    rw [he, members_removeMemberId, if_pos rfl]
  have hnone : (e.subgroupsForGroup g).1 = [] := by
    refine List.eq_nil_iff_forall_not_mem.mpr fun k hk => ?_
    obtain ⟨⟨hmem, hkgroup⟩, hheld⟩ := mem_subgroupsForGroup.mp hk
    rw [heg] at hmem
    obtain ⟨hmem, hne⟩ := List.mem_filter.mp hmem
    have hkb : b.isGroup k := by
      rw [isGroup, ← (hc.same.trans hsame).isGroup k]
      exact hkgroup
    have hchild : b.Child g k := ⟨hc.shrinks g hmem, hkb⟩
    by_cases hcut : b.Cut uid g
    · have hlive := (holds_iff.mp hheld).1
      rw [hdeleted, hc.deleted] at hlive
      exact hlive (Or.inr (Or.inl (cut_child hcut hchild)))
    · exact of_decide_eq_true hne ((outer_group hb huid hflat hknown hgroup hcut).2 k hchild)
  rw [AddressBook.removeRecordForGroup, if_pos rfl, hnone]
  have hmembers : ∀ z, (e.subgroupsForGroup g).2.members z =
      if z = g then ((c.members g).filter (· ≠ uid)).filter e.holds else c.members z := by
    intro z
    rw [members_subgroupsForGroup, heg]
    split_ifs with hz
    · rfl
    · rw [he, members_removeMemberId, if_neg hz]
  have hshr : ∀ z, (e.subgroupsForGroup g).2.members z ⊆ c.members z := by
    intro z
    rw [hmembers]
    split_ifs with hz
    · rw [hz]
      exact fun k hk => List.mem_of_mem_filter (List.mem_of_mem_filter hk)
    · exact List.Subset.refl _
  refine ensures_pure ⟨⟨(hc.same.trans hsame).trans (@sameRecords_setMemberIds Id _ e g _), hfiles.trans hc.files,
    fun z => List.Subset.trans (hshr z) (hc.shrinks z), fun z hzknown hzcut => ?_, fun z => ?_, fun z hz hne => ?_,
    fun z hz => ?_, fun z hz => ?_, hc.known⟩, ?_, hshr⟩
  · rw [hmembers]
    split_ifs with hz
    · rw [hz] at hzcut ⊢
      rw [← hc.outer g hknown hzcut, List.filter_filter, List.filter_filter]
      refine List.filter_congr fun k hk => ?_
      by_cases hne : k = uid
      · simp [hne]
      · rw [hholds k (hc.holds_member hb huid hflat hknown hgroup hzcut (hc.shrinks g hk) hne)]
        simp
    · exact hc.outer z hzknown hzcut
  · exact (by rw [hdeleted] : z ∈ e.deleted ↔ z ∈ c.deleted).trans (hc.deleted z)
  · exact subset_unsaved_removeMemberId (hc.unsaved_old z hz hne)
  · rcases mem_unsaved_removeMemberId (show z ∈ e.unsaved from hz) with hz | rfl
    · exact hc.unsaved_new z hz
    · exact Or.inr (Or.inr hg)
  · obtain ⟨htop, hfound⟩ := mem_groups.mp hz
    have htop' : c.isToplevelGroup z = true := by
      have hs := hsame.trans (@sameRecords_setMemberIds Id _ e g ((e.record g).memberIds.filter e.holds))
      rw [isToplevelGroup] at htop ⊢
      rw [← hs.isGroup z, ← hs.toplevel z]
      exact htop
    rcases hfound with hf | hu
    · have hf' : z ∈ c.files ∧ z ∉ c.deleted := by
        rw [← hfiles, ← hdeleted]
        exact hf
      exact hc.groups z (mem_groups.mpr ⟨htop', Or.inl hf'⟩)
    · rcases mem_unsaved_removeMemberId (show z ∈ e.unsaved from hu) with hz | rfl
      · exact hc.groups z (mem_groups.mpr ⟨htop', Or.inr hz⟩)
      · exact hg
  · rw [hmembers, if_pos rfl]
    exact fun h => by simpa using List.mem_of_mem_filter h

lemma removed_of_deleted (hc : Deleted b uid c.groups c) (hd : Deleted b uid c.groups d)
    (hall : ∀ g ∈ c.groups, uid ∉ d.members g) : Removed b uid d := by
  have hlisted : ∀ g, d.holds g = true → d.isGroup g → g ≠ uid → ¬b.Cut uid g ∧ b.Known g ∧ g ∈ c.groups := by
    intro g hheld hgroup hne
    obtain ⟨hlive, hfound⟩ := holds_iff.mp hheld
    rw [hd.deleted, not_or, not_or] at hlive
    obtain ⟨hold, hcut, -⟩ := hlive
    have hgb : b.isGroup g := by
      rw [isGroup, ← hd.same.isGroup g]
      exact hgroup
    have hknown : b.Known g := by
      rw [hd.files] at hfound
      rcases hfound with hu | hf
      · rcases hd.unsaved_new g hu with hu | hcut' | hg
        · exact Or.inl (holds_iff.mpr ⟨hold, Or.inl hu⟩)
        · exact absurd hcut' hcut
        · exact (hd.known g hg).1
      · exact Or.inl (holds_iff.mpr ⟨hold, Or.inr hf⟩)
    obtain ⟨htop, hfound⟩ := mem_groups.mp (outer_group hb huid hflat hknown hgb hcut).1
    refine ⟨hcut, hknown, mem_groups.mpr ⟨?_, ?_⟩⟩
    · rw [isToplevelGroup] at htop ⊢
      rw [hc.same.isGroup, hc.same.toplevel]
      exact htop
    · rw [hc.files, hc.deleted]
      refine hfound.imp (fun h => ⟨h.1, ?_⟩) fun h => hc.unsaved_old g h hne
      rintro (hdel | hcut' | heq)
      · exact hold hdel
      · exact hcut hcut'
      · exact hne heq
  refine ⟨fun g hg hgroup => ?_, fun z hne hheld hgroup => ?_⟩
  · rcases hg with hheld | hlist
    · by_cases hne : g = uid
      · exact absurd ((hd.deleted g).mpr (Or.inr (Or.inr hne))) (holds_iff.mp hheld).1
      · exact hall g (hlisted g hheld hgroup hne).2.2
    · exact hall g (hd.groups g hlist)
  · obtain ⟨hcut, hknown, hg⟩ := hlisted z hheld hgroup hne
    rw [← hd.outer z hknown hcut, List.filter_eq_self.mpr]
    exact fun k hk => decide_eq_true (ne_of_mem_of_not_mem hk (hall z hg))

lemma ensures_phase {B : ℕ} (hB : ∀ z, b.Known z → rank z < B) {n : ℕ}
    (hn : (b.members uid).toFinset.card + rank uid + B < n) :
    Ensures (if (b.record uid).isGroup then
      removeSubgroups doneAnything n { b with unsaved := b.unsaved.filter (· ≠ uid) } uid
      else some { b with unsaved := b.unsaved.filter (· ≠ uid) }) fun d =>
        Cutting b uid d ∧ ∀ s, b.Cut uid s → s ≠ uid → s ∈ d.deleted := by
  obtain ⟨hstart, hparents⟩ := cutting_start hb huid
  split_ifs with hgroup
  · have huidcut : b.Cut uid uid := ⟨hgroup, Relation.ReflTransGen.refl⟩
    refine (ensures_removeSubgroups hb huid hflat hB n hstart hparents huidcut hn).imp fun d ⟨hd, hp, hnone⟩ => ?_
    have hbelow := hd.cutBelow huidcut hnone
    refine ⟨hd, fun s hs hne => ?_⟩
    rcases hp s hs hne with hdel | ⟨y, hy, hmem⟩
    · exact hdel
    · exact hbelow y hy.2 s hmem (cut_known hb huid hs).2.1
  · exact ensures_some ⟨hstart, fun s hs _ => absurd hs.1 hgroup⟩

end Loop

/-- The removal comes back, with the record gone from every group, exactly when no group that stays in the list has a
subgroup other than the record. -/
theorem removesEverywhere_iff (doneAnything : AddressBook Id → Id → Bool) (b : AddressBook Id) (uid : Id)
    (rank : Id → ℕ) (hb : b.Hierarchy rank) (huid : b.holds uid = true) :
    RemovesEverywhere doneAnything b uid ↔ b.Flat uid := by
  refine ⟨fun ⟨N, hN⟩ g hg hcut m hchild => ?_, fun hflat => ?_⟩
  · by_contra hm
    obtain ⟨d, hd, -⟩ := hN N le_rfl
    rw [removeRecord_none hb huid hg hcut hchild hm N] at hd
    cases hd
  · obtain ⟨B, hB⟩ := exists_bound hb
    refine ⟨(b.members uid).toFinset.card + rank uid + B + 1, fun n hn => ?_⟩
    obtain ⟨n, rfl⟩ := Nat.exists_eq_add_one_of_ne_zero (show n ≠ 0 by omega)
    refine Ensures.bind (ensures_phase hb huid hflat hB (by omega)) fun c ⟨hc, hall⟩ => ?_
    set e : AddressBook Id := { c with deleted := uid :: c.deleted } with he
    have hdeleted : Deleted b uid e.groups e := by
      refine ⟨⟨hc.same.isGroup, hc.same.toplevel⟩, hc.files, hc.shrinks, hc.outer, fun z => ⟨fun hz => ?_, ?_⟩,
        hc.unsaved_old, fun z hz => (hc.unsaved_new z hz).imp_right Or.inl, fun z hz => hz, fun z hz => ?_⟩
      · rcases List.mem_cons.mp hz with rfl | hz
        · exact Or.inr (Or.inr rfl)
        · exact (hc.deleted_new z hz).imp_right fun h => Or.inl h.1
      · rintro (hdel | hcut | rfl)
        · exact List.mem_cons_of_mem _ (hc.deleted_old hdel)
        · by_cases hne : z = uid
          · exact hne ▸ List.mem_cons_self
          · exact List.mem_cons_of_mem _ (hall z hcut hne)
        · exact List.mem_cons_self
      · obtain ⟨htop, hfound⟩ := mem_groups.mp hz
        refine hc.known_of_groups hb huid (mem_groups.mpr ⟨htop, hfound.imp_left fun h => ⟨h.1, fun hdel => ?_⟩⟩)
        exact h.2 (List.mem_cons_of_mem _ hdel)
    refine (@ensures_foldlM_each _ _ (Deleted b uid e.groups) _ (fun g d => uid ∉ d.members g) e.groups e
      (fun s hs g hg => ?_) hdeleted).imp fun d ⟨hd, hgone, _⟩ => removed_of_deleted hb huid hflat hdeleted hd hgone
    refine (hs.removeRecordForGroup hb huid hflat hg n).imp fun d ⟨hd, hgone, hshr⟩ => ⟨hd, hgone, fun f hf hmem => ?_⟩
    exact hf (hshr f hmem)

section Sample

/-- Ada is in a group that is in another one. -/
def office : AddressBook ℕ where
  files := [1, 2, 3]
  unsaved := []
  deleted := []
  record := fun uid =>
    if uid = 1 then ⟨true, [2], true⟩ else if uid = 2 then ⟨true, [3], false⟩ else ⟨false, [], true⟩

/-- Ada and Bob are in a group of their own. -/
def flatOffice : AddressBook ℕ where
  files := [1, 2, 3]
  unsaved := []
  deleted := []
  record := fun uid => if uid = 1 then ⟨true, [2, 3], true⟩ else ⟨false, [], true⟩

lemma office_hierarchy : office.Hierarchy fun uid => if uid = 1 then 2 else if uid = 2 then 1 else 0 where
  held g _ hg m hm := by
    by_cases h1 : g = 1
    · subst h1
      obtain rfl : m = 2 := by simpa [members, office] using hm
      decide
    · by_cases h2 : g = 2
      · subst h2
        obtain rfl : m = 3 := by simpa [members, office] using hm
        decide
      · simp [isGroup, office, h1, h2] at hg
  acyclic g m _ h := by
    obtain ⟨hm, hg⟩ := h
    by_cases h1 : g = 1
    · subst h1
      obtain rfl : m = 2 := by simpa [members, office] using hm
      decide
    · by_cases h2 : g = 2
      · subst h2
        obtain rfl : m = 3 := by simpa [members, office] using hm
        cases hg
      · simp [members, office, h1, h2] at hm
  listed g _ hg := by
    by_cases h1 : g = 1
    · exact Or.inl (by rw [h1]; rfl)
    · by_cases h2 : g = 2
      · exact Or.inr ⟨1, Or.inl (by decide), rfl, by rw [h2]; exact List.mem_singleton.mpr rfl, hg⟩
      · simp [isGroup, office, h1, h2] at hg

/-- The removal of Ada from the nested groups does not come back. -/
theorem nested_group_no_return : ¬RemovesEverywhere (fun _ _ => false) office 3 := by
  rintro ⟨N, hN⟩
  obtain ⟨d, hd, -⟩ := hN N le_rfl
  have hcut : ¬office.Cut 3 1 := fun h => absurd h.1 (by decide)
  rw [removeRecord_none office_hierarchy (by decide) (by decide) hcut (m := 2) ⟨by decide, rfl⟩ (by decide) N] at hd
  cases hd

theorem removesEverywhere_flatOffice : RemovesEverywhere (fun _ _ => true) flatOffice 3 ↔ flatOffice.Flat 3 := by
  have hmember : ∀ g m, m ∈ flatOffice.members g → g = 1 ∧ (m = 2 ∨ m = 3) := by
    intro g m hm
    by_cases h1 : g = 1
    · subst h1
      exact ⟨rfl, by simpa [members, flatOffice] using hm⟩
    · simp [members, flatOffice, h1] at hm
  refine removesEverywhere_iff (fun _ _ => true) flatOffice 3 (fun _ => 0) ⟨fun g _ _ m hm => ?_, fun g m _ h => ?_,
    fun g _ hg => Or.inl ?_⟩ (by decide)
  · obtain ⟨-, rfl | rfl⟩ := hmember g m hm <;> decide
  · obtain ⟨hm, hg⟩ := h
    obtain ⟨-, rfl | rfl⟩ := hmember g m hm <;> cases hg
  · by_cases h1 : g = 1
    · rw [h1]
      rfl
    · simp [isGroup, flatOffice, h1] at hg

end Sample

end Xperimentum.Addresses.AddressBook
