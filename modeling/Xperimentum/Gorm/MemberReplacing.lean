import Xperimentum.Gorm.MemberCaches

/-! Replacing a member keeps the filled lists right. -/

namespace Xperimentum.Gorm

open Lib.Hierarchies Relation ClassManager

/-! Replacing the only occurrence in an array. -/

section Arrays

variable {array : List Name} {oldName newName x : Name}

def renamed (oldName newName x : Name) : Name := if x = oldName then newName else x

lemma replace_cons_eq (a : Name) : (a :: array).replace oldName newName =
    if oldName = a then newName :: array else a :: array.replace oldName newName := by
  rw [List.replace_cons]
  by_cases h : oldName = a
  · rw [if_pos h, h, beq_self_eq_true]
  · rw [if_neg h, beq_eq_false_iff_ne.mpr h]

lemma replace_of_notMem (h : oldName ∉ array) : array.replace oldName newName = array := by
  induction array with
  | nil => rfl
  | cons a array ih =>
    rw [List.mem_cons, not_or] at h
    rw [replace_cons_eq, if_neg h.1, ih h.2]

lemma mem_replace (h : array.count oldName ≤ 1) :
    x ∈ array.replace oldName newName ↔ ∃ z ∈ array, x = renamed oldName newName z := by
  induction array with
  | nil => simp
  | cons a array ih =>
    rw [replace_cons_eq]
    by_cases ha : oldName = a
    · subst ha
      have hnone : oldName ∉ array := by
        intro hmem
        rw [List.count_cons_self] at h
        have hpos := List.count_pos_iff.mpr hmem
        omega
      have hsame : ∀ z ∈ array, renamed oldName newName z = z := by
        intro z hz
        refine if_neg ?_
        rintro rfl
        exact hnone hz
      rw [if_pos rfl, List.mem_cons]
      constructor
      · rintro (rfl | hx)
        · exact ⟨oldName, List.mem_cons_self, (if_pos rfl).symm⟩
        · exact ⟨x, List.mem_cons_of_mem _ hx, (hsame x hx).symm⟩
      · rintro ⟨z, hz, rfl⟩
        rcases List.mem_cons.mp hz with rfl | hz
        · exact .inl (if_pos rfl)
        · rw [hsame z hz]
          exact .inr hz
    · rw [List.count_cons_of_ne (Ne.symm ha)] at h
      rw [if_neg ha, List.mem_cons, ih h]
      have hsame : renamed oldName newName a = a := if_neg (Ne.symm ha)
      constructor
      · rintro (rfl | ⟨z, hz, rfl⟩)
        · exact ⟨x, List.mem_cons_self, hsame.symm⟩
        · exact ⟨z, List.mem_cons_of_mem a hz, rfl⟩
      · rintro ⟨z, hz, rfl⟩
        rcases List.mem_cons.mp hz with rfl | hz
        · exact .inl hsame
        · exact .inr ⟨z, hz, rfl⟩

lemma nodup_replace (h : array.Nodup) (hapart : ¬(oldName ∈ array ∧ newName ∈ array)) :
    (array.replace oldName newName).Nodup := by
  by_cases hold : oldName ∈ array
  · have hnew : newName ∉ array := fun hnew => hapart ⟨hold, hnew⟩
    clear hapart
    induction array with
    | nil => exact absurd hold List.not_mem_nil
    | cons a array ih =>
      obtain ⟨ha, harray⟩ := List.nodup_cons.mp h
      rw [List.mem_cons, not_or] at hnew
      rw [replace_cons_eq]
      split
      · exact List.nodup_cons.mpr ⟨hnew.2, harray⟩
      · next hne =>
        have hmem : oldName ∈ array := (List.mem_cons.mp hold).resolve_left hne
        refine List.nodup_cons.mpr ⟨fun hin => ?_, ih harray hmem hnew.2⟩
        obtain ⟨z, hz, heq⟩ := (mem_replace (List.nodup_iff_count_le_one.mp harray oldName)).mp hin
        rw [renamed] at heq
        split at heq
        · exact hnew.1 heq.symm
        · exact ha (heq ▸ hz)
  · rw [replace_of_notMem hold]
    exact h

lemma replace_self (a : Name) : array.replace a a = array := by
  induction array with
  | nil => rfl
  | cons b array ih =>
    rw [replace_cons_eq, ih]
    split
    · next h => rw [h]
    · rfl

lemma replace_replace (h : array.count oldName ≤ 1) :
    (array.replace oldName newName).replace oldName newName = array.replace oldName newName := by
  by_cases hsame : oldName = newName
  · rw [hsame, replace_self]
  · refine replace_of_notMem fun hmem => ?_
    obtain ⟨z, -, heq⟩ := (mem_replace h).mp hmem
    rw [renamed] at heq
    split at heq
    · exact hsame heq
    · next hne => exact hne heq.symm

end Arrays

variable {s t u v : ClassManager} {kind : MemberKind} {depth : ℕ} {oldMember newMember : Name}

/-- The class is passed over: it has the new member already. -/
def Passed (members : Members) (newMember : Name) : Prop :=
  newMember ∈ members.all.getD [] ∨ newMember ∈ members.extra.getD []

/-- The old member is at most once in each own list of the class, and the class does not have both. -/
structure Replaceable (s : ClassManager) (kind : MemberKind) (oldMember newMember d : Name) : Prop where
  apart : ¬(s.Inherits kind d oldMember ∧ s.Inherits kind d newMember)
  own : ((s.members kind d).own.getD []).count oldMember ≤ 1
  extra : ((s.members kind d).extra.getD []).count oldMember ≤ 1

/-- What `replaceAction` and `replaceOutlet` need. -/
structure MayReplace (s : ClassManager) (kind : MemberKind) (oldMember newMember c : Name) : Prop where
  below : ∀ d, AtOrBelow s d c → Replaceable s kind oldMember newMember d
  above : ∀ p, s.parent kind c = some p → ¬s.Inherits kind p oldMember
  subclasses : kind = .action → s.subClassesOf (some firstResponder) = []
  firstResponder : kind = .action → Passed (s.members kind firstResponder) newMember ∨
    Replaceable s kind oldMember newMember firstResponder

lemma getD_map_replace (array : Option (List Name)) :
    (array.map fun array => array.replace oldMember newMember).getD [] =
      (array.getD []).replace oldMember newMember := by
  cases array <;> rfl

lemma replace_eq_self (hs : ListsRight s) {d : Name} (h : ¬s.Inherits kind d oldMember) :
    (s.members kind d).replace oldMember newMember = s.members kind d := by
  have hown : oldMember ∉ (s.members kind d).own.getD [] := fun hmem => h (.own (.inl hmem))
  have hextra : oldMember ∉ (s.members kind d).extra.getD [] := fun hmem => h (.own (.inr hmem))
  have hall : oldMember ∉ (s.members kind d).all.getD [] := by
    intro hmem
    cases hlist : (s.members kind d).all with
    | none =>
      rw [hlist] at hmem
      cases hmem
    | some all =>
      rw [hlist] at hmem
      exact h (((hs.lists kind d all hlist).2 oldMember).mp hmem)
  have hmap (array : Option (List Name)) (hnot : oldMember ∉ array.getD []) :
      (array.map fun array => array.replace oldMember newMember) = array := by
    cases array with
    | none => rfl
    | some array => exact congrArg some (replace_of_notMem hnot)
  rw [Members.replace, hmap _ hown, hmap _ hextra, hmap _ hall]

lemma replace_replace_members (hs : ListsRight s) {d : Name} (h : Replaceable s kind oldMember newMember d) :
    ((s.members kind d).replace oldMember newMember).replace oldMember newMember =
      (s.members kind d).replace oldMember newMember := by
  have hmap (array : Option (List Name)) (hcount : (array.getD []).count oldMember ≤ 1) :
      ((array.map fun array => array.replace oldMember newMember).map fun array =>
        array.replace oldMember newMember) = array.map fun array => array.replace oldMember newMember := by
    cases array with
    | none => rfl
    | some array => exact congrArg some (replace_replace hcount)
  have hall : ((s.members kind d).all.getD []).count oldMember ≤ 1 := by
    cases hlist : (s.members kind d).all with
    | none => exact Nat.zero_le 1
    | some all => exact List.nodup_iff_count_le_one.mp (hs.lists kind d all hlist).1 oldMember
  rw [Members.replace, Members.replace, hmap _ h.own, hmap _ h.extra, hmap _ hall]

/-! One name for another in a set of classes. -/

section Renamed

variable {D : Name → Prop}

structure Renamed (s t : ClassManager) (kind : MemberKind) (oldMember newMember : Name) (D : Name → Prop) : Prop where
  same : SameClasses s t
  other : ∀ other d, other ≠ kind → t.members other d = s.members other d
  done : ∀ d, D d → t.members kind d = (s.members kind d).replace oldMember newMember
  kept : ∀ d, ¬D d → t.members kind d = s.members kind d

/-- The classes that inherit from one of them are among them, and the others that they inherit from lack the member. -/
structure Renamable (s : ClassManager) (kind : MemberKind) (oldMember newMember : Name) (D : Name → Prop) : Prop where
  replaceable : ∀ d, D d → Replaceable s kind oldMember newMember d
  closed : ∀ d p, s.parent kind d = some p → D p → D d
  border : ∀ d p, s.parent kind d = some p → D d → ¬D p → ¬s.Inherits kind p oldMember

lemma Renamed.defines (h : Renamed s t kind oldMember newMember D) (hr : Renamable s kind oldMember newMember D)
    {d x : Name} (hd : D d) :
    t.Defines kind d x ↔ ∃ z, s.Defines kind d z ∧ x = renamed oldMember newMember z := by
  rw [ClassManager.Defines, h.done d hd, Members.replace]
  dsimp only
  rw [getD_map_replace, getD_map_replace, mem_replace (hr.replaceable d hd).own,
    mem_replace (hr.replaceable d hd).extra, ← exists_or]
  simp only [ClassManager.Defines, or_and_right]

lemma renamed_of_not (hr : Renamable s kind oldMember newMember D) {d p x : Name} (hp : s.parent kind d = some p)
    (hd : D d) (hnot : ¬D p) (hx : s.Inherits kind p x) : renamed oldMember newMember x = x := by
  refine if_neg ?_
  rintro rfl
  exact hr.border d p hp hd hnot hx

lemma Renamed.inherits_of (h : Renamed s t kind oldMember newMember D) (hr : Renamable s kind oldMember newMember D)
    {d x : Name} (hx : s.Inherits kind d x) :
    (D d → t.Inherits kind d (renamed oldMember newMember x)) ∧ (¬D d → t.Inherits kind d x) := by
  have hparent := parent_congr h.same kind
  induction hx with
  | own hx =>
    refine ⟨fun hd => .own ((h.defines hr hd).mpr ⟨_, hx, rfl⟩), fun hd => .own ?_⟩
    rw [ClassManager.Defines, h.kept _ hd]
    exact hx
  | @super d p x hp hx ih =>
    rw [← hparent] at hp
    refine ⟨fun hd => .super hp ?_, fun hd => .super hp (ih.2 fun hdp => hd ?_)⟩
    · by_cases hdp : D p
      · exact ih.1 hdp
      · rw [renamed_of_not hr (hparent ▸ hp) hd hdp hx]
        exact ih.2 hdp
    · exact hr.closed d p (hparent ▸ hp) hdp

lemma Renamed.of_inherits (h : Renamed s t kind oldMember newMember D) (hr : Renamable s kind oldMember newMember D)
    {d x : Name} (hx : t.Inherits kind d x) :
    (D d → ∃ z, s.Inherits kind d z ∧ x = renamed oldMember newMember z) ∧ (¬D d → s.Inherits kind d x) := by
  have hparent := parent_congr h.same kind
  induction hx with
  | own hx =>
    refine ⟨fun hd => ?_, fun hd => .own ?_⟩
    · obtain ⟨z, hz, heq⟩ := (h.defines hr hd).mp hx
      exact ⟨z, .own hz, heq⟩
    · rw [ClassManager.Defines, h.kept _ hd] at hx
      exact hx
  | @super d p x hp _ ih =>
    rw [hparent] at hp
    refine ⟨fun hd => ?_, fun hd => .super hp (ih.2 fun hdp => hd (hr.closed d p hp hdp))⟩
    by_cases hdp : D p
    · obtain ⟨z, hz, heq⟩ := ih.1 hdp
      exact ⟨z, .super hp hz, heq⟩
    · have hz := ih.2 hdp
      exact ⟨x, .super hp hz, (renamed_of_not hr hp hd hdp hz).symm⟩

lemma ListsRight.renamed (hs : ListsRight s) (h : Renamed s t kind oldMember newMember D)
    (hr : Renamable s kind oldMember newMember D) : ListsRight t := by
  have hkept {other : MemberKind} {d : Name} (hd : ¬(other = kind ∧ D d)) :
      t.members other d = s.members other d ∧ ∀ x, t.Inherits other d x ↔ s.Inherits other d x := by
    by_cases hkind : other = kind
    · subst hkind
      have hd' : ¬D d := fun hd' => hd ⟨rfl, hd'⟩
      exact ⟨h.kept d hd', fun x => ⟨fun hx => (h.of_inherits hr hx).2 hd', fun hx => (h.inherits_of hr hx).2 hd'⟩⟩
    · refine ⟨h.other other d hkind, inherits_congr_of (parent_congr h.same other) (fun c x => ?_) d⟩
      rw [ClassManager.Defines, h.other other c hkind, ClassManager.Defines]
  constructor
  · intro other d all hall
    by_cases hd : other = kind ∧ D d
    · obtain ⟨rfl, hd⟩ := hd
      rw [h.done d hd] at hall
      obtain ⟨old, hold, rfl⟩ := Option.map_eq_some_iff.mp hall
      obtain ⟨hnodup, hmem⟩ := hs.lists other d old hold
      refine ⟨nodup_replace hnodup fun hboth => ?_, fun x => ?_⟩
      · rw [hmem, hmem] at hboth
        exact (hr.replaceable d hd).apart hboth
      · rw [mem_replace (List.nodup_iff_count_le_one.mp hnodup oldMember)]
        constructor
        · rintro ⟨z, hz, rfl⟩
          exact (h.inherits_of hr ((hmem z).mp hz)).1 hd
        · intro hx
          obtain ⟨z, hz, heq⟩ := (h.of_inherits hr hx).1 hd
          exact ⟨z, (hmem z).mpr hz, heq⟩
    · obtain ⟨hmembers, hinherits⟩ := hkept hd
      rw [hmembers] at hall
      obtain ⟨hnodup, hmem⟩ := hs.lists other d all hall
      exact ⟨hnodup, fun x => (hmem x).trans (hinherits x).symm⟩
  · intro other d hnone hroot
    rw [parent_congr h.same] at hroot
    have hroot' : ∀ p, s.parent other d = some p → s.isKnownClass p = false :=
      fun p hp => isKnownClass_congr h.same p ▸ hroot p hp
    by_cases hd : other = kind ∧ D d
    · obtain ⟨rfl, hd⟩ := hd
      rw [h.done d hd] at hnone ⊢
      rw [Members.replace] at hnone ⊢
      rw [getD_map_replace]
      refine nodup_replace (hs.roots other d (Option.map_eq_none_iff.mp hnone) hroot') fun hboth => ?_
      exact (hr.replaceable d hd).apart ⟨.own (.inl hboth.1), .own (.inl hboth.2)⟩
    · rw [(hkept hd).1] at hnone ⊢
      exact hs.roots other d hnone hroot'

end Renamed

/-! What replacing does to a subtree. -/

section Replacing

/-- A state on the way: the first responder is as it was, or done. -/
structure Within (s u : ClassManager) (kind : MemberKind) (oldMember newMember : Name) : Prop where
  same : SameClasses s u
  other : ∀ other d, other ≠ kind → u.members other d = s.members other d
  first : kind = .action → u.members kind firstResponder = s.members kind firstResponder ∨
    ¬Passed (s.members kind firstResponder) newMember ∧
      u.members kind firstResponder = (s.members kind firstResponder).replace oldMember newMember

variable {c d e : Name}

lemma members_replace (e : Name) (other : MemberKind) (d : Name) :
    (u.modifyMembers kind e fun members => members.replace oldMember newMember).members other d =
      if other = kind ∧ d = e then (u.members kind e).replace oldMember newMember else u.members other d :=
  members_modify_of_empty rfl other d

lemma Within.modify (hu : Within s u kind oldMember newMember) (he : ¬IsFirst kind e) :
    Within s (u.modifyMembers kind e fun members => members.replace oldMember newMember) kind oldMember newMember where
  same := hu.same.trans (sameClasses_modifyMembers _)
  other other d hne := by rw [members_replace, if_neg fun h => hne h.1, hu.other other d hne]
  first hkind := by
    rw [members_replace, if_neg fun h => he ⟨hkind, h.2.symm⟩]
    exact hu.first hkind

lemma replace_firstResponder (hs : ListsRight s) (hnone : s.subClassesOf (some firstResponder) = [])
    (hfirst : Passed (s.members .action firstResponder) newMember ∨
      Replaceable s .action oldMember newMember firstResponder)
    (hu : Within s u .action oldMember newMember)
    (h : replaceMember .action oldMember newMember depth u firstResponder = some v) :
    Within s v .action oldMember newMember ∧
      ∀ d, ¬IsFirst .action d → v.members .action d = u.members .action d := by
  cases depth with
  | zero => cases h
  | succ depth =>
    rw [replaceMember] at h
    dsimp only at h
    split at h
    · obtain rfl := Option.some.inj h
      exact ⟨hu, fun _ _ => rfl⟩
    · next hpassed =>
      rw [subClassesOf_congr hu.same, hnone, List.foldlM_nil] at h
      rw [show (pure _ : Option ClassManager) = some _ from rfl, Option.bind_some, if_neg fun h => h.2 rfl] at h
      obtain rfl := Option.some.inj h
      have hself : (u.members .action firstResponder).replace oldMember newMember =
          (s.members .action firstResponder).replace oldMember newMember := by
        rcases hu.first rfl with heq | ⟨hnot, heq⟩
        · rw [heq]
        · rw [heq, replace_replace_members hs (hfirst.resolve_left hnot)]
      have hnot : ¬Passed (s.members .action firstResponder) newMember := by
        rcases hu.first rfl with heq | ⟨hnot, -⟩
        · rw [heq] at hpassed
          exact hpassed
        · exact hnot
      refine ⟨⟨hu.same.trans (sameClasses_modifyMembers _), fun other d hne => ?_, fun _ => .inr ⟨hnot, ?_⟩⟩,
        fun d hd => ?_⟩
      · rw [members_replace, if_neg fun h => hne h.1, hu.other other d hne]
      · rw [members_replace, if_pos ⟨rfl, rfl⟩, hself]
      · rw [members_replace]
        exact if_neg hd

lemma eq_first_of_path (hnone : kind = .action → s.subClassesOf (some firstResponder) = []) (hkind : kind = .action)
    (h : ReflTransGen (Above (s.parent kind)) d firstResponder) : d = firstResponder := by
  rcases reflTransGen_iff_eq_or_transGen.mp h with heq | hbelow
  · exact heq.symm
  · obtain ⟨b, -, hb⟩ := TransGen.tail'_iff.mp hbelow
    have hmem := mem_subClassesOf.mpr (super_of_parent hb)
    rw [hnone hkind] at hmem
    cases hmem

lemma path_of_atOrBelow (hnone : kind = .action → s.subClassesOf (some firstResponder) = []) (hd : ¬IsFirst kind d)
    (h : AtOrBelow s d e) : ReflTransGen (Above (s.parent kind)) d e :=
  (parent_path kind h).resolve_right fun ⟨hkind, hpath⟩ => hd ⟨hkind, eq_first_of_path hnone hkind hpath⟩

lemma inherits_of_passed (hs : ListsRight s) (h : Passed (s.members kind e) newMember) :
    s.Inherits kind e newMember := by
  rcases h with hmem | hmem
  · cases hlist : (s.members kind e).all with
    | none =>
      rw [hlist] at hmem
      cases hmem
    | some all =>
      rw [hlist] at hmem
      exact ((hs.lists kind e all hlist).2 newMember).mp hmem
  · exact .own (.inr hmem)

/-- The subtree of the class is done, and what is neither in it nor the first responder stays. -/
structure Replaced (s u v : ClassManager) (kind : MemberKind) (oldMember newMember : Name)
    (subtree : Name → Prop) : Prop where
  within : Within s v kind oldMember newMember
  done : ∀ d, subtree d → ¬IsFirst kind d → v.members kind d = (s.members kind d).replace oldMember newMember
  kept : ∀ d, ¬subtree d → ¬IsFirst kind d → v.members kind d = u.members kind d

lemma replace_subclasses (ha : Acyclic s.superClassNameForClassNamed) (hs : ListsRight s)
    (hnone : kind = .action → s.subClassesOf (some firstResponder) = [])
    (hfirst : kind = .action → Passed (s.members kind firstResponder) newMember ∨
      Replaceable s kind oldMember newMember firstResponder)
    (hstep : ∀ c u v, c ∈ s.subClassesOf (some e) → ¬IsFirst kind c → Within s u kind oldMember newMember →
      (∀ d, AtOrBelow s d c → ¬IsFirst kind d → u.members kind d = s.members kind d) →
      replaceMember kind oldMember newMember depth u c = some v →
      Replaced s u v kind oldMember newMember fun d => AtOrBelow s d c)
    {subclasses : List Name} (hsub : ∀ c ∈ subclasses, c ∈ s.subClassesOf (some e)) (hnodup : subclasses.Nodup)
    (hu : Within s u kind oldMember newMember)
    (hpre : ∀ c ∈ subclasses, ∀ d, AtOrBelow s d c → ¬IsFirst kind d → u.members kind d = s.members kind d)
    (h : subclasses.foldlM (replaceMember kind oldMember newMember depth) u = some v) :
    Replaced s u v kind oldMember newMember fun d => ∃ c ∈ subclasses, AtOrBelow s d c := by
  induction subclasses generalizing u with
  | nil =>
    obtain rfl := Option.some.inj h
    exact ⟨hu, fun d ⟨c, hc, _⟩ => absurd hc List.not_mem_nil, fun _ _ _ => rfl⟩
  | cons c subclasses ih =>
    rw [List.foldlM_cons] at h
    obtain ⟨w, hw, hrun⟩ := Option.bind_eq_some_iff.mp h
    rw [List.forall_mem_cons] at hsub hpre
    obtain ⟨hc, hrest⟩ := List.nodup_cons.mp hnodup
    by_cases hcfirst : IsFirst kind c
    · obtain ⟨rfl, rfl⟩ := hcfirst
      obtain ⟨hwithin, hkept⟩ := replace_firstResponder hs (hnone rfl) (hfirst rfl) hu hw
      have hdoes := ih hsub.2 hrest hwithin (fun c' hc' d hd hdf => (hkept d hdf).trans (hpre.2 c' hc' d hd hdf)) hrun
      -- Nothing but the first responder itself is at or below it.
      have hself : ∀ d, AtOrBelow s d firstResponder → IsFirst .action d := by
        intro d hd
        rcases atOrBelow_cases hd with rfl | ⟨b, hb, -⟩
        · exact ⟨rfl, rfl⟩
        · rw [hnone rfl] at hb
          cases hb
      obtain ⟨hwithin', hdone', hkept'⟩ := hdoes
      refine ⟨hwithin', fun d ⟨c', hc', hd⟩ hdf => ?_, fun d hd hdf => ?_⟩
      · rcases List.mem_cons.mp hc' with rfl | hc'
        · exact absurd (hself d hd) hdf
        · exact hdone' d ⟨c', hc', hd⟩ hdf
      · rw [hkept' d (fun ⟨c', hc', hd'⟩ => hd ⟨c', List.mem_cons_of_mem _ hc', hd'⟩) hdf, hkept d hdf]
    · obtain ⟨hwithin, hdone, hkept⟩ := hstep c u w hsub.1 hcfirst hu hpre.1 hw
      have hapart : ∀ c' ∈ subclasses, ∀ d, AtOrBelow s d c' → ¬AtOrBelow s d c := by
        intro c' hc' d hd
        refine subtrees_apart ha (hsub.2 c' hc') hsub.1 ?_ hd
        rintro rfl
        exact hc hc'
      obtain ⟨hwithin', hdone', hkept'⟩ := ih hsub.2 hrest hwithin
        (fun c' hc' d hd hdf => (hkept d (hapart c' hc' d hd) hdf).trans (hpre.2 c' hc' d hd hdf)) hrun
      refine ⟨hwithin', fun d ⟨c', hc', hd⟩ hdf => ?_, fun d hd hdf => ?_⟩
      · by_cases hin : ∃ c' ∈ subclasses, AtOrBelow s d c'
        · exact hdone' d hin hdf
        · rcases List.mem_cons.mp hc' with rfl | hc'
          · rw [hkept' d hin hdf]
            exact hdone d hd hdf
          · exact absurd ⟨c', hc', hd⟩ hin
      · rw [hkept' d (fun ⟨c', hc', hd'⟩ => hd ⟨c', List.mem_cons_of_mem _ hc', hd'⟩) hdf,
          hkept d (fun hd' => hd ⟨c, List.mem_cons_self, hd'⟩) hdf]

lemma replace_subtree (ha : Acyclic s.superClassNameForClassNamed) (hs : ListsRight s)
    (hnone : kind = .action → s.subClassesOf (some firstResponder) = [])
    (hfirst : kind = .action → Passed (s.members kind firstResponder) newMember ∨
      Replaceable s kind oldMember newMember firstResponder)
    (hmay : ∀ d, AtOrBelow s d e → ¬IsFirst kind d → Replaceable s kind oldMember newMember d)
    (he : ¬IsFirst kind e) (hu : Within s u kind oldMember newMember)
    (hpre : ∀ d, AtOrBelow s d e → ¬IsFirst kind d → u.members kind d = s.members kind d)
    (h : replaceMember kind oldMember newMember depth u e = some v) :
    Replaced s u v kind oldMember newMember fun d => AtOrBelow s d e := by
  induction depth generalizing u v e with
  | zero => cases h
  | succ depth ih =>
    have hself := hpre e .refl he
    rw [replaceMember] at h
    dsimp only at h
    split at h
    · next hpassed =>
      obtain rfl := Option.some.inj h
      refine ⟨hu, fun d hd hdf => ?_, fun _ _ _ => rfl⟩
      -- The classes below inherit the new member, and so do not have the old one.
      have hnew : s.Inherits kind e newMember := by
        rw [hself] at hpassed
        exact inherits_of_passed hs hpassed
      have hold : ¬s.Inherits kind d oldMember := fun hold =>
        (hmay d hd hdf).apart ⟨hold, inherits_of_path (path_of_atOrBelow hnone hdf hd) hnew⟩
      rw [hpre d hd hdf, replace_eq_self hs hold]
    · rw [subClassesOf_congr hu.same] at h
      obtain ⟨w, hw, hrun⟩ := Option.bind_eq_some_iff.mp h
      have hother : ∀ d, d ≠ e →
          (u.modifyMembers kind e fun members => members.replace oldMember newMember).members kind d =
            u.members kind d := by
        intro d hd
        rw [members_replace, if_neg fun h => hd h.2]
      have hbelow : ∀ c ∈ s.subClassesOf (some e), ∀ d, AtOrBelow s d c → d ≠ e := by
        rintro c hc d hd rfl
        exact not_atOrBelow_subclass ha hc hd
      obtain ⟨hwithin, hdone, hkept⟩ := replace_subclasses ha hs hnone hfirst
        (fun c u v hc hcf hu hpre h =>
          ih (fun d hd => hmay d (atOrBelow_of_subclass hc hd)) hcf hu hpre h)
        (fun _ hc => hc) (nodup_subClassesOf s _) (hu.modify he)
        (fun c hc d hd hdf => (hother d (hbelow c hc d hd)).trans (hpre d (atOrBelow_of_subclass hc hd) hdf)) hw
      have hdone' : ∀ d, AtOrBelow s d e → ¬IsFirst kind d →
          w.members kind d = (s.members kind d).replace oldMember newMember := by
        intro d hd hdf
        rcases atOrBelow_cases hd with rfl | ⟨c, hc, hd⟩
        · rw [hkept d (fun ⟨c, hc, hd⟩ => hbelow c hc d hd rfl) hdf, members_replace, if_pos ⟨rfl, rfl⟩, hself]
        · exact hdone d ⟨c, hc, hd⟩ hdf
      have hkept' : ∀ d, ¬AtOrBelow s d e → ¬IsFirst kind d → w.members kind d = u.members kind d := by
        intro d hd hdf
        rw [hkept d (fun ⟨c, hc, hd'⟩ => hd (atOrBelow_of_subclass hc hd')) hdf]
        refine hother d ?_
        rintro rfl
        exact hd .refl
      split at hrun
      · next hkind =>
        obtain ⟨rfl, -⟩ := hkind
        obtain ⟨hwithin', hsame⟩ := replace_firstResponder hs (hnone rfl) (hfirst rfl) hwithin hrun
        exact ⟨hwithin', fun d hd hdf => (hsame d hdf).trans (hdone' d hd hdf),
          fun d hd hdf => (hsame d hdf).trans (hkept' d hd hdf)⟩
      · obtain rfl := Option.some.inj hrun
        exact ⟨hwithin, hdone', hkept'⟩

lemma ListsRight.replaceMember (hs : ListsRight s) (ha : Acyclic s.superClassNameForClassNamed)
    (hmay : Passed (s.members kind c) newMember ∨ MayReplace s kind oldMember newMember c)
    (h : replaceMember kind oldMember newMember depth s c = some t) : ListsRight t := by
  rcases hmay with hpassed | hmay
  · cases depth with
    | zero => cases h
    | succ depth =>
      rw [Gorm.replaceMember] at h
      obtain rfl := Option.some.inj ((if_pos hpassed).symm.trans h)
      exact hs
  have hwithin : Within s s kind oldMember newMember := ⟨SameClasses.refl s, fun _ _ _ => rfl, fun _ => .inl rfl⟩
  have hreplaced : Within s t kind oldMember newMember ∧
      (∀ d, AtOrBelow s d c → ¬IsFirst kind d →
        t.members kind d = (s.members kind d).replace oldMember newMember) ∧
      ∀ d, ¬AtOrBelow s d c → ¬IsFirst kind d → t.members kind d = s.members kind d := by
    by_cases hc : IsFirst kind c
    · obtain ⟨rfl, rfl⟩ := hc
      obtain ⟨hwithin', hkept⟩ := replace_firstResponder hs (hmay.subclasses rfl) (hmay.firstResponder rfl) hwithin h
      refine ⟨hwithin', fun d hd hdf => absurd ⟨rfl, ?_⟩ hdf, fun d _ hdf => hkept d hdf⟩
      rcases atOrBelow_cases hd with rfl | ⟨b, hb, -⟩
      · rfl
      · rw [hmay.subclasses rfl] at hb
        cases hb
    · obtain ⟨hwithin', hdone, hkept⟩ := replace_subtree ha hs hmay.subclasses hmay.firstResponder
        (fun d hd _ => hmay.below d hd) hc hwithin (fun _ _ _ => rfl) h
      exact ⟨hwithin', hdone, hkept⟩
  obtain ⟨hwithin', hdone, hkept⟩ := hreplaced
  have hchild {d p : Name} (hp : s.parent kind d = some p) : ¬IsFirst kind d ∧ ¬IsFirst kind p := by
    constructor
    · intro hd
      rw [IsFirst] at hd
      rw [ClassManager.parent, if_pos hd] at hp
      cases hp
    · rintro ⟨hkind, rfl⟩
      have hmem := mem_subClassesOf.mpr (super_of_parent hp)
      rw [hmay.subclasses hkind] at hmem
      cases hmem
  let D (d : Name) : Prop :=
    ¬IsFirst kind d ∧ AtOrBelow s d c ∨ IsFirst kind d ∧ t.members kind d ≠ s.members kind d
  have hrenamed : Renamed s t kind oldMember newMember D := by
    refine ⟨hwithin'.same, hwithin'.other, ?_, ?_⟩
    · rintro d (⟨hdf, hd⟩ | ⟨⟨hkind, rfl⟩, hne⟩)
      · exact hdone d hd hdf
      · exact ((hwithin'.first hkind).resolve_left hne).2
    · intro d hd
      by_cases hdf : IsFirst kind d
      · exact not_not.mp fun hne => hd (.inr ⟨hdf, hne⟩)
      · exact hkept d (fun hd' => hd (.inl ⟨hdf, hd'⟩)) hdf
  refine hs.renamed hrenamed ⟨?_, ?_, ?_⟩
  · rintro d (⟨-, hd⟩ | ⟨⟨hkind, rfl⟩, hne⟩)
    · exact hmay.below d hd
    · exact (hmay.firstResponder hkind).resolve_left ((hwithin'.first hkind).resolve_left hne).1
  · rintro d p hp (⟨-, hbelow⟩ | ⟨hpf, -⟩)
    · exact .inl ⟨(hchild hp).1, .head (super_of_parent hp) hbelow⟩
    · exact absurd hpf (hchild hp).2
  · rintro d p hp (⟨-, hd⟩ | ⟨hdf, -⟩) hnot
    · have hpf := (hchild hp).2
      rcases ReflTransGen.cases_head hd with rfl | ⟨q, hq, hqc⟩
      · exact hmay.above p hp
      · rw [Above, super_of_parent hp] at hq
        obtain rfl := Option.some.inj hq
        exact absurd (.inl ⟨hpf, hqc⟩) hnot
    · exact absurd hdf (hchild hp).1

end Replacing

end Xperimentum.Gorm
