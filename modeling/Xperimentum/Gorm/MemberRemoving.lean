import Xperimentum.Gorm.MemberCaches

/-! Removing a member keeps the filled lists right. -/

namespace Xperimentum.Gorm

open Lib.Hierarchies Relation ClassManager

variable {s t u v w : ClassManager} {kind : MemberKind} {depth : ℕ} {member c d : Name} {P Q : Name → Prop}

/-- On the way some classes may still have the member in a filled list. -/
structure RightExcept (s u : ClassManager) (kind : MemberKind) (member : Name) (P : Name → Prop) : Prop where
  same : SameClasses s u
  other : ∀ other d, other ≠ kind → u.members other d = s.members other d
  lists : ∀ d all, (u.members kind d).all = some all → all.Nodup ∧
    (∀ x, u.Inherits kind d x → x ∈ all) ∧ ∀ x, x ∈ all → u.Inherits kind d x ∨ x = member ∧ P d
  roots : ∀ d, (u.members kind d).all = none → (∀ p, u.parent kind d = some p → u.isKnownClass p = false) →
    ((u.members kind d).own.getD []).Nodup

lemma ListsRight.rightExcept (h : ListsRight s) (kind : MemberKind) (member : Name) :
    RightExcept s s kind member fun _ => False where
  same := SameClasses.refl s
  other _ _ _ := rfl
  lists d all hall := by
    obtain ⟨hnodup, hmem⟩ := h.lists kind d all hall
    exact ⟨hnodup, fun x => (hmem x).mpr, fun x hx => .inl ((hmem x).mp hx)⟩
  roots := h.roots kind

lemma RightExcept.mono (h : RightExcept s u kind member P) (hPQ : ∀ d, P d → Q d) :
    RightExcept s u kind member Q where
  same := h.same
  other := h.other
  lists d all hall := by
    obtain ⟨hnodup, hin, hout⟩ := h.lists d all hall
    exact ⟨hnodup, hin, fun x hx => (hout x hx).imp id (And.imp id (hPQ d))⟩
  roots := h.roots

lemma RightExcept.right (hs : ListsRight s) (h : RightExcept s u kind member P) (hP : ∀ d, ¬P d) : ListsRight u := by
  constructor
  · intro other d all hall
    by_cases hkind : other = kind
    · subst hkind
      obtain ⟨hnodup, hin, hout⟩ := h.lists d all hall
      exact ⟨hnodup, fun x => ⟨fun hx => (hout x hx).resolve_right fun hx => hP d hx.2, hin x⟩⟩
    · rw [h.other other d hkind] at hall
      obtain ⟨hnodup, hmem⟩ := hs.lists other d all hall
      refine ⟨hnodup, fun x => (hmem x).trans (inherits_congr_of (parent_congr h.same other) (fun c x => ?_) d x).symm⟩
      rw [ClassManager.Defines, h.other other c hkind, ClassManager.Defines]
  · intro other d hnone hroot
    by_cases hkind : other = kind
    · subst hkind
      exact h.roots d hnone hroot
    · rw [h.other other d hkind] at hnone ⊢
      rw [parent_congr h.same] at hroot
      exact hs.roots other d hnone fun p hp => isKnownClass_congr h.same p ▸ hroot p hp

lemma RightExcept.fits (h : RightExcept s u kind member P) (hd : ¬P d) : Fits u kind (u.Inherits kind) d where
  filled all hall := by
    obtain ⟨hnodup, hin, hout⟩ := h.lists d all hall
    exact ⟨hnodup, fun x => ⟨fun hx => (hout x hx).resolve_right fun hx => hd hx.2, hin x⟩⟩
  empty _ x := by
    rw [inherits_iff]
    refine or_congr_right ⟨fun ⟨p, hp, hx⟩ => ⟨p, hp, known_of_inherits hx, hx⟩, fun ⟨p, hp, _, hx⟩ => ⟨p, hp, hx⟩⟩
  root := h.roots d

lemma RightExcept.of_filled (h : RightExcept s u kind member P) (hfilled : Filled u v kind (u.Inherits kind) c) :
    RightExcept s v kind member P := by
  have hsame := hfilled.sameMembers
  refine ⟨h.same.trans hsame.same, fun other d hne => ?_, fun d all hall => ?_, fun d hnone hroot => ?_⟩
  · rw [← h.other other d hne]
    exact (hfilled.members other d).resolve_right fun hfill => hne hfill.1.1
  · simp only [hsame.inherits]
    rcases hfilled.members kind d with heq | ⟨-, all', hnodup, hmem, heq⟩
    · rw [heq] at hall
      exact h.lists d all hall
    · rw [heq] at hall
      obtain rfl := Option.some.inj hall
      exact ⟨hnodup, fun x => (hmem x).mpr, fun x hx => .inl ((hmem x).mp hx)⟩
  · rw [hsame.own]
    rw [parent_congr hsame.same] at hroot
    refine h.roots d ?_ fun p hp => isKnownClass_congr hsame.same p ▸ hroot p hp
    rcases hfilled.members kind d with heq | ⟨-, all', -, -, heq⟩
    · rw [← heq]
      exact hnone
    · rw [heq] at hnone
      cases hnone

lemma not_of_path {next : Name → Option Name} (hclosed : ∀ d p, next d = some p → P p → P d)
    (hpath : ReflTransGen (Above next) c d) (hc : ¬P c) : ¬P d := by
  induction hpath with
  | refl => exact hc
  | tail _ hup ih => exact fun hp => ih (hclosed _ _ hup hp)

lemma superQuery_spec (ha : Acyclic s.superClassNameForClassNamed) (hfirst : FirstAlone s kind)
    (h : RightExcept s u kind member P) (hclosed : ∀ d p, s.superClassNameForClassNamed d = some p → P p → P d)
    (hc : ∀ p, s.superClassNameForClassNamed c = some p → ¬P p) {result : Option (List Name)}
    (hquery : allMembersForSuperClass kind depth u (u.superClassNameForClassNamed c) = some (v, result)) :
    RightExcept s v kind member P ∧
      (member ∈ result.getD [] ↔ ∃ p, v.parent kind c = some p ∧ v.Inherits kind p member) := by
  have hsuper := superClassName_congr h.same.hierarchy
  have hparent : u.parent kind = s.superClassNameForClassNamed := by rw [parent_congr h.same, hfirst.parent]
  rw [hsuper] at hquery
  cases hp : s.superClassNameForClassNamed c with
  | none =>
    rw [hp] at hquery
    cases hquery
    refine ⟨h, fun hmem => absurd hmem List.not_mem_nil, fun ⟨p, hp', _⟩ => ?_⟩
    rw [hparent, hp] at hp'
    cases hp'
  | some p =>
    rw [hp] at hquery
    have hone (x : Name) (v : ClassManager) (hv : v.parent kind = u.parent kind) :
        (∃ q, v.parent kind c = some q ∧ v.Inherits kind q x) ↔ v.Inherits kind p x := by
      rw [hv, hparent, hp]
      exact ⟨fun ⟨q, hq, hx⟩ => Option.some.inj hq ▸ hx, fun hx => ⟨p, rfl, hx⟩⟩
    change allMembersForClassNamed kind depth u p = some (v, result) at hquery
    cases hknown : u.isKnownClass p with
    | false =>
      obtain ⟨rfl, rfl⟩ := allMembers_unknown hknown hquery
      refine ⟨h, fun hmem => absurd hmem List.not_mem_nil, fun hx => ?_⟩
      rw [known_of_inherits ((hone member _ rfl).mp hx)] at hknown
      cases hknown
    | true =>
      have hfits : ∀ d, ReflTransGen (Above (u.parent kind)) p d → u.isKnownClass d = true →
          Fits u kind (u.Inherits kind) d := by
        intro d hpath _
        rw [hparent] at hpath
        exact h.fits (not_of_path hclosed hpath (hc p hp))
      obtain ⟨hfilled, all, rfl, -, hmem⟩ := query_spec (hsuper.symm ▸ ha) hfits hknown hquery
      have hsame := hfilled.sameMembers
      refine ⟨h.of_filled hfilled, ?_⟩
      rw [hone member v (parent_congr hsame.same kind), Option.getD_some, hmem, hsame.inherits]

/-! The class itself. -/

/-- One class has the member less. -/
structure Dropped (v w : ClassManager) (kind : MemberKind) (member c : Name) : Prop where
  same : SameClasses v w
  other : ∀ other d, other ≠ kind → w.members other d = v.members other d
  kept : ∀ d, d ≠ c → w.members kind d = v.members kind d
  less : ∀ x, w.Defines kind c x → v.Defines kind c x
  rest : ∀ x, x ≠ member → v.Defines kind c x → w.Defines kind c x

lemma Dropped.defines (h : Dropped v w kind member c) {x : Name} (hd : d ≠ c ∨ x ≠ member)
    (hx : v.Defines kind d x) : w.Defines kind d x := by
  by_cases hdc : d = c
  · subst hdc
    exact h.rest x (hd.resolve_left fun hne => hne rfl) hx
  · rw [ClassManager.Defines, h.kept d hdc]
    exact hx

lemma Dropped.inherits_less (h : Dropped v w kind member c) {x : Name} (hx : w.Inherits kind d x) :
    v.Inherits kind d x := by
  refine inherits_mono (parent_congr h.same kind).symm (fun e he => ?_) hx
  by_cases hec : e = c
  · subst hec
    exact h.less x he
  · rw [ClassManager.Defines, h.kept e hec] at he
    exact he

lemma Dropped.inherits_rest (h : Dropped v w kind member c) {x : Name} (hne : x ≠ member)
    (hx : v.Inherits kind d x) : w.Inherits kind d x :=
  inherits_mono (parent_congr h.same kind) (fun _ => h.defines (.inr hne)) hx

lemma Dropped.inherits_apart (h : Dropped v w kind member c) {x : Name}
    (hd : ¬ReflTransGen (Above (v.parent kind)) d c) (hx : v.Inherits kind d x) : w.Inherits kind d x := by
  obtain ⟨e, hpath, he⟩ := path_of_inherits hx
  have hec : e ≠ c := by
    rintro rfl
    exact hd hpath
  rw [← parent_congr h.same kind] at hpath
  exact inherits_of_path hpath (.own (h.defines (.inl hec) he))

lemma Dropped.inherits_above (h : Dropped v w kind member c) (ha : Acyclic (v.parent kind)) {p x : Name}
    (hp : v.parent kind c = some p) (hsuper : v.Inherits kind p member) (hx : v.Inherits kind d x) :
    w.Inherits kind d x := by
  by_cases hne : x = member
  · subst hne
    have hparent := parent_congr h.same kind
    have hc : w.Inherits kind c x := by
      refine .super (hparent.symm ▸ hp) (h.inherits_apart (fun hpath => ?_) hsuper)
      exact ha c (TransGen.head' hp hpath)
    by_cases hpath : ReflTransGen (Above (v.parent kind)) d c
    · rw [← hparent] at hpath
      exact inherits_of_path hpath hc
    · exact h.inherits_apart hpath hx
  · exact h.inherits_rest hne hx

lemma mem_filter_ne {array : Option (List Name)} {x : Name} :
    x ∈ (array.map fun array => array.filter (· ≠ member)).getD [] ↔ x ∈ array.getD [] ∧ x ≠ member := by
  cases array with
  | none => simp
  | some array => simp

lemma dropped_removeExtra (v : ClassManager) (kind : MemberKind) (member c : Name) :
    Dropped v (v.modifyMembers kind c fun members => members.removeExtra member) kind member c := by
  have hmembers := @members_modify_of_empty v kind c (fun members => members.removeExtra member) rfl
  refine ⟨sameClasses_modifyMembers _, fun other d hne => ?_, fun d hd => ?_, fun x hx => ?_, fun x hne hx => ?_⟩
  · rw [hmembers, if_neg fun h => hne h.1]
  · rw [hmembers, if_neg fun h => hd h.2]
  · rw [ClassManager.Defines, hmembers, if_pos ⟨rfl, rfl⟩, Members.removeExtra] at hx
    exact hx.imp id fun hx => (mem_filter_ne.mp hx).1
  · rw [ClassManager.Defines, hmembers, if_pos ⟨rfl, rfl⟩, Members.removeExtra]
    exact hx.imp id fun hx => mem_filter_ne.mpr ⟨hx, hne⟩

lemma dropped_remove (v : ClassManager) (kind : MemberKind) (member c : Name) :
    Dropped v (v.modifyMembers kind c fun members => members.remove member) kind member c := by
  have hmembers := @members_modify_of_empty v kind c (fun members => members.remove member) rfl
  refine ⟨sameClasses_modifyMembers _, fun other d hne => ?_, fun d hd => ?_, fun x hx => ?_, fun x hne hx => ?_⟩
  · rw [hmembers, if_neg fun h => hne h.1]
  · rw [hmembers, if_neg fun h => hd h.2]
  · rw [ClassManager.Defines, hmembers, if_pos ⟨rfl, rfl⟩, Members.remove] at hx
    exact hx.imp (fun hx => (mem_filter_ne.mp hx).1) id
  · rw [ClassManager.Defines, hmembers, if_pos ⟨rfl, rfl⟩, Members.remove]
    exact hx.imp (fun hx => mem_filter_ne.mpr ⟨hx, hne⟩) id

lemma Dropped.trans (h : Dropped u v kind member c) (h' : Dropped v w kind member c) : Dropped u w kind member c where
  same := h.same.trans h'.same
  other other d hne := by rw [h'.other other d hne, h.other other d hne]
  kept d hd := by rw [h'.kept d hd, h.kept d hd]
  less x hx := h.less x (h'.less x hx)
  rest x hne hx := h'.rest x hne (h.rest x hne hx)

/-- The class is right once it is done; now the classes below it may be wrong. -/
def Below (s : ClassManager) (P : Name → Prop) (c d : Name) : Prop :=
  d ≠ c ∧ (P d ∨ TransGen (Above s.superClassNameForClassNamed) d c)

lemma RightExcept.removeExtra (ha : Acyclic (v.parent kind)) (h : RightExcept s v kind member P) {p : Name}
    (hp : v.parent kind c = some p) (hx : v.Inherits kind p member) :
    RightExcept s (v.modifyMembers kind c fun members => members.removeExtra member) kind member (Below s P c) := by
  have hdrop := dropped_removeExtra v kind member c
  have hlists := @members_modify_of_empty v kind c (fun members => members.removeExtra member) rfl kind
  generalize v.modifyMembers kind c (fun members => members.removeExtra member) = w at hdrop hlists
  have hall : ∀ d, (w.members kind d).all = (v.members kind d).all ∧
      (w.members kind d).own = (v.members kind d).own := by
    intro d
    rw [hlists]
    split
    · next hd =>
      rw [hd.2]
      exact ⟨rfl, rfl⟩
    · exact ⟨rfl, rfl⟩
  have hinherits : ∀ d x, v.Inherits kind d x → w.Inherits kind d x :=
    fun d x hx' => hdrop.inherits_above ha hp hx hx'
  refine ⟨h.same.trans hdrop.same, fun other d hne => ?_, fun d all hd => ?_, fun d hnone hroot => ?_⟩
  · rw [hdrop.other other d hne, h.other other d hne]
  · rw [(hall d).1] at hd
    obtain ⟨hnodup, hin, hout⟩ := h.lists d all hd
    refine ⟨hnodup, fun x hx => hin x (hdrop.inherits_less hx), fun x hx' => ?_⟩
    rcases hout x hx' with hx' | ⟨rfl, hP⟩
    · exact .inl (hinherits d x hx')
    · by_cases hdc : d = c
      · subst hdc
        exact .inl (hinherits d x (.super hp hx))
      · exact .inr ⟨rfl, hdc, .inl hP⟩
  · rw [(hall d).1] at hnone
    rw [(hall d).2]
    rw [parent_congr hdrop.same] at hroot
    exact h.roots d hnone fun p hp => isKnownClass_congr hdrop.same p ▸ hroot p hp

lemma RightExcept.removeOwn (hparent : v.parent kind = s.superClassNameForClassNamed)
    (h : RightExcept s v kind member P) (hnot : ¬∃ p, v.parent kind c = some p ∧ v.Inherits kind p member) :
    RightExcept s ((v.modifyMembers kind c fun members => members.remove member).modifyMembers kind c fun members =>
      members.removeExtra member) kind member (Below s P c) := by
  have hdrop := (dropped_remove v kind member c).trans (dropped_removeExtra _ kind member c)
  have hlists : ∀ d,
      ((v.modifyMembers kind c fun members => members.remove member).modifyMembers kind c fun members =>
        members.removeExtra member).members kind d =
      if kind = kind ∧ d = c then ((v.members kind c).remove member).removeExtra member else v.members kind d := by
    intro d
    rw [members_modify_of_empty rfl]
    split
    · rw [members_modify_of_empty rfl, if_pos ⟨rfl, rfl⟩]
    · next hd => rw [members_modify_of_empty rfl, if_neg hd]
  generalize (v.modifyMembers kind c fun members => members.remove member).modifyMembers kind c
    (fun members => members.removeExtra member) = w at hdrop hlists
  have hgone : ¬w.Inherits kind c member := by
    intro hx
    rcases inherits_iff.mp hx with hx | ⟨p, hp, hx⟩
    · rw [ClassManager.Defines, hlists, if_pos ⟨rfl, rfl⟩] at hx
      exact hx.elim (fun hx => (mem_filter_ne.mp hx).2 rfl) fun hx => (mem_filter_ne.mp hx).2 rfl
    · rw [parent_congr hdrop.same] at hp
      exact hnot ⟨p, hp, hdrop.inherits_less hx⟩
  refine ⟨h.same.trans hdrop.same, fun other d hne => ?_, fun d all hd => ?_, fun d hnone hroot => ?_⟩
  · rw [hdrop.other other d hne, h.other other d hne]
  · rw [hlists] at hd
    split at hd
    · next hdc =>
      obtain ⟨-, rfl⟩ := hdc
      obtain ⟨all, hall, rfl⟩ := Option.map_eq_some_iff.mp hd
      obtain ⟨hnodup, hin, hout⟩ := h.lists d all hall
      refine ⟨hnodup.filter _, fun x hx => ?_, fun x hx => .inl ?_⟩
      · refine List.mem_filter.mpr ⟨hin x (hdrop.inherits_less hx), decide_eq_true ?_⟩
        rintro rfl
        exact hgone hx
      · obtain ⟨hx, hne⟩ := List.mem_filter.mp hx
        have hne := of_decide_eq_true hne
        exact hdrop.inherits_rest hne ((hout x hx).resolve_right fun hx => hne hx.1)
    · next hdc =>
      have hdc : d ≠ c := fun heq => hdc ⟨rfl, heq⟩
      obtain ⟨hnodup, hin, hout⟩ := h.lists d all hd
      refine ⟨hnodup, fun x hx => hin x (hdrop.inherits_less hx), fun x hx => ?_⟩
      rcases hout x hx with hx | ⟨rfl, hP⟩
      · by_cases hpath : ReflTransGen (Above (v.parent kind)) d c
        · by_cases hne : x = member
          · rw [hparent] at hpath
            exact .inr ⟨hne, hdc, .inr ((of_atOrBelow hpath).resolve_left hdc)⟩
          · exact .inl (hdrop.inherits_rest hne hx)
        · exact .inl (hdrop.inherits_apart hpath hx)
      · exact .inr ⟨rfl, hdc, .inl hP⟩
  · rw [hlists] at hnone ⊢
    rw [parent_congr hdrop.same] at hroot
    have hroot' : ∀ p, v.parent kind d = some p → v.isKnownClass p = false :=
      fun p hp => isKnownClass_congr hdrop.same p ▸ hroot p hp
    split at hnone
    · next hdc =>
      obtain ⟨-, rfl⟩ := hdc
      have hnodup := h.roots d (Option.map_eq_none_iff.mp hnone) hroot'
      rw [if_pos ⟨rfl, rfl⟩, Members.removeExtra, Members.remove]
      dsimp only
      cases hown : (v.members kind d).own with
      | none => exact List.nodup_nil
      | some own =>
        rw [hown] at hnodup
        exact hnodup.filter _
    · next hdc =>
      rw [if_neg hdc]
      exact h.roots d hnone hroot'

lemma RightExcept.removeFromClass (ha : Acyclic s.superClassNameForClassNamed) (hfirst : FirstAlone s kind)
    (h : RightExcept s u kind member P) (hclosed : ∀ d p, s.superClassNameForClassNamed d = some p → P p → P d)
    (hc : ∀ p, s.superClassNameForClassNamed c = some p → ¬P p)
    (hrun : removeFromClass kind member depth u c = some w) : RightExcept s w kind member (Below s P c) := by
  rw [Gorm.removeFromClass] at hrun
  dsimp only at hrun
  split at hrun
  · obtain ⟨⟨v, superMembers⟩, hquery, rfl⟩ := Option.map_eq_some_iff.mp hrun
    obtain ⟨hv, hmem⟩ := superQuery_spec ha hfirst h hclosed hc hquery
    have hparent : v.parent kind = s.superClassNameForClassNamed := by rw [parent_congr hv.same, hfirst.parent]
    dsimp only
    by_cases hsuper : member ∈ superMembers.getD []
    · rw [if_pos hsuper]
      obtain ⟨p, hp, hx⟩ := hmem.mp hsuper
      exact hv.removeExtra (hparent.symm ▸ ha) hp hx
    · rw [if_neg hsuper]
      exact hv.removeOwn hparent (mt hmem.mpr hsuper)
  · next hnot =>
    obtain rfl := Option.some.inj hrun
    refine ⟨h.same, h.other, fun d all hall => ?_, h.roots⟩
    obtain ⟨hnodup, hin, hout⟩ := h.lists d all hall
    refine ⟨hnodup, hin, fun x hx => (hout x hx).imp id fun ⟨heq, hP⟩ => ⟨heq, fun hdc => hnot (.inr ?_), .inl hP⟩⟩
    rw [← hdc, hall, ← heq]
    exact hx

/-! The class and all below it. -/

lemma RightExcept.congr (h : RightExcept s u kind member P) (hsame : SameClasses u v) (hm : v.members = u.members) :
    RightExcept s v kind member P := by
  have hinherits : ∀ d x, v.Inherits kind d x ↔ u.Inherits kind d x := by
    refine inherits_congr_of (parent_congr hsame kind) fun d x => ?_
    rw [ClassManager.Defines, hm, ClassManager.Defines]
  refine ⟨h.same.trans hsame, fun other d hne => ?_, fun d all hall => ?_, fun d hnone hroot => ?_⟩
  · rw [hm, h.other other d hne]
  · rw [hm] at hall
    simp only [hinherits]
    exact h.lists d all hall
  · rw [hm] at hnone ⊢
    rw [parent_congr hsame] at hroot
    exact h.roots d hnone fun p hp => isKnownClass_congr hsame p ▸ hroot p hp

lemma RightExcept.dropCategory (h : RightExcept s u kind member P) (c : Name) :
    RightExcept s (dropCategory u kind c) kind member P := by
  rw [Gorm.dropCategory]
  split
  · exact h.congr ⟨rfl, rfl⟩ rfl
  · exact h

lemma below_closed (ha : Acyclic s.superClassNameForClassNamed)
    (hclosed : ∀ d p, s.superClassNameForClassNamed d = some p → P p → P d)
    (hc : ∀ p, s.superClassNameForClassNamed c = some p → ¬P p) {p : Name}
    (hp : s.superClassNameForClassNamed d = some p) (h : Below s P c p) : Below s P c d := by
  obtain ⟨-, hP | hbelow⟩ := h
  · refine ⟨?_, .inl (hclosed d p hp hP)⟩
    rintro rfl
    exact hc p hp hP
  · have hd : TransGen (Above s.superClassNameForClassNamed) d c := .head hp hbelow
    refine ⟨?_, .inr hd⟩
    rintro rfl
    exact ha d hd

lemma RightExcept.removeSubclasses
    (hstep : ∀ c u v P, RightExcept s u kind member P →
      (∀ d p, s.superClassNameForClassNamed d = some p → P p → P d) →
      (∀ p, s.superClassNameForClassNamed c = some p → ¬P p) →
      removeMember kind member depth u c = some v → RightExcept s v kind member fun d => P d ∧ ¬AtOrBelow s d c)
    {subclasses : List Name} (hsub : ∀ d ∈ subclasses, d ∈ s.subClassesOf (some c))
    (h : RightExcept s u kind member P) (hclosed : ∀ d p, s.superClassNameForClassNamed d = some p → P p → P d)
    (hc : ¬P c) (hrun : subclasses.foldlM (removeMember kind member depth) u = some v) :
    RightExcept s v kind member fun d => P d ∧ ∀ b ∈ subclasses, ¬AtOrBelow s d b := by
  induction subclasses generalizing u P with
  | nil =>
    obtain rfl := Option.some.inj hrun
    exact h.mono fun d hd => ⟨hd, fun _ hb => absurd hb List.not_mem_nil⟩
  | cons b subclasses ih =>
    rw [List.foldlM_cons] at hrun
    obtain ⟨w, hw, hrun⟩ := Option.bind_eq_some_iff.mp hrun
    rw [List.forall_mem_cons] at hsub
    have hb := mem_subClassesOf.mp hsub.1
    have hsuper : ∀ p, s.superClassNameForClassNamed b = some p → ¬P p := by
      intro p hp
      rw [hb] at hp
      exact Option.some.inj hp ▸ hc
    have hw := hstep b u w P h hclosed hsuper hw
    refine (ih hsub.2 hw (fun d p hp ⟨hP, hnot⟩ => ⟨hclosed d p hp hP, fun hd => ?_⟩) (fun hP => hc hP.1) hrun).mono
      fun d ⟨⟨hP, hnot⟩, hrest⟩ => ⟨hP, List.forall_mem_cons.mpr ⟨hnot, hrest⟩⟩
    rcases ReflTransGen.cases_head hd with rfl | ⟨q, hq, hqb⟩
    · exact hsuper p hp hP
    · rw [Above, hp] at hq
      obtain rfl := Option.some.inj hq
      exact hnot hqb

lemma RightExcept.removeMember (ha : Acyclic s.superClassNameForClassNamed) (hfirst : FirstAlone s kind)
    (h : RightExcept s u kind member P) (hclosed : ∀ d p, s.superClassNameForClassNamed d = some p → P p → P d)
    (hc : ∀ p, s.superClassNameForClassNamed c = some p → ¬P p)
    (hrun : removeMember kind member depth u c = some v) :
    RightExcept s v kind member fun d => P d ∧ ¬AtOrBelow s d c := by
  induction depth generalizing u v c P with
  | zero => cases hrun
  | succ depth ih =>
    rw [Gorm.removeMember] at hrun
    dsimp only at hrun
    obtain ⟨w, hw, hrun⟩ := Option.bind_eq_some_iff.mp hrun
    obtain ⟨x, hx, hfold⟩ := Option.bind_eq_some_iff.mp hrun
    have hbelow := fun d p hp => below_closed (d := d) (p := p) ha hclosed hc hp
    have hw := (h.removeFromClass ha hfirst hclosed hc hw).dropCategory c
    have hx : RightExcept s x kind member (Below s P c) := by
      split at hx
      · next hkind =>
        refine (ih hw hbelow (fun p hp => ?_) hx).mono fun d hd => hd.1
        rw [hfirst hkind.1] at hp
        cases hp
      · obtain rfl := Option.some.inj hx
        exact hw
    rw [subClassesOf_congr h.same] at hfold
    refine (hx.removeSubclasses (fun c u v P hu hclosed hc hrun => ih hu hclosed hc hrun) (fun _ hd => hd) hbelow
      (fun hc => hc.1 rfl) hfold).mono fun d ⟨⟨hne, hd⟩, hrest⟩ => ?_
    have hnot : ¬AtOrBelow s d c := by
      intro hpath
      obtain ⟨b, hb, hdb⟩ := (atOrBelow_cases hpath).resolve_left hne
      exact hrest b hb hdb
    exact ⟨hd.resolve_right fun hpath => hnot hpath.to_reflTransGen, hnot⟩

lemma ListsRight.removeMember (hs : ListsRight s) (ha : Acyclic s.superClassNameForClassNamed)
    (hfirst : FirstAlone s kind) (h : removeMember kind member depth s c = some t) : ListsRight t :=
  ((hs.rightExcept kind member).removeMember ha hfirst (fun _ _ _ hp => hp.elim) (fun _ _ hp => hp) h).right hs
    fun _ hd => hd.1

end Xperimentum.Gorm
