import Xperimentum.WMcore.ObserverLists

/-! Each post calls every matching observer that stays registered once, as long as no record is removed that
a post has to go on from. -/

namespace Xperimentum.WMcore.Observers

open Lib.LinkedLists Lib.Partial

variable {A P N S : Type} [DecidableEq P] [DecidableEq N] [DecidableEq S] (string : N → S)

/-- A post without an object passes the object filter of the observers of its name. -/
def Matches (f : Post P N) (r : Registration A P N) : Prop :=
  (∀ name ∈ r.name, string name = string f.name) ∧
    ∀ object ∈ r.object, f.object = some object ∨ f.object = none ∧ r.name.isSome

/-- Observers change and post only while they are called, and memory is allocated that is free. -/
def possible (s : State A P N S) : Event A P N → Bool
  | .add a _ => control s.posts && (s.center.record a).isNone
  | .remove _ => control s.posts
  | .removeWithName _ _ _ => control s.posts
  | .post _ _ => control s.posts
  | .resume => !s.posts.isEmpty

/-- No post in progress has saved a record that is removed, and the pointer that a name is removed with is the
one that it was registered with. -/
def Undisturbed (s : State A P N S) : Event A P N → Prop
  | .remove observer => ∀ f ∈ s.posts, ∀ a ∈ f.cursor, ∀ r ∈ s.center.record a, r.observer ≠ observer
  | .removeWithName observer name object =>
    (∀ f ∈ s.posts, ∀ a ∈ f.cursor, ∀ r ∈ s.center.record a,
      ¬ (r.observer = observer ∧ r.name = name ∧ r.object = object)) ∧
    ∀ a, ∀ r ∈ s.center.record a, r.observer = observer → r.object = object → r.name.map string = name.map string →
      r.name = name
  | _ => True

/-- What a turn of a loop calls is registered and matches; a post at its end has called once what matches and has been
registered all along; and what is removed is gone. -/
structure Delivers (s : State A P N S) (e : Event A P N) (t : State A P N S) : Prop where
  called : e = .resume → ∀ f ∈ s.posts.head?, ∀ a ∈ f.callee s.center, ∃ r ∈ s.center.record a, Matches string f r.toRegistration
  once : ∀ f ∈ t.posts, f.phase = .nils → f.cursor = none → ∀ a, f.throughout a → ∀ r ∈ t.center.record a,
    r.observerAction.isSome → Matches string f r.toRegistration → f.called.count a = 1
  removed : ∀ observer, e = .remove observer → ∀ a, ∀ r ∈ t.center.record a, r.observer ≠ observer
  removedWithName : ∀ observer name object, e = .removeWithName observer name object → ∀ a, ∀ r ∈ t.center.record a,
    ¬ (r.observer = observer ∧ r.name.map string = name.map string ∧ r.object = object)

/-! What a post in progress has done and has still to do. -/

def Phase.later : Phase → Slot P S → Prop
  | .names, .object _ => True
  | .names, .catchAll => True
  | .objects, .catchAll => True
  | _, _ => False

def Post.addresses (f : Post P N) (L : Slot P S → List Address) : List Address := ((f.list string).map L).getD []

/-- The post's place in its list, and the calls it has made to registrations that have been there all along. -/
def Placed (reg : Address → Option (Registration A P N)) (f : Post P N) (before ahead : List Address)
    (addresses : List Address) : Prop :=
  addresses = before ++ ahead ∧ f.cursor = ahead.head? ∧ ∀ a, f.throughout a → ∀ r ∈ reg a, r.observerAction.isSome →
    Matches string f r → (a ∈ ahead ∨ f.phase.later (r.slot string) → f.called.count a = 0) ∧
      (¬ (a ∈ ahead ∨ f.phase.later (r.slot string)) → f.called.count a = 1)

structure PostInv (reg : Address → Option (Registration A P N)) (L : Slot P S → List Address) (f : Post P N) : Prop where
  known : ∀ a, f.throughout a → (reg a).isSome
  placed : ∃ before ahead, Placed string reg f before ahead (f.addresses string L)

structure Inv (s : State A P N S) : Prop where
  lists : ∃ L C, Listed string s.center L ∧ Chained s.center C ∧
    ∀ f ∈ s.posts, PostInv string (registered s.center.record) L f

variable {string} {reg reg' : Address → Option (Registration A P N)} {L L' : Slot P S → List Address} {f : Post P N}

omit [DecidableEq P] [DecidableEq N] [DecidableEq S] in
lemma addresses_filter (keep : Address → Bool) (hL : ∀ k, L' k = (L k).filter keep) :
    f.addresses string L' = (f.addresses string L).filter keep := by
  rw [Post.addresses, Post.addresses]
  cases f.list string with
  | none => rfl
  | some k => exact hL k

lemma head_filter {keep : Address → Bool} {l : List Address} (h : ∀ a ∈ l.head?, keep a) : (l.filter keep).head? = l.head? := by
  cases l with
  | nil => rfl
  | cons a l => rw [List.filter_cons_of_pos (h a rfl)]; rfl

omit [DecidableEq P] [DecidableEq N] [DecidableEq S] in
lemma PostInv.filter (h : PostInv string reg L f) (keep : Address → Bool) (hcursor : ∀ a ∈ f.cursor, keep a)
    (hreg : ∀ a, reg' a = if keep a then reg a else none) (hL : ∀ k, L' k = (L k).filter keep)
    {throughout : Address → Bool} (ht : ∀ a, throughout a → f.throughout a ∧ (reg' a).isSome) :
    PostInv string reg' L' { f with throughout := throughout } where
  known a ha := (ht a ha).2
  placed := by
    obtain ⟨before, ahead, haddr, hhead, hcalls⟩ := h.placed
    refine ⟨before.filter keep, ahead.filter keep, ?_, ?_, ?_⟩
    · change f.addresses string L' = _
      rw [addresses_filter keep hL, haddr, List.filter_append]
    · rw [head_filter]
      · exact hhead
      · rwa [← hhead]
    · intro a ha r hr haction hmatch
      obtain ⟨ha, hsome⟩ := ht a ha
      have hkeep : keep a = true := by
        by_contra hk
        rw [hreg, if_neg hk] at hsome
        cases hsome
      rw [hreg, if_pos hkeep] at hr
      have hold := hcalls a ha r hr haction hmatch
      simpa [hkeep] using hold

omit [DecidableEq N] in
lemma PostInv.add (h : PostInv string reg L f) {a : Address} (hfresh : reg a = none) {r : Registration A P N} (k : Slot P S) :
    PostInv string (Function.update reg a (some r)) (Function.update L k (a :: L k)) f where
  known b hb := by
    rcases eq_or_ne b a with rfl | hne
    · simp
    · rw [Function.update_of_ne hne]
      exact h.known b hb
  placed := by
    obtain ⟨before, ahead, haddr, hhead, hcalls⟩ := h.placed
    have hcalls' : ∀ b, f.throughout b → ∀ r' ∈ Function.update reg a (some r) b, r'.observerAction.isSome →
        Matches string f r' → (b ∈ ahead ∨ f.phase.later (r'.slot string) → f.called.count b = 0) ∧
          (¬ (b ∈ ahead ∨ f.phase.later (r'.slot string)) → f.called.count b = 1) := by
      intro b hb r' hr'
      have hne : b ≠ a := by
        rintro rfl
        simpa [hfresh] using h.known b hb
      rw [Function.update_of_ne hne] at hr'
      exact hcalls b hb r' hr'
    by_cases hlist : f.list string = some k
    · refine ⟨a :: before, ahead, ?_, hhead, hcalls'⟩
      simp only [Post.addresses, hlist, Option.map_some, Option.getD_some, Function.update_self] at haddr ⊢
      rw [haddr]
      rfl
    · refine ⟨before, ahead, ?_, hhead, hcalls'⟩
      rw [← haddr, Post.addresses, Post.addresses]
      cases hf : f.list string with
      | none => rfl
      | some k' =>
        have hne : k' ≠ k := fun heq => hlist (by rw [hf, heq])
        simp [hne]

variable {c : NotificationCenter A P N S} {C : P → List Address}

omit [DecidableEq N] [DecidableEq S] in
lemma calls_iff {r : Registration A P N} (hslot : f.list string = some (r.slot string)) :
    f.calls r ↔ r.observerAction.isSome ∧ Matches string f r := by
  obtain ⟨action, observer, name, object⟩ := r
  simp only [Post.calls, Matches, Bool.and_eq_true, Bool.or_eq_true, decide_eq_true_eq]
  apply and_congr_right
  intro _
  cases hphase : f.phase with
  | names =>
    cases name with
    | none => cases object <;> simp [Post.list, hphase, Registration.slot] at hslot
    | some name =>
      simp only [Post.list, hphase, Registration.slot, Option.some.injEq, Slot.name.injEq] at hslot
      cases object <;> simp [hslot, eq_comm, or_comm]
  | objects =>
    cases name with
    | some name => cases hobject : f.object <;> simp [Post.list, hphase, Registration.slot, hobject] at hslot
    | none => cases object with
      | none => cases hobject : f.object <;> simp [Post.list, hphase, Registration.slot, hobject] at hslot
      | some object => cases hobject : f.object <;> simp_all [Post.list, Registration.slot]
  | nils =>
    cases name with
    | some name => simp [Post.list, hphase, Registration.slot] at hslot
    | none => cases object <;> simp [Post.list, hphase, Registration.slot] at hslot ⊢

omit [DecidableEq P] [DecidableEq N] [DecidableEq S] in
lemma slot_of_mem (h : Listed string c L) {a : Address} (ha : a ∈ f.addresses string L) {r : Registration A P N}
    (hr : registered c.record a = some r) : f.list string = some (r.slot string) := by
  rw [Post.addresses] at ha
  cases hlist : f.list string with
  | none => simp [hlist] at ha
  | some k =>
    rw [hlist] at ha
    obtain ⟨r', hr', hk⟩ := (h.mem k a).mp ha
    rw [hr, Option.some.injEq] at hr'
    rw [hr', hk]

omit [DecidableEq P] [DecidableEq N] [DecidableEq S] in
lemma mem_addresses (h : Listed string c L) {a : Address} {r : Registration A P N}
    (hr : registered c.record a = some r) : a ∈ f.addresses string L ↔ f.list string = some (r.slot string) := by
  refine ⟨fun ha => slot_of_mem h ha hr, fun hlist => ?_⟩
  rw [Post.addresses, hlist]
  exact (h.mem _ a).mpr ⟨r, hr, rfl⟩

omit [DecidableEq P] [DecidableEq N] [DecidableEq S] in
lemma addresses_nodup (h : Listed string c L) : (f.addresses string L).Nodup := by
  rw [Post.addresses]
  cases f.list string with
  | none => exact List.nodup_nil
  | some k => exact h.nodup k

omit [DecidableEq P] [DecidableEq N] [DecidableEq S] in
lemma cursor_spec (h : Listed string c L) {before ahead : List Address} {a : Address}
    (haddr : f.addresses string L = before ++ a :: ahead) :
    ∃ r, c.record a = some r ∧ r.next = ahead.head? ∧ f.list string = some (r.slot string) := by
  have hmem : a ∈ f.addresses string L := by simp [haddr]
  cases hlist : f.list string with
  | none => simp [Post.addresses, hlist] at hmem
  | some k =>
    simp only [Post.addresses, hlist, Option.map_some, Option.getD_some] at haddr hmem
    obtain ⟨g, hg, hk⟩ := (h.mem k a).mp hmem
    obtain ⟨r, hr, rfl⟩ := record_of_registered hg
    have hseg := h.segment k
    rw [haddr, segment_append] at hseg
    have hnext := hseg.2.2.1
    rw [Option.or_none] at hnext
    exact ⟨r, hr, by rw [← hnext, next, hr]; rfl, by rw [hk]⟩

omit [DecidableEq P] [DecidableEq N] [DecidableEq S] in
lemma not_later {k : Slot P S} (h : f.list string = some k) : ¬ f.phase.later k := by
  cases hphase : f.phase with
  | names =>
    obtain rfl : Slot.name (string f.name) = k := by simpa [Post.list, hphase] using h
    exact id
  | objects =>
    obtain ⟨o, -, rfl⟩ : ∃ o, f.object = some o ∧ Slot.object o = k := by simpa [Post.list, hphase] using h
    exact id
  | nils =>
    obtain rfl : Slot.catchAll = k := by simpa [Post.list, hphase] using h
    exact id

lemma postInv_turn (h : Listed string c L) (hf : PostInv string (registered c.record) L f) {a : Address}
    (ha : f.cursor = some a) : ∃ r, c.record a = some r ∧
      (∀ b ∈ f.callee c, ∃ r ∈ c.record b, Matches string f r.toRegistration) ∧
      PostInv string (registered c.record) L { f with
        cursor := r.next
        calling := (f.callee c).isSome
        called := f.called ++ (f.callee c).toList } := by
  obtain ⟨before, ahead, haddr, hhead, hcalls⟩ := hf.placed
  cases ahead with
  | nil => rw [ha] at hhead; cases hhead
  | cons b ahead =>
    obtain rfl : a = b := by rwa [ha, List.head?_cons, Option.some.injEq] at hhead
    obtain ⟨r, hr, hnext, hlist⟩ := cursor_spec h haddr
    have hcallee : f.callee c = if f.calls r.toRegistration then some a else none := by
      rw [Post.callee, ha]
      cases hc : f.calls r.toRegistration <;> simp [Option.filter, hr, hc]
    refine ⟨r, hr, ?_, hf.known, before ++ [a], ahead, by simpa [Post.addresses, Post.list] using haddr, hnext, ?_⟩
    · intro b hb
      rw [hcallee, Option.mem_ite_none_right] at hb
      obtain ⟨hc, hb⟩ := hb
      obtain rfl := Option.some.inj hb
      exact ⟨r, hr, ((calls_iff hlist).mp hc).2⟩
    · intro b hb g hg haction hmatch
      have hn := addresses_nodup (f := f) h
      rw [haddr] at hn
      have hanot : a ∉ ahead := (List.nodup_cons.mp (List.nodup_append'.mp hn).2.1).1
      have hold := hcalls b hb g hg haction hmatch
      change (b ∈ ahead ∨ f.phase.later (g.slot string) → (f.called ++ (f.callee c).toList).count b = 0) ∧
        (¬ (b ∈ ahead ∨ f.phase.later (g.slot string)) → (f.called ++ (f.callee c).toList).count b = 1)
      rw [List.count_append]
      rcases eq_or_ne b a with rfl | hne
      · obtain rfl : r.toRegistration = g := by
          rw [registered_of_record hr] at hg
          exact Option.some.inj hg
        have hc := (calls_iff hlist).mpr ⟨haction, hmatch⟩
        rw [hcallee, if_pos hc, hold.1 (.inl List.mem_cons_self)]
        refine ⟨fun hl => ?_, fun _ => by simp⟩
        exact (hl.elim hanot (not_later hlist)).elim
      · have hzero : (f.callee c).toList.count b = 0 := by
          rw [hcallee]
          split <;> simp [Ne.symm hne]
        rw [hzero, Nat.add_zero]
        simpa [hne] using hold

omit [DecidableEq P] [DecidableEq N] [DecidableEq S] in
lemma postInv_phase (h : Listed string c L) (hf : PostInv string (registered c.record) L f) (hend : f.cursor = none)
    {f' : Post P N} (hphase : f.phase = .names ∧ f'.phase = .objects ∨ f.phase = .objects ∧ f'.phase = .nils)
    (hsame : f'.name = f.name ∧ f'.object = f.object ∧ f'.called = f.called ∧ f'.throughout = f.throughout)
    (hcursor : f'.cursor = (f'.list string).bind c.head) : PostInv string (registered c.record) L f' := by
  obtain ⟨hname, hobject, hcalled, hthroughout⟩ := hsame
  refine ⟨by rw [hthroughout]; exact hf.known, [], f'.addresses string L, rfl, ?_, ?_⟩
  · rw [hcursor, Post.addresses]
    cases f'.list string with
    | none => rfl
    | some k => exact h.heads k
  · obtain ⟨before, ahead, -, hhead, hcalls⟩ := hf.placed
    obtain rfl : ahead = [] := by rwa [hend, eq_comm, List.head?_eq_none_iff] at hhead
    intro a ha r hr haction hmatch
    have hmatch' : Matches string f r := by simpa [Matches, hname, hobject] using hmatch
    have hold := hcalls a (hthroughout ▸ ha) r hr haction hmatch'
    rw [mem_addresses h hr, hcalled]
    have hsplit : (f'.list string = some (r.slot string) ∨ f'.phase.later (r.slot string)) ↔
        f.phase.later (r.slot string) := by
      obtain ⟨action, observer, name, object⟩ := r
      rcases hphase with ⟨hp, hp'⟩ | ⟨hp, hp'⟩ <;> cases name <;> cases object <;>
        simp_all [Post.list, Phase.later, Registration.slot, Matches]
    rw [hsplit]
    simpa using hold

omit [DecidableEq P] [DecidableEq N] [DecidableEq S] in
lemma postInv_new (h : Listed string c L) (name : N) (object : Option P) :
    PostInv string (registered c.record) L ⟨name, object, .names, c.nameTable (string name), false, [],
      fun a => (c.record a).isSome⟩ where
  known a ha := by rwa [record_isSome_of_registered]
  placed := by
    refine ⟨[], L (.name (string name)), rfl, h.heads (.name (string name)), ?_⟩
    intro a ha r hr haction hmatch
    refine ⟨fun _ => rfl, fun hnot => ?_⟩
    obtain ⟨action, observer, name', object'⟩ := r
    refine absurd ?_ hnot
    cases name' with
    | some name' =>
      refine .inl ((h.mem _ a).mpr ⟨_, hr, ?_⟩)
      simp only [Registration.slot, Slot.name.injEq]
      exact hmatch.1 name' rfl
    | none => cases object' <;> exact .inr trivial

/-! Steps. -/

variable {s t : State A P N S}

omit [DecidableEq P] [DecidableEq N] [DecidableEq S] in
lemma Inv.once (h : Inv string t) : ∀ f ∈ t.posts, f.phase = .nils → f.cursor = none → ∀ a, f.throughout a →
    ∀ r ∈ t.center.record a, r.observerAction.isSome → Matches string f r.toRegistration → f.called.count a = 1 := by
  intro f hf hphase hcursor a ha r hr haction hmatch
  obtain ⟨L, C, -, -, hposts⟩ := h.lists
  obtain ⟨before, ahead, -, hhead, hcalls⟩ := (hposts f hf).placed
  obtain rfl : ahead = [] := by rwa [hcursor, eq_comm, List.head?_eq_none_iff] at hhead
  refine (hcalls a ha _ (registered_of_record hr) haction hmatch).2 ?_
  rw [hphase]
  rintro (hm | hl)
  · cases hm
  · rw [Phase.later] at hl
    · exact hl
    · simp
    · simp
    · simp

omit [DecidableEq P] [DecidableEq N] [DecidableEq S] in
lemma kept_inv (hposts : ∀ f ∈ s.posts, PostInv string (registered s.center.record) L f) (keep : Address → Bool)
    (hcursor : ∀ f ∈ s.posts, ∀ a ∈ f.cursor, keep a)
    (hreg : ∀ a, registered c.record a = if keep a then registered s.center.record a else none)
    (hL : ∀ k, L' k = (L k).filter keep) : ∀ f ∈ kept c s.posts, PostInv string (registered c.record) L' f := by
  intro f' hf'
  obtain ⟨f, hf, rfl⟩ := List.mem_map.mp hf'
  refine (hposts f hf).filter keep (hcursor f hf) hreg hL fun a ha => ?_
  rw [Bool.and_eq_true] at ha
  exact ⟨ha.1, by rw [record_isSome_of_registered]; exact ha.2⟩

omit [DecidableEq P] [DecidableEq N] [DecidableEq S] in
lemma record_mem_registered {record : Records A P N} {a : Address} {r : NotificationObserver A P N} (h : r ∈ record a) :
    registered record a = some r.toRegistration := registered_of_record h

omit [DecidableEq N] in
lemma step_add (hs : Inv string s) {a : Address} {r : Registration A P N} (hp : possible s (.add a r)) :
    ∃ c, s.center.addNotificationObserver string a r = some c ∧ Inv string { s with center := c } := by
  obtain ⟨L, C, hL, hC, hposts⟩ := hs.lists
  rw [possible, Bool.and_eq_true, Option.isNone_iff_eq_none] at hp
  obtain ⟨c, hc, hL', hC', hreg⟩ := addNotificationObserver_spec hL hC hp.2 r
  refine ⟨c, hc, ⟨_, _, hL', hC', fun f hf => ?_⟩⟩
  change PostInv string (registered c.record) _ f
  rw [hreg]
  exact (hposts f hf).add (by simp [registered, view, hp.2]) _

omit [DecidableEq N] in
lemma step_remove (hs : Inv string s) {o : P} (hu : ∀ f ∈ s.posts, ∀ a ∈ f.cursor, ∀ r ∈ s.center.record a, r.observer ≠ o) :
    ∃ c, s.center.removeNotificationObserver string o = some c ∧ Inv string ⟨c, kept c s.posts⟩ ∧
      ∀ a, ∀ r ∈ c.record a, r.observer ≠ o := by
  obtain ⟨L, C, hL, hC, hposts⟩ := hs.lists
  obtain ⟨c, hc, hL', hC', hreg⟩ := removeNotificationObserver_spec hL hC o
  refine ⟨c, hc, ⟨_, _, hL', hC', ?_⟩, ?_⟩
  · refine kept_inv hposts (fun a => decide (a ∉ C o)) ?_ (fun a => by rw [hreg]; by_cases ha : a ∈ C o <;> simp [ha])
      fun _ => rfl
    intro f hf a ha
    rw [decide_eq_true_eq]
    intro hm
    obtain ⟨g, hg, rfl⟩ := (hC.mem o a).mp hm
    obtain ⟨r, hr, rfl⟩ := record_of_registered hg
    exact hu f hf a ha r hr rfl
  · intro a r hr ho
    have hg := record_mem_registered hr
    rw [hreg] at hg
    obtain ⟨ha, hg⟩ := Option.ite_none_left_eq_some.mp hg
    exact ha ((hC.mem o a).mpr ⟨_, hg, ho⟩)

lemma step_removeWithName (hs : Inv string s) {o : P} {name : Option N} {object : Option P}
    (hu : Undisturbed string s (.removeWithName o name object)) :
    ∃ c, s.center.removeNotificationObserverWithName string o name object = some c ∧ Inv string ⟨c, kept c s.posts⟩ ∧
      ∀ a, ∀ r ∈ c.record a, ¬ (r.observer = o ∧ r.name.map string = name.map string ∧ r.object = object) := by
  obtain ⟨L, C, hL, hC, hposts⟩ := hs.lists
  obtain ⟨hcursor, hpointer⟩ := hu
  obtain ⟨c, hc, hL', hC', hreg⟩ := removeNotificationObserverWithName_spec hL hC o name object
  refine ⟨c, hc, ⟨_, _, hL', hC', ?_⟩, ?_⟩
  · refine kept_inv hposts (fun a => !(decide (a ∈ C o) && drops name object s.center.record a)) ?_ (fun a => ?_) fun _ => rfl
    · intro f hf a ha
      rw [Bool.not_eq_true', Bool.and_eq_false_imp, decide_eq_true_eq]
      intro hm
      obtain ⟨g, hg, ho⟩ := (hC.mem o a).mp hm
      obtain ⟨r, hr, rfl⟩ := record_of_registered hg
      rw [drops_of_record name object hr, decide_eq_false_iff_not]
      exact fun hd => hcursor f hf a ha r hr ⟨ho, hd.1, hd.2⟩
    · rw [hreg]
      by_cases ha : a ∈ C o <;> cases hd : drops name object s.center.record a <;> simp [ha, hd]
  · rintro a r hr ⟨ho, hname, hobject⟩
    have hg := record_mem_registered hr
    rw [hreg] at hg
    obtain ⟨hkeep, hg⟩ := Option.ite_none_left_eq_some.mp hg
    obtain ⟨r', hr', hsame⟩ := record_of_registered hg
    have hpr := hpointer a r' hr' (by rw [hsame]; exact ho) (by rw [hsame]; exact hobject) (by rw [hsame]; exact hname)
    refine hkeep ⟨(hC.mem o a).mpr ⟨_, hg, ho⟩, ?_⟩
    rw [drops_of_record name object hr', decide_eq_true_eq]
    exact ⟨hpr, by rw [hsame]; exact hobject⟩

lemma resume_inv (hs : Inv string s) (hp : possible s .resume) : Ensures (resume s s.posts) fun t => Inv string t ∧
    ∀ f ∈ s.posts.head?, ∀ a ∈ f.callee s.center, ∃ r ∈ s.center.record a, Matches string f r.toRegistration := by
  obtain ⟨L, C, hL, hC, hposts⟩ := hs.lists
  cases hframes : s.posts with
  | nil => simp [possible, hframes] at hp
  | cons f posts =>
    rw [hframes] at hposts
    have hf := hposts f List.mem_cons_self
    have hrest := fun g hg => hposts g (List.mem_cons_of_mem f hg)
    have hinv : ∀ f', PostInv string (registered s.center.record) L f' → Inv string { s with posts := f' :: posts } :=
      fun f' hf' => ⟨L, C, hL, hC, List.forall_mem_cons.mpr ⟨hf', hrest⟩⟩
    have hnone : f.cursor = none → ∀ g ∈ (f :: posts).head?, ∀ a ∈ g.callee s.center,
        ∃ r ∈ s.center.record a, Matches string g r.toRegistration := by
      intro hend g hg a ha
      obtain rfl := Option.some.inj hg
      simp [Post.callee, hend] at ha
    cases hcursor : f.cursor with
    | some a =>
      obtain ⟨r, hr, hcallee, hf'⟩ := postInv_turn hL hf hcursor
      simp only [resume, hcursor, hr]
      refine ensures_some ⟨hinv _ hf', fun g hg => ?_⟩
      obtain rfl := Option.some.inj hg
      exact hcallee
    | none =>
      cases hphase : f.phase with
      | names =>
        simp only [resume, hcursor, hphase]
        refine ensures_some ⟨hinv _ (postInv_phase hL hf hcursor (.inl ⟨hphase, rfl⟩) ⟨rfl, rfl, rfl, rfl⟩ ?_), hnone hcursor⟩
        cases f.object <;> rfl
      | objects =>
        simp only [resume, hcursor, hphase]
        exact ensures_some ⟨hinv _ (postInv_phase hL hf hcursor (.inr ⟨hphase, rfl⟩) ⟨rfl, rfl, rfl, rfl⟩ rfl), hnone hcursor⟩
      | nils =>
        simp only [resume, hcursor, hphase]
        exact ensures_some ⟨⟨L, C, hL, hC, hrest⟩, hnone hcursor⟩

lemma step_delivers (hs : Inv string s) {e : Event A P N} (h : possible s e ∧ Undisturbed string s e) :
    Ensures (step string s e) fun t => Inv string t ∧ Delivers string s e t := by
  obtain ⟨hp, hu⟩ := h
  cases e with
  | add a r =>
    obtain ⟨c, hc, hinv⟩ := step_add hs hp
    rw [step, hc]
    exact ensures_some ⟨hinv, by simp, hinv.once, by simp, by simp⟩
  | remove o =>
    obtain ⟨c, hc, hinv, hgone⟩ := step_remove hs hu
    rw [step, hc]
    refine ensures_some ⟨hinv, by simp, hinv.once, fun o' ho => ?_, by simp⟩
    obtain rfl := Event.remove.inj ho
    exact hgone
  | removeWithName o name object =>
    obtain ⟨c, hc, hinv, hgone⟩ := step_removeWithName hs hu
    rw [step, hc]
    refine ensures_some ⟨hinv, by simp, hinv.once, by simp, fun o' name' object' he => ?_⟩
    obtain ⟨rfl, rfl, rfl⟩ := Event.removeWithName.inj he
    exact hgone
  | post name object =>
    obtain ⟨L, C, hL, hC, hposts⟩ := hs.lists
    have hinv : Inv string { s with posts := ⟨name, object, .names, s.center.nameTable (string name), false, [],
        fun a => (s.center.record a).isSome⟩ :: s.posts } :=
      ⟨L, C, hL, hC, List.forall_mem_cons.mpr ⟨postInv_new hL name object, hposts⟩⟩
    exact ensures_some ⟨hinv, by simp, hinv.once, by simp, by simp⟩
  | resume =>
    refine (resume_inv hs hp).imp fun t ⟨hinv, hcalled⟩ => ⟨hinv, fun _ => hcalled, hinv.once, by simp, by simp⟩

omit [DecidableEq P] [DecidableEq N] [DecidableEq S] in
lemma initial_inv : Inv string (initial : State A P N S) :=
  ⟨_, _, initial_listed, initial_chained, by simp [initial]⟩

/-- A run whose removals hit no record that a post goes on from, and name it by its own pointer, goes through without
reading a freed record, and each of its posts and removals does what it is for. -/
theorem run_delivers (es : List (Event A P N))
    (h : Admits (step string) (fun s e => possible s e ∧ Undisturbed string s e) (initial : State A P N S) es) :
    Completes (step string) (Delivers string) (initial : State A P N S) es :=
  completes (fun _ _ hs hc => step_delivers hs hc) initial_inv h

/-- Names are pointers, of which 1 and 11 point to equal strings. -/
def pointee (n : ℕ) : ℕ := n % 10

/-- The observer that is called first removes itself. -/
def selfRemoval : List (Event Unit ℕ ℕ) :=
  [.add 0 ⟨some (), 5, some 1, none⟩, .add 1 ⟨some (), 6, some 11, none⟩, .post 1 none, .resume, .remove 6, .resume]

theorem run_delivers_selfRemoval : Completes (step pointee) (Delivers pointee) initial selfRemoval := by
  apply run_delivers
  refine ⟨⟨by decide, trivial⟩, fun t ht => ?_⟩
  obtain rfl := Option.some.inj ht
  refine ⟨⟨by decide, trivial⟩, fun t ht => ?_⟩
  obtain rfl := Option.some.inj ht
  refine ⟨⟨by decide, trivial⟩, fun t ht => ?_⟩
  obtain rfl := Option.some.inj ht
  refine ⟨⟨by decide, trivial⟩, fun t ht => ?_⟩
  obtain rfl := Option.some.inj ht
  refine ⟨⟨by decide, ?_⟩, fun t ht => ?_⟩
  · unfold Undisturbed
    decide
  obtain rfl := Option.some.inj ht
  exact ⟨⟨by decide, trivial⟩, fun _ _ => trivial⟩

/-- The observer that is called first removes the one that comes next. -/
def nextRemoval : List (Event Unit ℕ ℕ) :=
  [.add 0 ⟨some (), 5, some 1, none⟩, .add 1 ⟨some (), 6, some 11, none⟩, .post 1 none, .resume, .remove 5, .resume]

/-- The name is removed with another pointer to the same string. -/
def otherPointer : List (Event Unit ℕ ℕ) := [.add 0 ⟨some (), 5, some 1, none⟩, .removeWithName 5 (some 11) none]

theorem disturbed_not_delivered :
    Admits (step pointee) (fun s e => possible s e) (initial : State Unit ℕ ℕ ℕ) nextRemoval ∧
      ¬ Completes (step pointee) (Delivers pointee) initial nextRemoval ∧
      Admits (step pointee) (fun s e => possible s e) (initial : State Unit ℕ ℕ ℕ) otherPointer ∧
      ¬ Completes (step pointee) (Delivers pointee) initial otherPointer := by
  refine ⟨by decide, ?_, by decide, ?_⟩
  · rintro ⟨t, ht, -, h⟩
    obtain rfl := Option.some.inj ht
    obtain ⟨t, ht, -, h⟩ := h
    obtain rfl := Option.some.inj ht
    obtain ⟨t, ht, -, h⟩ := h
    obtain rfl := Option.some.inj ht
    obtain ⟨t, ht, -, h⟩ := h
    obtain rfl := Option.some.inj ht
    obtain ⟨t, ht, -, h⟩ := h
    obtain rfl := Option.some.inj ht
    obtain ⟨t, ht, -, -⟩ := h
    cases ht
  · rintro ⟨t, ht, -, h⟩
    obtain rfl := Option.some.inj ht
    obtain ⟨t, ht, hdelivers, -⟩ := h
    obtain rfl := Option.some.inj ht
    exact hdelivers.removedWithName 5 (some 11) none rfl 0 _ rfl ⟨rfl, by decide, rfl⟩

end Xperimentum.WMcore.Observers
