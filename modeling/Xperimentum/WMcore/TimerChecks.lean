import Xperimentum.WMcore.Timers

/-! The queue stays in order, and handlers are called in time and freed once, as long as no check loses the
handler that it is calling. -/

namespace Xperimentum.WMcore.Timers

open Lib.Int32 Lib.Partial

variable {D : Type} [DecidableEq D]

def Timeval.reading (tv : Timeval) : Bool := 0 < tv.tv_sec ∧ 0 ≤ tv.tv_usec ∧ tv.tv_usec < 1000000

/-- Timers are added and deleted and the queue is checked outside of the loop's own turns, and memory is
allocated that is free. -/
def possible (s : State D) : Event D → Bool
  | .add address milliseconds _ _ reading =>
    control s.checks && decide (0 ≤ milliseconds ∧ milliseconds < 2 ^ 31) && reading.reading &&
      address.all fun a => (find a s.queue).isNone
  | .deleteWithClientData _ => control s.checks
  | .delete _ => control s.checks
  | .check reading => control s.checks && reading.reading
  | .resume => !s.checks.isEmpty

/-- The handler that a deletion finds. -/
def target (s : State D) : Event D → Option (Handler D)
  | .deleteWithClientData clientData =>
    if clientData = none then none else s.queue.find? fun h => h.clientData = clientData
  | .delete (some a) => find a s.queue
  | _ => none

/-- The product of an addition fits; a deleted handler is there; no handler that a check has called is freed by a
deletion; and at the end of a check none that another is calling is freed, or put back before that one's time. -/
def Undisturbed (s : State D) : Event D → Prop
  | .add _ milliseconds _ _ _ => milliseconds * 1000 < 2 ^ 31
  | .deleteWithClientData clientData =>
    ∀ h ∈ target s (.deleteWithClientData clientData), h.when.isZero ∨ ∀ f ∈ s.checks, f.handler ≠ some h.address
  | .delete handlerID =>
    (s.queue = [] ∨ ∀ a ∈ handlerID, (find a s.queue).isSome) ∧
      ∀ h ∈ target s (.delete handlerID), h.when.isZero ∨ ∀ f ∈ s.checks, f.handler ≠ some h.address
  | .check _ => True
  | .resume =>
    ∀ f ∈ s.checks.head?, f.ends s.queue → ∀ g ∈ s.checks.tail, ∀ a ∈ g.handler, ∀ h ∈ find a s.queue, h.when.isZero →
      0 < h.nextDelay ∧ g.now.isAfter (f.now.addmillisecs h.nextDelay) = false

instance decidableUndisturbed (s : State D) (e : Event D) : Decidable (Undisturbed s e) :=
  match e with
  | .add _ milliseconds _ _ _ => inferInstanceAs (Decidable (milliseconds * 1000 < 2 ^ 31))
  | .deleteWithClientData clientData => inferInstanceAs (Decidable (∀ h ∈ target s (.deleteWithClientData clientData),
      h.when.isZero ∨ ∀ f ∈ s.checks, f.handler ≠ some h.address))
  | .delete handlerID => inferInstanceAs (Decidable ((s.queue = [] ∨ ∀ a ∈ handlerID, (find a s.queue).isSome) ∧
      ∀ h ∈ target s (.delete handlerID), h.when.isZero ∨ ∀ f ∈ s.checks, f.handler ≠ some h.address))
  | .check _ => inferInstanceAs (Decidable True)
  | .resume => inferInstanceAs (Decidable (∀ f ∈ s.checks.head?, f.ends s.queue → ∀ g ∈ s.checks.tail, ∀ a ∈ g.handler,
      ∀ h ∈ find a s.queue, h.when.isZero →
        0 < h.nextDelay ∧ g.now.isAfter (f.now.addmillisecs h.nextDelay) = false))

def Check.callee (f : Check) (queue : List (Handler D)) : Option (Handler D) :=
  if f.calling then none else (f.dueHandler queue).filter fun h => !h.when.isZero

structure Keeps (s : State D) (e : Event D) (t : State D) : Prop where
  sorted : t.queue.Pairwise fun h h' => h.when.isAfter h'.when = false
  distinct : (t.queue.map fun h => h.address).Nodup
  timely : e = .resume → ∀ f ∈ s.checks.head?, ∀ h ∈ f.callee s.queue,
    h.due < f.now.microseconds ∧ h.deleted = false ∧ (h.persistent = false → h.calls = 0)
  once : ∀ h ∈ t.queue, h.persistent = false → h.calls ≤ 1
  freed : t.checks = [] → ∀ h ∈ t.queue, h.when.isZero = false ∧ (h.persistent = false → h.calls = 0)
  deleted : ∀ h ∈ target s e, ∀ h' ∈ t.queue, h'.address = h.address → h'.deleted

/-! Times. -/

namespace Timeval

variable {tv t₁ t₂ : Timeval}

structure Normal (tv : Timeval) : Prop where
  sec : 0 ≤ tv.tv_sec
  usec : 0 ≤ tv.tv_usec
  usec_lt : tv.tv_usec < 1000000

lemma normal_zero : Normal zero := ⟨le_rfl, le_rfl, by decide⟩

lemma normal_of_reading (h : tv.reading) : Normal tv ∧ 0 < tv.microseconds := by
  obtain ⟨hs, hu, hl⟩ := of_decide_eq_true h
  refine ⟨⟨hs.le, hu, hl⟩, ?_⟩
  rw [microseconds]
  omega

lemma Normal.nonneg (h : Normal tv) : 0 ≤ tv.microseconds := by
  obtain ⟨hs, hu, hl⟩ := h
  rw [microseconds]
  omega

lemma isAfter_iff (h₁ : Normal t₁) (h₂ : Normal t₂) : t₁.isAfter t₂ ↔ t₂.microseconds < t₁.microseconds := by
  obtain ⟨hs, hu, hl⟩ := h₁
  obtain ⟨hs', hu', hl'⟩ := h₂
  simp only [isAfter, decide_eq_true_eq, microseconds]
  omega

lemma not_isAfter_iff (h₁ : Normal t₁) (h₂ : Normal t₂) :
    t₁.isAfter t₂ = false ↔ t₁.microseconds ≤ t₂.microseconds := by
  rw [← not_lt, ← isAfter_iff h₁ h₂, Bool.not_eq_true]

lemma isZero_iff (h : Normal tv) : tv.isZero ↔ tv.microseconds = 0 := by
  obtain ⟨hs, hu, hl⟩ := h
  simp only [isZero, decide_eq_true_eq, microseconds]
  omega

lemma not_isZero_iff (h : Normal tv) : tv.isZero = false ↔ 0 < tv.microseconds := by
  have hn := h.nonneg
  rw [← Bool.not_eq_true, isZero_iff h]
  omega

lemma addmillisecs_spec (h : Normal tv) {milliseconds : ℤ} (h₀ : 0 ≤ milliseconds) (h₁ : milliseconds * 1000 < 2 ^ 31) :
    Normal (tv.addmillisecs milliseconds) ∧
      (tv.addmillisecs milliseconds).microseconds = tv.microseconds + milliseconds * 1000 := by
  obtain ⟨hs, hu, hl⟩ := h
  have hwrap : wrap32 (milliseconds * 1000) = milliseconds * 1000 := wrap32_of_mem (by omega) h₁
  have hsum : 0 ≤ tv.tv_usec + milliseconds * 1000 := by omega
  simp only [addmillisecs, hwrap, microseconds, Int.tdiv_eq_ediv_of_nonneg hsum, Int.tmod_eq_emod_of_nonneg hsum]
  refine ⟨⟨?_, ?_, ?_⟩, ?_⟩
  · have := Int.ediv_nonneg hsum (by decide : (0 : ℤ) ≤ 1000000)
    dsimp only
    omega
  · exact Int.emod_nonneg _ (by decide)
  · exact Int.emod_lt_of_pos _ (by decide)
  · have := Int.mul_ediv_add_emod (tv.tv_usec + milliseconds * 1000) 1000000
    omega

end Timeval

/-! Handlers and the queue. -/

open Timeval

structure HandlerInv (h : Handler D) : Prop where
  normal : Normal h.when
  waiting : h.when.isZero = false → h.due = h.when.microseconds ∧ h.deleted = false ∧ (h.persistent = false → h.calls = 0)
  once : h.persistent = false → h.calls ≤ 1 ∧ h.nextDelay = 0
  delay : 0 ≤ h.nextDelay ∧ h.nextDelay * 1000 < 2 ^ 31
  deleted : h.deleted → h.nextDelay = 0

structure QueueInv (q : List (Handler D)) : Prop where
  handlers : ∀ h ∈ q, HandlerInv h
  sorted : q.Pairwise fun h h' => h.when.microseconds ≤ h'.when.microseconds
  distinct : (q.map fun h => h.address).Nodup

variable {q q' : List (Handler D)} {h : Handler D} {a : ℕ}

omit [DecidableEq D] in
lemma perm_enqueue (h : Handler D) (q : List (Handler D)) : (enqueueTimerHandler h q).Perm (h :: q) := by
  induction q with
  | nil => exact List.Perm.refl _
  | cons x q ih =>
    rw [enqueueTimerHandler]
    split
    · exact (ih.cons x).trans (List.Perm.swap h x q)
    · exact List.Perm.refl _

omit [DecidableEq D] in
lemma enqueue_inv (hq : QueueInv q) (hh : HandlerInv h) (hfresh : ∀ x ∈ q, x.address ≠ h.address) :
    QueueInv (enqueueTimerHandler h q) where
  handlers x hx := by
    rcases List.mem_cons.mp ((perm_enqueue h q).subset hx) with rfl | hx
    · exact hh
    · exact hq.handlers x hx
  sorted := by
    have hs := hq.sorted
    have hall := hq.handlers
    clear hq hfresh
    induction q with
    | nil => exact List.pairwise_singleton _ _
    | cons x q ih =>
      obtain ⟨hx, hs⟩ := List.pairwise_cons.mp hs
      have hxn := (hall x List.mem_cons_self).normal
      rw [enqueueTimerHandler]
      split
      next hafter =>
        refine List.pairwise_cons.mpr ⟨fun y hy => ?_, ih hs fun y hy => hall y (List.mem_cons_of_mem x hy)⟩
        rcases List.mem_cons.mp ((perm_enqueue h q).subset hy) with rfl | hy
        · exact ((isAfter_iff hh.normal hxn).mp hafter).le
        · exact hx y hy
      next hafter =>
        rw [Bool.not_eq_true, not_isAfter_iff hh.normal hxn] at hafter
        refine List.pairwise_cons.mpr ⟨fun y hy => ?_, List.pairwise_cons.mpr ⟨hx, hs⟩⟩
        rcases List.mem_cons.mp hy with rfl | hy
        · exact hafter
        · exact hafter.trans (hx y hy)
  distinct := by
    rw [((perm_enqueue h q).map fun h => h.address).nodup_iff, List.map_cons, List.nodup_cons]
    refine ⟨fun hm => ?_, hq.distinct⟩
    obtain ⟨x, hx, heq⟩ := List.mem_map.mp hm
    exact hfresh x hx heq

omit [DecidableEq D] in
lemma QueueInv.sublist (hq : QueueInv q) (h : q'.Sublist q) : QueueInv q' where
  handlers x hx := hq.handlers x (h.subset hx)
  sorted := hq.sorted.sublist h
  distinct := hq.distinct.sublist (h.map _)

omit [DecidableEq D] in
lemma QueueInv.eq_of_address (hq : QueueInv q) {h' : Handler D} (hh : h ∈ q) (hh' : h' ∈ q)
    (ha : h.address = h'.address) : h = h' := List.inj_on_of_nodup_map hq.distinct hh hh' ha

omit [DecidableEq D] in
lemma find_eq_some (hq : QueueInv q) : find a q = some h ↔ h ∈ q ∧ h.address = a := by
  constructor
  · intro hf
    exact ⟨List.mem_of_find?_eq_some hf, by simpa using List.find?_some hf⟩
  · rintro ⟨hm, rfl⟩
    cases hf : find h.address q with
    | none => simpa using List.find?_eq_none.mp hf h hm
    | some x =>
      have hx : x.address = h.address := by simpa using List.find?_some hf
      rw [hq.eq_of_address (List.mem_of_find?_eq_some hf) hm hx]

omit [DecidableEq D] in
lemma again_inv (hh : HandlerInv h) {now : Timeval} (hnow : now.reading) (hdelay : 0 < h.nextDelay) :
    HandlerInv (again now h) ∧ (again now h).when.isZero = false := by
  obtain ⟨hn, hpos⟩ := normal_of_reading hnow
  obtain ⟨hnormal, hmicro⟩ := addmillisecs_spec hn hh.delay.1 hh.delay.2
  have hzero : (again now h).when.isZero = false := by
    change (now.addmillisecs h.nextDelay).isZero = false
    rw [not_isZero_iff hnormal, hmicro]
    have := hh.delay.1
    omega
  have hnot : h.deleted = false := by
    by_contra hd
    have := hh.deleted (by simpa using hd)
    omega
  refine ⟨⟨hnormal, fun _ => ⟨hmicro.symm, hnot, fun hp => ?_⟩, hh.once, hh.delay, hh.deleted⟩, hzero⟩
  have := (hh.once hp).2
  omega

omit [DecidableEq D] in
lemma QueueInv.zero_of_le (hq : QueueInv q) {h' : Handler D} (hh : h ∈ q) (hh' : h' ∈ q)
    (hle : h.when.microseconds ≤ h'.when.microseconds) (hz : h'.when.isZero) : h.when.isZero := by
  have hn := (hq.handlers h hh).normal
  rw [isZero_iff (hq.handlers h' hh').normal] at hz
  rw [isZero_iff hn]
  have := hn.nonneg
  omega

/-- What is left of the queue when the check has freed or put back what has been called. -/
structure Swept (now : Timeval) (q q' : List (Handler D)) : Prop where
  inv : QueueInv q'
  waiting : ∀ h ∈ q', h.when.isZero = false
  origin : ∀ h ∈ q', h ∈ q ∧ h.when.isZero = false ∨ ∃ x ∈ q, x.when.isZero ∧ 0 < x.nextDelay ∧ h = again now x
  kept : ∀ h ∈ q, h.when.isZero = false → h ∈ q'
  back : ∀ h ∈ q, h.when.isZero → 0 < h.nextDelay → again now h ∈ q'

omit [DecidableEq D] in
lemma sweep_swept {now : Timeval} (hnow : now.reading) {fuel : ℕ} (hq : QueueInv q)
    (hfuel : (q.countP fun h => h.when.isZero) ≤ fuel) : Swept now q (sweep now fuel q) := by
  have hdone : ∀ {q : List (Handler D)}, QueueInv q → (∀ h ∈ q, h.when.isZero = false) → Swept now q q :=
    fun hq hz => ⟨hq, hz, fun h hh => .inl ⟨hh, hz h hh⟩, fun _ hh _ => hh, fun h hh hzh => by simp [hz h hh] at hzh⟩
  induction fuel generalizing q with
  | zero =>
    refine hdone hq fun h hh => ?_
    have := List.countP_eq_zero.mp (Nat.le_zero.mp hfuel) h hh
    simpa using this
  | succ fuel ih =>
    cases q with
    | nil => exact hdone hq (by simp)
    | cons h q =>
      have hhead := hq.handlers h List.mem_cons_self
      have htail := hq.sublist (List.sublist_cons_self h q)
      rw [sweep]
      split
      next hz =>
        have hcount : (q.countP fun h => h.when.isZero) ≤ fuel := by
          rw [List.countP_cons, if_pos hz] at hfuel
          omega
        split
        next hdelay =>
          obtain ⟨hagain, hlater⟩ := again_inv hhead hnow hdelay
          have hperm := perm_enqueue (again now h) q
          have hmem : ∀ x, x ∈ enqueueTimerHandler (again now h) q ↔ x = again now h ∨ x ∈ q := fun x => by
            rw [hperm.mem_iff, List.mem_cons]
          have hinv := enqueue_inv htail hagain fun x hx heq =>
            (List.nodup_cons.mp hq.distinct).1 (List.mem_map.mpr ⟨x, hx, heq⟩)
          obtain ⟨hs, hw, horigin, hkept, hback⟩ := ih hinv (by
            rw [hperm.countP_eq, List.countP_cons, if_neg (by simp [hlater])]
            exact hcount)
          refine ⟨hs, hw, fun x hx => ?_, fun x hx hxz => ?_, fun x hx hxz hxd => ?_⟩
          · rcases horigin x hx with ⟨hx, hxz⟩ | ⟨y, hy, hyz, hyd, rfl⟩
            · rcases (hmem x).mp hx with rfl | hx
              · exact .inr ⟨h, List.mem_cons_self, hz, hdelay, rfl⟩
              · exact .inl ⟨List.mem_cons_of_mem h hx, hxz⟩
            · rcases (hmem y).mp hy with rfl | hy
              · simp [hlater] at hyz
              · exact .inr ⟨y, List.mem_cons_of_mem h hy, hyz, hyd, rfl⟩
          · rcases List.mem_cons.mp hx with rfl | hx
            · simp [hz] at hxz
            · exact hkept x ((hmem x).mpr (.inr hx)) hxz
          · rcases List.mem_cons.mp hx with rfl | hx
            · exact hkept _ ((hmem _).mpr (.inl rfl)) hlater
            · exact hback x ((hmem x).mpr (.inr hx)) hxz hxd
        next hdelay =>
          obtain ⟨hs, hw, horigin, hkept, hback⟩ := ih htail hcount
          refine ⟨hs, hw, fun x hx => ?_, fun x hx hxz => ?_, fun x hx hxz hxd => ?_⟩
          · rcases horigin x hx with ⟨hx, hxz⟩ | ⟨y, hy, hyz, hyd, rfl⟩
            · exact .inl ⟨List.mem_cons_of_mem h hx, hxz⟩
            · exact .inr ⟨y, List.mem_cons_of_mem h hy, hyz, hyd, rfl⟩
          · rcases List.mem_cons.mp hx with rfl | hx
            · simp [hz] at hxz
            · exact hkept x hx hxz
          · rcases List.mem_cons.mp hx with rfl | hx
            · exact absurd hxd hdelay
            · exact hback x hx hxz hxd
      next hz =>
        rw [Bool.not_eq_true] at hz
        refine hdone hq fun x hx => ?_
        rcases List.mem_cons.mp hx with rfl | hm
        · exact hz
        · by_contra hxz
          rw [Bool.not_eq_false] at hxz
          have hle := (List.pairwise_cons.mp hq.sorted).1 x hm
          simp [hq.zero_of_le List.mem_cons_self hx hle hxz] at hz

/-! Checks in progress. -/

/-- A check goes on behind a called handler, or from where no later handler is due. -/
def Rests (q : List (Handler D)) (f : Check) : Prop :=
  ∃ h ∈ q, f.handler = some h.address ∧ (h.when.isZero ∨ f.now.microseconds ≤ h.when.microseconds)

/-- Everything in front of the loop's handler has been called, or the loop is about to end. -/
def Arrives (q : List (Handler D)) (f : Check) : Prop :=
  ∀ a ∈ f.handler, ∃ front h back, q = front ++ h :: back ∧ h.address = a ∧
    ((∀ x ∈ front, x.when.isZero) ∨ f.now.microseconds ≤ h.when.microseconds)

structure Placed (q : List (Handler D)) (f : Check) : Prop where
  reading : f.now.reading
  rests : f.calling → Rests q f
  arrives : f.calling = false → Arrives q f

structure Inv (s : State D) : Prop where
  queue : QueueInv s.queue
  checks : ∀ f ∈ s.checks, Placed s.queue f
  calling : ∀ f ∈ s.checks.tail, f.calling
  idle : s.checks = [] → ∀ h ∈ s.queue, h.when.isZero = false

variable {s t : State D} {f : Check}

omit [DecidableEq D] in
lemma Inv.all_calling (hs : Inv s) (hc : control s.checks) : ∀ f ∈ s.checks, f.calling := by
  intro f hf
  cases hchecks : s.checks with
  | nil => simp [hchecks] at hf
  | cons g checks =>
    have htail := hs.calling
    rw [hchecks] at hf htail
    rcases List.mem_cons.mp hf with rfl | hf
    · simpa [control, hchecks] using hc
    · exact htail f hf

omit [DecidableEq D] in
lemma Placed.mono (hp : Placed q f) (hc : f.calling) (h : ∀ h ∈ q, f.handler = some h.address →
    (h.when.isZero ∨ f.now.microseconds ≤ h.when.microseconds) →
      ∃ h' ∈ q', h'.address = h.address ∧ (h'.when.isZero ∨ f.now.microseconds ≤ h'.when.microseconds)) :
    Placed q' f where
  reading := hp.reading
  rests _ := by
    obtain ⟨x, hx, hhandler, hplace⟩ := hp.rests hc
    obtain ⟨x', hx', ha, hplace'⟩ := h x hx hhandler hplace
    exact ⟨x', hx', by rw [hhandler, ha], hplace'⟩
  arrives hn := by simp [hc] at hn

omit [DecidableEq D] in
lemma change_split {front back : List (Handler D)} (hq : QueueInv (front ++ h :: back)) (g : Handler D → Handler D) :
    change h.address g (front ++ h :: back) = front ++ g h :: back := by
  have hn := hq.distinct
  rw [List.map_append, List.map_cons] at hn
  obtain ⟨-, hback, hdis⟩ := List.nodup_append'.mp hn
  have hsame : ∀ l : List (Handler D), (∀ x ∈ l, x.address ≠ h.address) → change h.address g l = l := by
    intro l hl
    rw [change]
    conv_rhs => rw [← List.map_id l]
    exact List.map_congr_left fun x hx => if_neg (hl x hx)
  have hfront : change h.address g front = front := hsame front fun x hx heq =>
    hdis (List.mem_map.mpr ⟨x, hx, heq⟩) List.mem_cons_self
  have hrest : change h.address g back = back := hsame back fun x hx heq =>
    (List.nodup_cons.mp hback).1 (List.mem_map.mpr ⟨x, hx, heq⟩)
  rw [change] at hfront hrest ⊢
  rw [List.map_append, List.map_cons, hfront, hrest, if_pos rfl]

omit [DecidableEq D] in
lemma QueueInv.replace {front back : List (Handler D)} (hq : QueueInv (front ++ h :: back)) {h' : Handler D}
    (hh' : HandlerInv h') (ha : h'.address = h.address)
    (hfront : ∀ x ∈ front, x.when.microseconds ≤ h'.when.microseconds)
    (hback : ∀ x ∈ back, h'.when.microseconds ≤ x.when.microseconds) : QueueInv (front ++ h' :: back) where
  handlers x hx := by
    rcases List.mem_append.mp hx with hx | hx
    · exact hq.handlers x (List.mem_append_left _ hx)
    · rcases List.mem_cons.mp hx with rfl | hx
      · exact hh'
      · exact hq.handlers x (List.mem_append_right _ (List.mem_cons_of_mem h hx))
  sorted := by
    obtain ⟨hf, hb, hfb⟩ := List.pairwise_append.mp hq.sorted
    refine List.pairwise_append.mpr ⟨hf, List.pairwise_cons.mpr ⟨hback, (List.pairwise_cons.mp hb).2⟩, fun x hx y hy => ?_⟩
    rcases List.mem_cons.mp hy with rfl | hy
    · exact hfront x hx
    · exact hfb x hx y (List.mem_cons_of_mem h hy)
  distinct := by
    have hd := hq.distinct
    rw [List.map_append, List.map_cons] at hd ⊢
    rwa [ha]

omit [DecidableEq D] in
lemma dismiss_inv (hq : QueueInv q) (hh : h ∈ q) : QueueInv (dismiss h q) := by
  rw [dismiss]
  split
  next hz =>
    obtain ⟨front, back, rfl⟩ := List.append_of_mem hh
    rw [change_split hq]
    have hold := hq.handlers h hh
    obtain ⟨-, hb, hfb⟩ := List.pairwise_append.mp hq.sorted
    refine hq.replace ⟨hold.normal, fun hn => ?_, fun hp => ⟨(hold.once hp).1, rfl⟩, ⟨le_rfl, by simp⟩, fun _ => rfl⟩ rfl
      (fun x hx => hfb x hx h List.mem_cons_self) (List.pairwise_cons.mp hb).1
    simp [hz] at hn
  next => exact hq.sublist List.filter_sublist

omit [DecidableEq D] in
lemma mem_dismiss {x : Handler D} (hx : x ∈ q) (hne : h.when.isZero ∨ x.address ≠ h.address) :
    ∃ x' ∈ dismiss h q, x'.address = x.address ∧ x'.when = x.when := by
  rw [dismiss]
  split
  next =>
    refine ⟨_, List.mem_map.mpr ⟨x, hx, rfl⟩, ?_, ?_⟩
    all_goals split <;> rfl
  next hz =>
    exact ⟨x, List.mem_filter.mpr ⟨hx, by simpa using hne.resolve_left hz⟩, rfl, rfl⟩

omit [DecidableEq D] in
lemma of_mem_dismiss {x : Handler D} (hx : x ∈ dismiss h q) :
    (x.address = h.address → x.deleted) ∧ ∃ y ∈ q, y.when = x.when := by
  rw [dismiss] at hx
  split at hx
  next =>
    obtain ⟨y, hy, rfl⟩ := List.mem_map.mp hx
    refine ⟨?_, y, hy, ?_⟩
    · split
      · exact fun _ => rfl
      · exact fun ha => absurd ha ‹_›
    · split <;> rfl
  next =>
    obtain ⟨hx, hne⟩ := List.mem_filter.mp hx
    exact ⟨fun ha => absurd ha (by simpa using hne), x, hx, rfl⟩

/-! Steps. -/

lemma target_mem {e : Event D} (ht : h ∈ target s e) : h ∈ s.queue := by
  cases e with
  | deleteWithClientData clientData =>
    rw [target, Option.mem_ite_none_left] at ht
    exact List.mem_of_find?_eq_some ht.2
  | delete handlerID =>
    cases handlerID with
    | none => cases ht
    | some a => exact List.mem_of_find?_eq_some ht
  | _ => cases ht

omit [DecidableEq D] in
lemma sweep_inv (hs : Inv s) {checks : List Check} (hchecks : s.checks = f :: checks)
    (hu : ∀ g ∈ checks, ∀ a ∈ g.handler, ∀ h ∈ find a s.queue, h.when.isZero →
      0 < h.nextDelay ∧ g.now.isAfter (f.now.addmillisecs h.nextDelay) = false) :
    Inv (⟨sweep f.now s.queue.length s.queue, checks⟩ : State D) := by
  have hplaced := hs.checks
  have hcalling := hs.calling
  rw [hchecks] at hplaced hcalling
  have hnow := (hplaced f List.mem_cons_self).reading
  have hswept := sweep_swept hnow hs.queue List.countP_le_length
  refine ⟨hswept.inv, fun g hg => ?_, fun g hg => hcalling g (List.mem_of_mem_tail hg), fun _ => hswept.waiting⟩
  have hgp := hplaced g (List.mem_cons_of_mem f hg)
  refine hgp.mono (hcalling g hg) fun h hh hhandler hplace => ?_
  cases hz : h.when.isZero with
  | false => exact ⟨h, hswept.kept h hh hz, rfl, by simpa [hz] using hplace⟩
  | true =>
    obtain ⟨hdelay, hafter⟩ := hu g hg h.address hhandler h ((find_eq_some hs.queue).mpr ⟨hh, rfl⟩) hz
    have hinv := (again_inv (hs.queue.handlers h hh) hnow hdelay).1
    exact ⟨again f.now h, hswept.back h hh hz hdelay, rfl,
      .inr ((not_isAfter_iff (normal_of_reading hgp.reading).1 hinv.normal).mp hafter)⟩

omit [DecidableEq D] in
lemma next_split {front back : List (Handler D)} (hq : QueueInv (front ++ h :: back)) :
    next h.address (front ++ h :: back) = some (back.head?.map fun h => h.address) := by
  have hn := hq.distinct
  rw [List.map_append, List.map_cons] at hn
  have hdis := (List.nodup_append'.mp hn).2.2
  have hfront : ∀ x ∈ front, decide (x.address ≠ h.address) = true := fun x hx =>
    decide_eq_true fun heq => hdis (List.mem_map.mpr ⟨x, hx, heq⟩) List.mem_cons_self
  rw [next, List.dropWhile_append_of_pos hfront, List.dropWhile_cons_of_neg (by simp)]

omit [DecidableEq D] in
lemma arrives_next {front back : List (Handler D)} (hq : QueueInv (front ++ h :: back))
    (hplace : h.when.isZero ∨ f.now.microseconds ≤ h.when.microseconds)
    (hhandler : f.handler = back.head?.map fun h => h.address) : Arrives (front ++ h :: back) f := by
  intro a ha
  cases back with
  | nil => simp [hhandler] at ha
  | cons x back =>
    rw [hhandler] at ha
    refine ⟨front ++ [h], x, back, by simp, Option.some.inj ha, ?_⟩
    obtain ⟨-, hback, hall⟩ := List.pairwise_append.mp hq.sorted
    have hx : h.when.microseconds ≤ x.when.microseconds := (List.pairwise_cons.mp hback).1 x List.mem_cons_self
    rcases hplace with hz | hle
    · refine .inl fun y hy => ?_
      rcases List.mem_append.mp hy with hy | hy
      · exact hq.zero_of_le (List.mem_append_left _ hy) (by simp) (hall y hy h List.mem_cons_self) hz
      · rwa [List.mem_singleton.mp hy]
    · exact .inr (hle.trans hx)

omit [DecidableEq D] in
lemma inv_of_top (hs : Inv s) {checks : List Check} (hchecks : s.checks = f :: checks) {f' : Check}
    (hf' : Placed s.queue f') : Inv (⟨s.queue, f' :: checks⟩ : State D) := by
  have hplaced := hs.checks
  have hcalling := hs.calling
  rw [hchecks] at hplaced hcalling
  exact ⟨hs.queue, List.forall_mem_cons.mpr ⟨hf', fun g hg => hplaced g (List.mem_cons_of_mem f hg)⟩, hcalling,
    fun hnil => by cases hnil⟩

omit [DecidableEq D] in
lemma call_inv {front back : List (Handler D)} (hs : Inv s) {checks : List Check} (hchecks : s.checks = f :: checks)
    (hqueue : s.queue = front ++ h :: back) (hwaiting : h.when.isZero = false) (hfront : ∀ x ∈ front, x.when.isZero) :
    Inv (⟨change h.address (fun h => { h with when := Timeval.zero, calls := h.calls + 1 }) s.queue,
      { f with handler := some h.address, calling := true } :: checks⟩ : State D) := by
  have hq := hs.queue
  have hplaced := hs.checks
  have hcalling := hs.calling
  rw [hchecks] at hplaced hcalling
  rw [hqueue] at hq hplaced ⊢
  set h' : Handler D := { h with when := Timeval.zero, calls := h.calls + 1 } with hh'
  have hold := hq.handlers h (by simp)
  have hinv : HandlerInv h' := by
    refine ⟨normal_zero, fun hz => by simp [hh', Timeval.isZero, Timeval.zero] at hz, fun hp => ?_, hold.delay, hold.deleted⟩
    have := (hold.waiting hwaiting).2.2 hp
    exact ⟨by simp [hh', this], (hold.once hp).2⟩
  have hzero : h'.when.isZero := by simp [hh', Timeval.isZero, Timeval.zero]
  have hmem : h' ∈ front ++ h' :: back := List.mem_append_right _ List.mem_cons_self
  rw [change_split hq]
  have hq' : QueueInv (front ++ h' :: back) := by
    refine hq.replace hinv rfl (fun x hx => ?_) fun x hx => ?_
    · have hx' : x ∈ front ++ h :: back := List.mem_append_left _ hx
      rw [(isZero_iff (hq.handlers x hx').normal).mp (hfront x hx)]
      exact hinv.normal.nonneg
    · have hx' : x ∈ front ++ h :: back := List.mem_append_right _ (List.mem_cons_of_mem h hx)
      rw [(isZero_iff hinv.normal).mp hzero]
      exact (hq.handlers x hx').normal.nonneg
  refine ⟨hq', List.forall_mem_cons.mpr ⟨⟨(hplaced f List.mem_cons_self).reading, ?_, by simp⟩, fun g hg => ?_⟩, hcalling,
    fun hnil => by cases hnil⟩
  · exact fun _ => ⟨h', hmem, rfl, .inl hzero⟩
  · refine (hplaced g (List.mem_cons_of_mem f hg)).mono (hcalling g hg) fun x hx _ hplace => ?_
    rcases List.mem_append.mp hx with hx | hx
    · exact ⟨x, by simp [hx], rfl, hplace⟩
    · rcases List.mem_cons.mp hx with rfl | hx
      · exact ⟨h', hmem, rfl, .inl hzero⟩
      · exact ⟨x, by simp [hx], rfl, hplace⟩

lemma dismiss_keeps (hs : Inv s) (hc : control s.checks) {e : Event D} (ht : target s e = some h)
    (hu : h.when.isZero ∨ ∀ f ∈ s.checks, f.handler ≠ some h.address) :
    Inv { s with queue := dismiss h s.queue } ∧ ∀ h₀ ∈ target s e, ∀ x ∈ dismiss h s.queue, x.address = h₀.address → x.deleted := by
  have hh := target_mem (e := e) ht
  refine ⟨⟨dismiss_inv hs.queue hh, fun f hf => ?_, hs.calling, fun hnil x hx => ?_⟩, fun h₀ hh₀ x hx ha => ?_⟩
  · refine (hs.checks f hf).mono (hs.all_calling hc f hf) fun x hx hhandler hplace => ?_
    obtain ⟨x', hx', ha, hwhen⟩ := mem_dismiss hx (h := h) (hu.imp_right fun hne heq => hne f hf (by rw [hhandler, heq]))
    exact ⟨x', hx', ha, by rwa [hwhen]⟩
  · obtain ⟨-, y, hy, hwhen⟩ := of_mem_dismiss hx
    rw [← hwhen]
    exact hs.idle hnil y hy
  · obtain rfl : h = h₀ := by rwa [ht, Option.mem_some_iff] at hh₀
    exact (of_mem_dismiss hx).1 ha

omit [DecidableEq D] in
lemma add_inv (hs : Inv s) (hc : control s.checks) {a : ℕ} {milliseconds : ℤ} {persistent : Bool} {clientData : Option D}
    {reading : Timeval} (hms : 0 ≤ milliseconds) (hu : milliseconds * 1000 < 2 ^ 31) (hr : reading.reading)
    (ha : find a s.queue = none) :
    Inv { s with queue := addTimerHandler a milliseconds persistent clientData reading s.queue } := by
  obtain ⟨hn, hpos⟩ := normal_of_reading hr
  obtain ⟨hnormal, hmicro⟩ := addmillisecs_spec hn hms hu
  set nextDelay := if persistent then milliseconds else 0 with hdelay
  set h : Handler D := ⟨⟨a, reading.addmillisecs milliseconds, clientData, nextDelay⟩,
    reading.microseconds + milliseconds * 1000, 0 < nextDelay, 0, false⟩ with hh
  have hzero : h.when.isZero = false := by
    rw [not_isZero_iff hnormal]
    change 0 < (reading.addmillisecs milliseconds).microseconds
    omega
  have hbound : 0 ≤ nextDelay ∧ nextDelay * 1000 < 2 ^ 31 := by
    rw [hdelay]
    split
    · exact ⟨hms, hu⟩
    · exact ⟨le_rfl, by simp⟩
  have hinv : HandlerInv h := by
    refine ⟨hnormal, fun _ => ⟨hmicro.symm, rfl, fun _ => rfl⟩, fun hp => ⟨Nat.zero_le _, ?_⟩, hbound, fun hd => by cases hd⟩
    have hp' : ¬ 0 < nextDelay := of_decide_eq_false hp
    exact le_antisymm (not_lt.mp hp') hbound.1
  have hfresh : ∀ x ∈ s.queue, x.address ≠ h.address := fun x hx => by
    simpa using List.find?_eq_none.mp ha x hx
  have hmem : ∀ x, x ∈ enqueueTimerHandler h s.queue ↔ x = h ∨ x ∈ s.queue := fun x => by
    rw [(perm_enqueue h s.queue).mem_iff, List.mem_cons]
  refine ⟨enqueue_inv hs.queue hinv hfresh, fun f hf => ?_, hs.calling, fun hnil x hx => ?_⟩
  · exact (hs.checks f hf).mono (hs.all_calling hc f hf) fun x hx _ hplace => ⟨x, (hmem x).mpr (.inr hx), rfl, hplace⟩
  · rcases (hmem x).mp hx with rfl | hx
    · exact hzero
    · exact hs.idle hnil x hx

omit [DecidableEq D] in
lemma check_inv (hs : Inv s) (hc : control s.checks) {reading : Timeval} (hr : reading.reading) (hq : s.queue ≠ []) :
    Inv { s with checks := ⟨reading, s.queue.head?.map fun h => h.address, false⟩ :: s.checks } := by
  refine ⟨hs.queue, List.forall_mem_cons.mpr ⟨⟨hr, by simp, fun _ a ha => ?_⟩, hs.checks⟩, hs.all_calling hc,
    fun hnil => by cases hnil⟩
  obtain ⟨h, q, hcons⟩ := List.exists_cons_of_ne_nil hq
  rw [hcons] at ha ⊢
  exact ⟨[], h, q, rfl, by simpa using ha, .inl (by simp)⟩

lemma resume_inv (hs : Inv s) (hne : s.checks ≠ []) (hu : Undisturbed s .resume) : Ensures (resume s.queue s.checks) Inv := by
  cases hchecks : s.checks with
  | nil => exact absurd hchecks hne
  | cons f checks =>
    have hf := hs.checks f (by simp [hchecks])
    have hends : f.ends s.queue → Inv (⟨sweep f.now s.queue.length s.queue, checks⟩ : State D) := by
      intro he
      refine sweep_inv hs hchecks ?_
      have hu' := hu f (by simp [hchecks]) he
      rwa [hchecks] at hu'
    cases hhandler : f.handler with
    | none =>
      have hcalling : f.calling = false := by
        by_contra hc
        obtain ⟨h, -, hh, -⟩ := hf.rests (by simpa using hc)
        rw [hhandler] at hh
        cases hh
      simp only [resume, hhandler]
      exact ensures_some (hends (by simp [Check.ends, Check.dueHandler, hcalling, hhandler]))
    | some a =>
      cases hcalling : f.calling with
      | true =>
        obtain ⟨h, hh, hha, hplace⟩ := hf.rests hcalling
        obtain rfl : a = h.address := by rwa [hhandler, Option.some.injEq] at hha
        obtain ⟨front, back, hqueue⟩ := List.append_of_mem hh
        have hq := hs.queue
        rw [hqueue] at hq
        have hnext := next_split hq
        rw [← hqueue] at hnext
        simp only [resume, hhandler, hcalling, hnext]
        refine ensures_some (inv_of_top hs hchecks ⟨hf.reading, by simp, fun _ => ?_⟩)
        rw [hqueue]
        exact arrives_next hq hplace rfl
      | false =>
        obtain ⟨front, h, back, hqueue, rfl, hplace⟩ := hf.arrives hcalling a hhandler
        have hmem : h ∈ s.queue := by simp [hqueue]
        have hfind : find h.address s.queue = some h := (find_eq_some hs.queue).mpr ⟨hmem, rfl⟩
        have hnormal := (hs.queue.handlers h hmem).normal
        simp only [resume, hhandler, hcalling, hfind]
        cases hafter : f.now.isAfter h.when with
        | false =>
          simp only [Option.bind_eq_bind, Option.bind_some, hafter, Bool.false_eq_true, if_false]
          exact ensures_some (hends (by simp [Check.ends, Check.dueHandler, hcalling, hhandler, hfind, Option.filter, hafter]))
        | true =>
          cases hz : h.when.isZero with
          | true =>
            have hq := hs.queue
            rw [hqueue] at hq
            have hnext := next_split hq
            rw [← hqueue] at hnext
            simp only [Option.bind_eq_bind, Option.bind_some, hafter, hz, if_true, hnext]
            refine ensures_some (inv_of_top hs hchecks ⟨hf.reading, by simp, fun _ => ?_⟩)
            rw [hqueue]
            exact arrives_next hq (.inl hz) rfl
          | false =>
            have hlt := (isAfter_iff (normal_of_reading hf.reading).1 hnormal).mp hafter
            have hfront := hplace.resolve_right hlt.not_ge
            simp only [Option.bind_eq_bind, Option.bind_some, hafter, hz, if_true, Bool.false_eq_true, if_false]
            exact ensures_some (call_inv hs hchecks hqueue hz hfront)

lemma timely (hs : Inv s) : ∀ f ∈ s.checks.head?, ∀ h ∈ f.callee s.queue,
    h.due < f.now.microseconds ∧ h.deleted = false ∧ (h.persistent = false → h.calls = 0) := by
  intro f hf h hh
  rw [Check.callee, Option.mem_ite_none_left] at hh
  obtain ⟨hh, hz⟩ := Option.mem_filter_iff.mp hh.2
  obtain ⟨hh, hafter⟩ := Option.mem_filter_iff.mp hh
  obtain ⟨a, -, hfind⟩ := Option.bind_eq_some_iff.mp hh
  have hinv := hs.queue.handlers h (List.mem_of_find?_eq_some hfind)
  have hnow := (hs.checks f (List.mem_of_head? hf)).reading
  obtain ⟨hdue, hdeleted, hcalls⟩ := hinv.waiting (by simpa using hz)
  refine ⟨?_, hdeleted, hcalls⟩
  rw [hdue]
  exact (isAfter_iff (normal_of_reading hnow).1 hinv.normal).mp hafter

lemma keeps_of_inv (hs : Inv s) (ht : Inv t) {e : Event D}
    (hdeleted : ∀ h ∈ target s e, ∀ h' ∈ t.queue, h'.address = h.address → h'.deleted) : Keeps s e t where
  sorted := by
    refine ht.queue.sorted.imp_of_mem fun {h h'} hh hh' hle => ?_
    exact (not_isAfter_iff (ht.queue.handlers h hh).normal (ht.queue.handlers h' hh').normal).mpr hle
  distinct := ht.queue.distinct
  timely _ := timely hs
  once h hh hp := ((ht.queue.handlers h hh).once hp).1
  freed hnil h hh := ⟨ht.idle hnil h hh, ((ht.queue.handlers h hh).waiting (ht.idle hnil h hh)).2.2⟩
  deleted := hdeleted

lemma step_keeps (hs : Inv s) {e : Event D} (h : possible s e ∧ Undisturbed s e) :
    Ensures (step s e) fun t => Inv t ∧ Keeps s e t := by
  obtain ⟨hp, hu⟩ := h
  cases e with
  | add address milliseconds persistent clientData reading =>
    simp only [possible, Bool.and_eq_true, decide_eq_true_eq] at hp
    obtain ⟨⟨⟨hc, hms⟩, hr⟩, ha⟩ := hp
    cases address with
    | none => exact ensures_some ⟨hs, keeps_of_inv hs hs fun h hh => by cases hh⟩
    | some a =>
      have hinv : Inv { s with queue := addTimerHandler a milliseconds persistent clientData reading s.queue } :=
        add_inv hs hc hms.1 hu hr (Option.isNone_iff_eq_none.mp ha)
      exact ensures_some ⟨hinv, keeps_of_inv hs hinv fun h hh => by cases hh⟩
  | deleteWithClientData clientData =>
    cases htarget : target s (.deleteWithClientData clientData) with
    | none =>
      have hsame : deleteTimerWithClientData clientData s.queue = s.queue := by
        rw [deleteTimerWithClientData]
        split
        · rfl
        next hne =>
          rw [target, if_neg hne] at htarget
          rw [htarget]
      rw [step, hsame]
      exact ensures_some ⟨hs, keeps_of_inv hs hs fun h hh => by rw [htarget] at hh; cases hh⟩
    | some h =>
      have hdismiss : deleteTimerWithClientData clientData s.queue = dismiss h s.queue := by
        rw [deleteTimerWithClientData]
        rw [target] at htarget
        split
        next hnone => simp [hnone] at htarget
        next hne =>
          rw [if_neg hne] at htarget
          rw [htarget]
      obtain ⟨hinv, hdeleted⟩ := dismiss_keeps hs hp htarget (hu h htarget)
      rw [step, hdismiss]
      exact ensures_some ⟨hinv, keeps_of_inv hs hinv hdeleted⟩
  | delete handlerID =>
    cases handlerID with
    | none => exact ensures_some ⟨hs, keeps_of_inv hs hs fun h hh => by cases hh⟩
    | some a =>
      obtain ⟨hthere, hu⟩ := hu
      cases hqueue : s.queue with
      | nil =>
        have htarget : target s (.delete (some a)) = none := by simp [target, find, hqueue]
        have hstep : step s (.delete (some a)) = some s := by
          simp only [step, hqueue, deleteTimerHandler, Option.map_some]
          cases s
          simp_all
        rw [hstep]
        exact ensures_some ⟨hs, keeps_of_inv hs hs fun h hh => by rw [htarget] at hh; cases hh⟩
      | cons x q =>
        obtain ⟨h, hfind⟩ := Option.isSome_iff_exists.mp (hthere.resolve_left (by simp [hqueue]) a rfl)
        obtain ⟨hinv, hdeleted⟩ := dismiss_keeps hs hp (e := .delete (some a)) hfind (hu h hfind)
        have hstep : step s (.delete (some a)) = some { s with queue := dismiss h s.queue } := by
          rw [hqueue] at hfind
          simp only [step, hqueue, deleteTimerHandler, hfind, Option.map_some]
        rw [hstep]
        exact ensures_some ⟨hinv, keeps_of_inv hs hinv hdeleted⟩
  | check reading =>
    simp only [possible, Bool.and_eq_true] at hp
    rw [step]
    split
    · exact ensures_some ⟨hs, keeps_of_inv hs hs fun h hh => by cases hh⟩
    next hne =>
      have hinv := check_inv hs hp.1 hp.2 hne
      exact ensures_some ⟨hinv, keeps_of_inv hs hinv fun h hh => by cases hh⟩
  | resume =>
    have hne : s.checks ≠ [] := by simpa [possible] using hp
    refine (resume_inv hs hne hu).imp fun t ht => ⟨ht, keeps_of_inv hs ht fun h hh => by cases hh⟩

omit [DecidableEq D] in
lemma initial_inv : Inv (initial : State D) :=
  ⟨⟨by simp [initial], List.Pairwise.nil, List.nodup_nil⟩, by simp [initial], by simp [initial], by simp [initial]⟩

/-- A run of additions, deletions and checks in which no check loses the handler that it is calling goes through
without reading a freed handler, and each of its steps keeps what the queue promises. -/
theorem run_keeps (es : List (Event D)) (h : Admits step (fun s e => possible s e ∧ Undisturbed s e) (initial : State D) es) :
    Completes step Keeps (initial : State D) es :=
  completes (fun _ _ hs hc => step_keeps hs hc) initial_inv h

/-- A persistent timer's callback deletes another timer and checks the queue again. -/
def persistentCheck : List (Event ℕ) :=
  [.add (some 0) 5 true none ⟨1000, 0⟩, .add (some 1) 10 false none ⟨1000, 0⟩, .check ⟨1000, 7000⟩, .resume,
    .delete (some 1), .check ⟨1000, 7500⟩, .resume, .resume, .resume, .resume]

theorem run_keeps_persistentCheck : Completes step Keeps (initial : State ℕ) persistentCheck :=
  run_keeps persistentCheck (by decide)

/-- A timer's callback checks the queue again, which frees the timer. -/
def nestedCheck : List (Event ℕ) :=
  [.add (some 0) 5 false none ⟨1000, 0⟩, .check ⟨1000, 7000⟩, .resume, .check ⟨1000, 7500⟩, .resume, .resume, .resume]

/-- A timer of fifty minutes is called at the next check. -/
def longTimer : List (Event ℕ) := [.add (some 0) 3000000 false none ⟨1000, 0⟩, .check ⟨1000, 7000⟩, .resume]

theorem nested_not_kept : Admits step (fun s e => possible s e) (initial : State ℕ) nestedCheck ∧
    ¬ Completes step Keeps (initial : State ℕ) nestedCheck ∧
    Admits step (fun s e => possible s e) (initial : State ℕ) longTimer ∧
    ¬ Completes step Keeps (initial : State ℕ) longTimer := by
  refine ⟨by decide, ?_, by decide, ?_⟩
  · rintro ⟨t, ht, -, h⟩
    obtain rfl := Option.some.inj ht
    obtain ⟨t, ht, -, h⟩ := h
    obtain rfl := Option.some.inj ht
    obtain ⟨t, ht, -, h⟩ := h
    obtain rfl := Option.some.inj ht
    obtain ⟨t, ht, -, h⟩ := h
    obtain rfl := Option.some.inj ht
    obtain ⟨t, ht, -, h⟩ := h
    obtain rfl := Option.some.inj ht
    obtain ⟨t, ht, -, h⟩ := h
    obtain rfl := Option.some.inj ht
    obtain ⟨t, ht, -⟩ := h
    cases ht
  · rintro ⟨t, ht, -, h⟩
    obtain rfl := Option.some.inj ht
    obtain ⟨t, ht, -, h⟩ := h
    obtain rfl := Option.some.inj ht
    obtain ⟨t, ht, hkeeps, -⟩ := h
    have hcalled := hkeeps.timely rfl _ rfl _ rfl
    revert hcalled
    decide

end Xperimentum.WMcore.Timers
