import Xperimentum.Lib.LinkedLists
import Xperimentum.WMcore.Observers

/-! What adding and removing observers does to the lists of a notification center. -/

namespace Xperimentum.WMcore.Observers

open Lib.LinkedLists Lib.Partial

variable {A P N S : Type}

section Records

abbrev Records (A P N : Type) := Address → Option (NotificationObserver A P N)

variable (record : Records A P N)

def next (a : Address) : Option Address := (record a).bind fun r => r.next

def prev (a : Address) : Option Address := (record a).bind fun r => r.prev

/-- What the lists' links leave unchanged. -/
def view (a : Address) : Option (Registration A P N × Option Address) :=
  (record a).map fun r => (r.toRegistration, r.nextAction)

def nextAction (a : Address) : Option Address := (view record a).bind fun r => r.2

def registered (a : Address) : Option (Registration A P N) := (view record a).map fun r => r.1

variable {record} {a : Address} {r : NotificationObserver A P N} {p : Option Address}

lemma view_isSome : (view record a).isSome = (record a).isSome := by simp [view]

lemma registered_of_record (h : record a = some r) : registered record a = some r.toRegistration := by
  simp [registered, view, h]

lemma record_of_registered {g : Registration A P N} (h : registered record a = some g) :
    ∃ r, record a = some r ∧ r.toRegistration = g := by
  rw [registered, view, Option.map_map] at h
  exact Option.map_eq_some_iff.mp h

end Records

variable [DecidableEq P] [DecidableEq S] (string : N → S)

/-- The lists of the tables, with the registered addresses in their order. -/
structure Listed (c : NotificationCenter A P N S) (L : Slot P S → List Address) : Prop where
  segment : ∀ k, Segment (next c.record) (prev c.record) none (L k) none
  heads : ∀ k, c.head k = (L k).head?
  mem : ∀ k a, a ∈ L k ↔ ∃ r, registered c.record a = some r ∧ r.slot string = k
  nodup : ∀ k, (L k).Nodup

section Writes

variable {c : NotificationCenter A P N S} {p : Option Address}

lemma write_next (h : ∀ a ∈ p, (c.record a).isSome) (target : Option Address) :
    ∃ record, c.write p (fun rec => { rec with next := target }) = some { c with record := record } ∧
      next record = relink (next c.record) p target ∧ prev record = prev c.record ∧ view record = view c.record := by
  cases p with
  | none => exact ⟨c.record, rfl, (relink_none _ _).symm, rfl, rfl⟩
  | some a =>
    obtain ⟨r, hr⟩ := Option.isSome_iff_exists.mp (h a rfl)
    refine ⟨_, by rw [NotificationCenter.write, hr]; rfl, ?_, ?_, ?_⟩
    all_goals funext x
    all_goals rcases eq_or_ne a x with rfl | hx
    all_goals simp [next, prev, view, relink, hr, *, Ne.symm]

lemma write_prev (h : ∀ a ∈ p, (c.record a).isSome) (target : Option Address) :
    ∃ record, c.write p (fun rec => { rec with prev := target }) = some { c with record := record } ∧
      next record = next c.record ∧ prev record = relink (prev c.record) p target ∧ view record = view c.record := by
  cases p with
  | none => exact ⟨c.record, rfl, rfl, (relink_none _ _).symm, rfl⟩
  | some a =>
    obtain ⟨r, hr⟩ := Option.isSome_iff_exists.mp (h a rfl)
    refine ⟨_, by rw [NotificationCenter.write, hr]; rfl, ?_, ?_, ?_⟩
    all_goals funext x
    all_goals rcases eq_or_ne a x with rfl | hx
    all_goals simp [next, prev, view, relink, hr, *, Ne.symm]

lemma write_nextAction {a : Address} (h : (c.record a).isSome) (target : Option Address) :
    ∃ record, c.write (some a) (fun rec => { rec with nextAction := target }) = some { c with record := record } ∧
      next record = next c.record ∧ prev record = prev c.record ∧ registered record = registered c.record ∧
      nextAction record = relink (nextAction c.record) (some a) target := by
  obtain ⟨r, hr⟩ := Option.isSome_iff_exists.mp h
  refine ⟨_, by rw [NotificationCenter.write, hr]; rfl, ?_, ?_, ?_, ?_⟩
  all_goals funext x
  all_goals rcases eq_or_ne a x with rfl | hx
  all_goals simp [next, prev, view, registered, nextAction, relink, hr, *, Ne.symm]

lemma head_setHead (k k' : Slot P S) (a : Option Address) :
    (c.setHead k a).head k' = if k' = k then a else c.head k' := by
  cases k <;> cases k' <;> simp [NotificationCenter.setHead, NotificationCenter.head, Function.update_apply]

@[simp] lemma setHead_record (k : Slot P S) (a : Option Address) : (c.setHead k a).record = c.record := by
  cases k <;> rfl

@[simp] lemma setHead_observerTable (k : Slot P S) (a : Option Address) :
    (c.setHead k a).observerTable = c.observerTable := by
  cases k <;> rfl

@[simp] lemma setHead_registrations (k : Slot P S) (a : Option Address) :
    (c.setHead k a).registrations = c.registrations := by
  cases k <;> rfl

end Writes

variable {string} {c : NotificationCenter A P N S} {L : Slot P S → List Address}

omit [DecidableEq P] [DecidableEq S] in
lemma Listed.isSome (h : Listed string c L) {k : Slot P S} {a : Address} (ha : a ∈ L k) : (c.record a).isSome := by
  obtain ⟨r, hr, -⟩ := (h.mem k a).mp ha
  obtain ⟨r', hr', -⟩ := record_of_registered hr
  simp [hr']

lemma Listed.mem_own (h : Listed string c L) {a : Address} {r : NotificationObserver A P N}
    (hr : c.record a = some r) : a ∈ L (r.slot string) :=
  (h.mem _ a).mpr ⟨r.toRegistration, registered_of_record hr, rfl⟩

lemma Listed.only_own (h : Listed string c L) {a : Address} {r : NotificationObserver A P N}
    (hr : c.record a = some r) {k : Slot P S} (ha : a ∈ L k) : k = r.slot string := by
  obtain ⟨g, hg, hk⟩ := (h.mem k a).mp ha
  rw [registered_of_record hr, Option.some.injEq] at hg
  rw [← hk, ← hg]

lemma filter_ne_of_not_mem {l : List Address} {a : Address} (h : a ∉ l) : l.filter (· ≠ a) = l := by
  rw [List.filter_eq_self]
  intro b hb
  rw [decide_eq_true_eq]
  rintro rfl
  exact h hb

lemma filter_ne_split {l m : List Address} {a : Address} (hn : (l ++ a :: m).Nodup) :
    (l ++ a :: m).filter (· ≠ a) = l ++ m := by
  obtain ⟨-, hm, hdis⟩ := List.nodup_append'.mp hn
  have hl : a ∉ l := fun hl => hdis hl List.mem_cons_self
  rw [List.filter_append, filter_ne_of_not_mem hl, List.filter_cons_of_neg (by simp),
    filter_ne_of_not_mem (List.nodup_cons.mp hm).1]

lemma head_filter_ne {l : List Address} {a : Address} (hn : l.Nodup) {n : Option Address}
    (hnext : ∀ front back, l = front ++ a :: back → n = back.head?) :
    (l.filter (· ≠ a)).head? = if l.head? = some a then n else l.head? := by
  cases l with
  | nil => simp
  | cons x l =>
    by_cases hx : x = a
    · subst hx
      rw [List.filter_cons_of_neg (by simp), filter_ne_of_not_mem (List.nodup_cons.mp hn).1]
      simpa using (hnext [] l rfl).symm
    · simp [hx]

lemma unlink_listed (h : Listed string c L) {a : Address} {r : NotificationObserver A P N}
    (hr : c.record a = some r) : ∃ c', c.unlink string a r = some c' ∧
      Listed string c' (fun k => (L k).filter (· ≠ a)) ∧ view c'.record = Function.update (view c.record) a none ∧
      c'.observerTable = c.observerTable ∧ c'.registrations = c.registrations := by
  have hmem := h.mem_own hr
  have hown := fun k => h.only_own (k := k) hr
  generalize hk : r.slot string = k at hmem hown
  have hnexta : next c.record a = r.next := by simp [next, hr]
  have hpreva : prev c.record a = r.prev := by simp [prev, hr]
  set c₁ := if c.head k = some a then c.setHead k r.next else c with hc₁
  have hrecord₁ : c₁.record = c.record := by
    rw [hc₁]
    split <;> simp
  have hprevs : ∀ b ∈ r.prev, (c₁.record b).isSome := by
    intro b hb
    rw [hrecord₁]
    exact h.isSome ((h.segment k).prev_mem hmem (hpreva.trans hb))
  obtain ⟨record₂, hwrite₂, hnext₂, hprev₂, hview₂⟩ := write_next hprevs r.next
  have hnexts : ∀ b ∈ r.next, (record₂ b).isSome := by
    intro b hb
    rw [← view_isSome, hview₂, view_isSome, hrecord₁]
    exact h.isSome ((h.segment k).next_mem hmem (hnexta.trans hb))
  obtain ⟨record₃, hwrite₃, hnext₃, hprev₃, hview₃⟩ := write_prev (c := { c₁ with record := record₂ }) hnexts r.prev
  have hnext : next record₃ = relink (next c.record) r.prev r.next := by rw [hnext₃, hnext₂, hrecord₁]
  have hprev : prev record₃ = relink (prev c.record) r.next r.prev := by rw [hprev₃, hprev₂, hrecord₁]
  have hview : view record₃ = view c.record := by rw [hview₃, hview₂, hrecord₁]
  have hfreed : view (Function.update record₃ a none) = Function.update (view c.record) a none := by
    funext x
    rcases eq_or_ne x a with rfl | hx
    · simp [view]
    · rw [Function.update_of_ne hx, ← hview, view, view, Function.update_of_ne hx]
  have hlinks : ∀ x ≠ a, next (Function.update record₃ a none) x = next record₃ x ∧
      prev (Function.update record₃ a none) x = prev record₃ x := by
    intro x hx
    simp [next, prev, hx]
  have hothers : ∀ k' ≠ k, a ∉ L k' := fun k' hne hm => hne (hown k' hm)
  refine ⟨{ c₁ with record := Function.update record₃ a none }, ?_, ⟨?_, ?_, ?_, ?_⟩, hfreed, ?_, ?_⟩
  · rw [NotificationCenter.unlink, hk]
    change (c₁.write _ _ >>= fun c => c.write _ _ >>= fun c => some (c.free a)) = _
    rw [hwrite₂]
    change (NotificationCenter.write { c₁ with record := record₂ } _ _ >>= fun c => some (c.free a)) = _
    rw [hwrite₃]
    rfl
  · intro k'
    by_cases hkk : k' = k
    · subst hkk
      obtain ⟨l, m, hl⟩ := List.append_of_mem hmem
      have hn := h.nodup k'
      have hseg := h.segment k'
      rw [hl] at hn hseg ⊢
      have hunlink := hseg.unlink hn
      rw [hnexta, hpreva, ← hnext, ← hprev] at hunlink
      rw [filter_ne_split hn]
      have hne : ∀ x ∈ l ++ m, x ≠ a := by
        intro x hx
        rw [← filter_ne_split hn] at hx
        simpa using (List.mem_filter.mp hx).2
      exact hunlink.congr (fun x hx => (hlinks x (hne x hx)).1) fun x hx => (hlinks x (hne x hx)).2
    · rw [filter_ne_of_not_mem (hothers k' hkk)]
      have hne : ∀ x ∈ L k', x ∉ L k := by
        intro x hx hx'
        obtain ⟨g, hg, hgk⟩ := (h.mem k' x).mp hx
        obtain ⟨g', hg', hgk'⟩ := (h.mem k x).mp hx'
        rw [hg, Option.some.injEq] at hg'
        exact hkk (by rw [← hgk, ← hgk', hg'])
      refine (h.segment k').congr (fun x hx => ?_) fun x hx => ?_
      · rw [(hlinks x fun heq => hothers k' hkk (heq ▸ hx)).1, hnext, relink_of_ne]
        exact fun heq => hne x hx ((h.segment k).prev_mem hmem (hpreva.trans heq))
      · rw [(hlinks x fun heq => hothers k' hkk (heq ▸ hx)).2, hprev, relink_of_ne]
        exact fun heq => hne x hx ((h.segment k).next_mem hmem (hnexta.trans heq))
  · intro k'
    change c₁.head k' = _
    by_cases hkk : k' = k
    · subst hkk
      rw [head_filter_ne (h.nodup k') (n := r.next), ← h.heads k', hc₁]
      · split
        next hhead => rw [head_setHead, if_pos rfl]
        next => rfl
      · intro front back hl
        have hseg := h.segment k'
        rw [hl, segment_append] at hseg
        rw [← hnexta, hseg.2.2.1, Option.or_none]
    · rw [filter_ne_of_not_mem (hothers k' hkk), ← h.heads k', hc₁]
      split
      · rw [head_setHead, if_neg hkk]
      · rfl
  · intro k' x
    rw [List.mem_filter, h.mem k' x, decide_eq_true_eq]
    simp only [registered]
    rw [hfreed]
    rcases eq_or_ne x a with rfl | hx
    · simp
    · simp [hx]
  · exact fun k' => (h.nodup k').filter _
  · rw [hc₁]
    split <;> simp
  · rw [hc₁]
    split <;> simp

omit [DecidableEq P] [DecidableEq S] in
lemma Listed.of_same (h : Listed string c L) {c' : NotificationCenter A P N S} (hnext : next c'.record = next c.record)
    (hprev : prev c'.record = prev c.record) (hreg : registered c'.record = registered c.record)
    (hheads : c'.head = c.head) : Listed string c' L where
  segment k := by
    rw [hnext, hprev]
    exact h.segment k
  heads k := by
    rw [hheads]
    exact h.heads k
  mem k a := by
    rw [hreg]
    exact h.mem k a
  nodup := h.nodup

/-! The lists of an observer's actions. -/

omit [DecidableEq P] [DecidableEq S] in
lemma record_isSome_of_registered {record : Records A P N} {a : Address} :
    (registered record a).isSome = (record a).isSome := by
  simp [registered, view]

lemma nextAction_of_record {record : Records A P N} {a : Address} {r : NotificationObserver A P N}
    (h : record a = some r) : nextAction record a = r.nextAction := by
  simp [nextAction, view, h]

lemma removeActions_listed (l : List Address) {fuel : ℕ} (hfuel : l.length ≤ fuel) (h : Listed string c L)
    (hchain : Chain (nextAction c.record) l none) (hn : l.Nodup) (hreg : ∀ x ∈ l, (c.record x).isSome) :
    ∃ c', NotificationCenter.removeActions string fuel l.head? c = some c' ∧
      Listed string c' (fun k => (L k).filter (· ∉ l)) ∧
      (view c'.record = fun x => if x ∈ l then none else view c.record x) ∧
      c'.observerTable = c.observerTable ∧ c'.registrations = c.registrations := by
  induction l generalizing fuel c L with
  | nil =>
    refine ⟨c, ?_, ?_, ?_, rfl, rfl⟩
    · cases fuel <;> rfl
    · simpa using h
    · simp
  | cons a l ih =>
    cases fuel with
    | zero => simp at hfuel
    | succ fuel =>
      obtain ⟨r, hr⟩ := Option.isSome_iff_exists.mp (hreg a List.mem_cons_self)
      obtain ⟨ha, hn⟩ := List.nodup_cons.mp hn
      obtain ⟨c₁, hunlink, h₁, hview₁, htable₁, hcount₁⟩ := unlink_listed h hr
      have hsame : ∀ x ∈ l, view c₁.record x = view c.record x := by
        intro x hx
        rw [hview₁, Function.update_of_ne]
        rintro rfl
        exact ha hx
      have hchain₁ : Chain (nextAction c₁.record) l none :=
        hchain.2.congr fun x hx => by rw [nextAction, nextAction, hsame x hx]
      have hreg₁ : ∀ x ∈ l, (c₁.record x).isSome := by
        intro x hx
        rw [← view_isSome, hsame x hx, view_isSome]
        exact hreg x (List.mem_cons_of_mem a hx)
      obtain ⟨c₂, hrun, h₂, hview₂, htable₂, hcount₂⟩ := ih (by simpa using hfuel) h₁ hchain₁ hn hreg₁
      refine ⟨c₂, ?_, ?_, ?_, htable₂.trans htable₁, hcount₂.trans hcount₁⟩
      · have hnext : r.nextAction = l.head? := by
          rw [← nextAction_of_record hr, hchain.1, Option.or_none]
        rw [List.head?_cons, NotificationCenter.removeActions, hr]
        change (c.unlink string a r >>= fun c => NotificationCenter.removeActions string fuel r.nextAction c) = _
        rw [hunlink, hnext]
        exact hrun
      · convert h₂ using 2 with k
        rw [List.filter_filter]
        congr 1
        funext x
        simp [Bool.and_comm]
      · rw [hview₂, hview₁]
        funext x
        by_cases hx : x = a <;> simp [hx]

lemma lastAction_eq (l : List Address) {fuel : ℕ} (hfuel : l.length ≤ fuel)
    (hchain : Chain (nextAction c.record) l none) (hreg : ∀ x ∈ l, (c.record x).isSome) {a : Address}
    (ha : l.head? = some a) : c.lastAction fuel a = l.getLast? := by
  induction l generalizing fuel a with
  | nil => cases ha
  | cons b l ih =>
    obtain rfl : b = a := by simpa using ha
    cases fuel with
    | zero => simp at hfuel
    | succ fuel =>
      obtain ⟨r, hr⟩ := Option.isSome_iff_exists.mp (hreg b List.mem_cons_self)
      have hnext : r.nextAction = l.head? := by
        rw [← nextAction_of_record hr, hchain.1, Option.or_none]
      rw [NotificationCenter.lastAction, hr]
      simp only [Option.bind_eq_bind, Option.bind_some, hnext]
      cases l with
      | nil => rfl
      | cons d l =>
        exact ih (by simpa using hfuel) hchain.2 (fun x hx => hreg x (List.mem_cons_of_mem b hx)) rfl

section Rebuild

variable [DecidableEq N] (name : Option N) (object : Option P)

/-- The registrations that are removed by name are those with the same pointers. -/
def drops (record : Records A P N) (a : Address) : Bool :=
  (registered record a).any fun r => r.name = name ∧ r.object = object

lemma drops_of_record {record : Records A P N} {a : Address} {r : NotificationObserver A P N} (h : record a = some r) :
    drops name object record a = decide (r.name = name ∧ r.object = object) := by
  simp [drops, registered_of_record h]

lemma drops_congr {record record' : Records A P N} {a : Address} (h : registered record' a = registered record a) :
    drops name object record' a = drops name object record a := by
  rw [drops, drops, h]

lemma keep_action {K : List Address} {a : Address} {r : NotificationObserver A P N} (h : Listed string c L)
    (hr : c.record a = some r) (hkeep : drops name object c.record a = false)
    (hK : Chain (nextAction c.record) K none) (hn : K.Nodup) (ha : a ∉ K) (hreg : ∀ x ∈ K, (c.record x).isSome)
    (hcount : K.length ≤ c.registrations) (fuel : ℕ) :
    ∃ c', NotificationCenter.rebuildActions string name object (fuel + 1) (some a) K.head? c =
        NotificationCenter.rebuildActions string name object fuel r.nextAction (K ++ [a]).head? c' ∧
      Listed string c' L ∧ registered c'.record = registered c.record ∧
      Chain (nextAction c'.record) (K ++ [a]) none ∧
      (∀ x, x ∉ K → x ≠ a → nextAction c'.record x = nextAction c.record x) ∧
      c'.observerTable = c.observerTable ∧ c'.registrations = c.registrations := by
  rw [drops_of_record name object hr, decide_eq_false_iff_not] at hkeep
  obtain ⟨record₁, hwrite₁, hnext₁, hprev₁, hreg₁, haction₁⟩ := write_nextAction (c := c) (a := a) (by simp [hr]) none
  have hstep : NotificationCenter.rebuildActions string name object (fuel + 1) (some a) K.head? c =
      K.head?.elim
        (NotificationCenter.rebuildActions string name object fuel r.nextAction (some a) { c with record := record₁ })
        fun p => (NotificationCenter.lastAction { c with record := record₁ } c.registrations p).bind fun last =>
          (NotificationCenter.write { c with record := record₁ } (some last)
            fun rec => { rec with nextAction := some a }).bind
              (NotificationCenter.rebuildActions string name object fuel r.nextAction K.head?) := by
    cases K
    all_goals
      rw [List.head?, NotificationCenter.rebuildActions, hr]
      change (if _ then _ else (c.write _ _).bind _) = _
      rw [if_neg hkeep, hwrite₁]
      rfl
  have hsame₁ : ∀ x, x ≠ a → nextAction record₁ x = nextAction c.record x := by
    intro x hx
    rw [haction₁, relink_of_ne fun heq => hx (Option.some.inj heq).symm]
  have hend₁ : nextAction record₁ a = none := by simp [haction₁, relink]
  have hK₁ : Chain (nextAction record₁) K none := by
    refine hK.congr fun x hx => hsame₁ x ?_
    rintro rfl
    exact ha hx
  rw [hstep]
  cases hlast : K.getLast? with
  | none =>
    obtain rfl := List.getLast?_eq_none_iff.mp hlast
    refine ⟨_, rfl, h.of_same hnext₁ hprev₁ hreg₁ rfl, hreg₁, ⟨by simp [hend₁], trivial⟩, fun x _ hx => hsame₁ x hx, rfl, rfl⟩
  | some last =>
    have hmem := List.mem_of_getLast? hlast
    have hreg₁' : ∀ x ∈ K, (record₁ x).isSome := by
      intro x hx
      rw [← record_isSome_of_registered, hreg₁, record_isSome_of_registered]
      exact hreg x hx
    obtain ⟨record₂, hwrite₂, hnext₂, hprev₂, hreg₂, haction₂⟩ :=
      write_nextAction (c := { c with record := record₁ }) (hreg₁' last hmem) (some a)
    refine ⟨{ c with record := record₂ }, ?_, ?_, hreg₂.trans hreg₁, ?_, ?_, rfl, rfl⟩
    · cases K with
      | nil => cases hlast
      | cons p K =>
        have hfound := lastAction_eq (c := { c with record := record₁ }) (p :: K) hcount hK₁ hreg₁' rfl
        rw [hlast] at hfound
        refine (congrArg (Option.bind · _) hfound).trans ?_
        exact congrArg (Option.bind · _) hwrite₂
    · exact (h.of_same (hnext₂.trans hnext₁) (hprev₂.trans hprev₁) (hreg₂.trans hreg₁) rfl)
    · change Chain (nextAction record₂) _ _
      rw [haction₂, ← hlast]
      exact hK₁.concat hn ha hend₁
    · intro x hx hne
      change nextAction record₂ x = _
      rw [haction₂, relink_of_ne, hsame₁ x hne]
      intro heq
      exact hx (Option.some.inj heq ▸ hmem)

lemma rebuildActions_listed (l K : List Address) {fuel : ℕ} (hfuel : l.length ≤ fuel) (h : Listed string c L)
    (hl : Chain (nextAction c.record) l none) (hK : Chain (nextAction c.record) K none) (hn : (K ++ l).Nodup)
    (hreg : ∀ x ∈ K ++ l, (c.record x).isSome) (hcount : (K ++ l).length ≤ c.registrations) :
    ∃ c', NotificationCenter.rebuildActions string name object fuel l.head? K.head? c =
        some ((K ++ l.filter fun x => !drops name object c.record x).head?, c') ∧
      Listed string c' (fun k => (L k).filter fun x => !(decide (x ∈ l) && drops name object c.record x)) ∧
      (registered c'.record = fun x => if x ∈ l ∧ drops name object c.record x then none else registered c.record x) ∧
      Chain (nextAction c'.record) (K ++ l.filter fun x => !drops name object c.record x) none ∧
      (∀ x, x ∉ K ++ l → nextAction c'.record x = nextAction c.record x) ∧
      c'.observerTable = c.observerTable ∧ c'.registrations = c.registrations := by
  induction l generalizing K fuel c L with
  | nil =>
    refine ⟨c, ?_, ?_, ?_, ?_, fun _ _ => rfl, rfl, rfl⟩
    · cases fuel <;> simp [NotificationCenter.rebuildActions]
    · simpa using h
    · simp
    · simpa using hK
  | cons a l ih =>
    cases fuel with
    | zero => simp at hfuel
    | succ fuel =>
      obtain ⟨r, hr⟩ := Option.isSome_iff_exists.mp (hreg a (by simp))
      obtain ⟨hKn, hln, hdis⟩ := List.nodup_append'.mp hn
      obtain ⟨hal, hln⟩ := List.nodup_cons.mp hln
      have haK : a ∉ K := fun hm => hdis hm List.mem_cons_self
      have hnext : r.nextAction = l.head? := by rw [← nextAction_of_record hr, hl.1, Option.or_none]
      have hfuel' : l.length ≤ fuel := by simpa using hfuel
      cases hdrop : drops name object c.record a with
      | true =>
        obtain ⟨c₁, hunlink, h₁, hview₁, htable₁, hcount₁⟩ := unlink_listed h hr
        have hview : ∀ x, x ≠ a → view c₁.record x = view c.record x := fun x hx => by
          rw [hview₁, Function.update_of_ne hx]
        have hregd : ∀ x, x ≠ a → registered c₁.record x = registered c.record x := fun x hx => by
          rw [registered, registered, hview x hx]
        have hact : ∀ x, x ≠ a → nextAction c₁.record x = nextAction c.record x := fun x hx => by
          rw [nextAction, nextAction, hview x hx]
        have hdrops : ∀ x, x ≠ a → drops name object c₁.record x = drops name object c.record x :=
          fun x hx => drops_congr name object (hregd x hx)
        have hneK : ∀ x ∈ K, x ≠ a := fun x hx heq => haK (heq ▸ hx)
        have hnel : ∀ x ∈ l, x ≠ a := fun x hx heq => hal (heq ▸ hx)
        have hne : ∀ x ∈ K ++ l, x ≠ a := fun x hx => (List.mem_append.mp hx).elim (hneK x) (hnel x)
        have hreg₁ : ∀ x ∈ K ++ l, (c₁.record x).isSome := by
          intro x hx
          rw [← view_isSome, hview x (hne x hx), view_isSome]
          exact hreg x (by simpa using (List.mem_append.mp hx).imp_right .inr)
        obtain ⟨c₂, hrun, h₂, hregd₂, hK₂, hact₂, htable₂, hcount₂⟩ := ih K hfuel' h₁
          (hl.2.congr fun x hx => hact x (hnel x hx)) (hK.congr fun x hx => hact x (hneK x hx))
          (List.nodup_append'.mpr ⟨hKn, hln, fun x hx hx' => hdis hx (List.mem_cons_of_mem a hx')⟩) hreg₁
          (by rw [hcount₁]; simp only [List.length_append, List.length_cons] at hcount ⊢; omega)
        have hrest : (l.filter fun x => !drops name object c₁.record x) =
            (a :: l).filter fun x => !drops name object c.record x := by
          rw [List.filter_cons_of_neg (by simp [hdrop])]
          exact List.filter_congr fun x hx => by rw [hdrops x (hnel x hx)]
        rw [hrest] at hrun hK₂
        refine ⟨c₂, ?_, ?_, ?_, hK₂, ?_, htable₂.trans htable₁, hcount₂.trans hcount₁⟩
        · have hpointers := hdrop
          rw [drops_of_record name object hr, decide_eq_true_eq] at hpointers
          rw [List.head?_cons, NotificationCenter.rebuildActions, hr]
          simp only [Option.bind_eq_bind, Option.bind_some, if_pos hpointers, hunlink, hnext]
          exact hrun
        · convert h₂ using 2 with k
          rw [List.filter_filter]
          apply List.filter_congr
          intro x _
          by_cases hx : x = a
          · subst hx
            simp [hdrop]
          · simp [hx, hdrops x hx]
        · rw [hregd₂]
          funext x
          by_cases hx : x = a
          · subst hx
            simp [hdrop, hal, registered, hview₁]
          · simp [hx, hdrops x hx, hregd x hx]
        · intro x hx
          have hxa : x ≠ a := fun heq => hx (by simp [heq])
          rw [hact₂ x fun hm => hx (by simpa using (List.mem_append.mp hm).imp_right .inr), hact x hxa]
      | false =>
        obtain ⟨c₁, hrun₁, h₁, hregd₁, hK₁, hact₁, htable₁, hcount₁⟩ := keep_action name object h hr hdrop hK hKn haK
          (fun x hx => hreg x (List.mem_append_left _ hx))
          (by simp only [List.length_append] at hcount; omega) fuel
        have hdrops : ∀ x, drops name object c₁.record x = drops name object c.record x :=
          fun x => drops_congr name object (by rw [hregd₁])
        have hsplit : K ++ a :: l = K ++ [a] ++ l := by simp
        have hl₁ : Chain (nextAction c₁.record) l none := by
          refine hl.2.congr fun x hx => hact₁ x (fun hm => hdis hm (List.mem_cons_of_mem a hx)) ?_
          rintro rfl
          exact hal hx
        have hreg₁ : ∀ x ∈ K ++ [a] ++ l, (c₁.record x).isSome := by
          intro x hx
          rw [← record_isSome_of_registered, hregd₁, record_isSome_of_registered]
          exact hreg x (hsplit ▸ hx)
        obtain ⟨c₂, hrun, h₂, hregd₂, hK₂, hact₂, htable₂, hcount₂⟩ := ih (K ++ [a]) hfuel' h₁ hl₁ hK₁ (hsplit ▸ hn) hreg₁
          (by rw [hcount₁, ← hsplit]; exact hcount)
        simp only [hdrops, hregd₁] at hrun h₂ hregd₂ hK₂
        have hrest : K ++ ((a :: l).filter fun x => !drops name object c.record x) =
            K ++ [a] ++ l.filter fun x => !drops name object c.record x := by
          rw [List.filter_cons_of_pos (by simp [hdrop]), List.append_assoc]
          rfl
        rw [hrest]
        refine ⟨c₂, ?_, ?_, ?_, hK₂, ?_, htable₂.trans htable₁, hcount₂.trans hcount₁⟩
        · rw [List.head?_cons, hrun₁, hnext]
          exact hrun
        · convert h₂ using 2 with k
          apply List.filter_congr
          intro x _
          by_cases hx : x = a
          · subst hx
            simp [hdrop]
          · simp [hx]
        · rw [hregd₂]
          funext x
          by_cases hx : x = a
          · subst hx
            simp [hdrop]
          · simp [hx]
        · intro x hx
          rw [hsplit] at hx
          rw [hact₂ x hx]
          simp only [List.mem_append, List.mem_singleton, not_or] at hx
          exact hact₁ x hx.1.1 hx.1.2

end Rebuild

/-! The center as a whole. -/

/-- The chains of the observers, with their addresses in their order. -/
structure Chained (c : NotificationCenter A P N S) (C : P → List Address) : Prop where
  chain : ∀ o, Chain (nextAction c.record) (C o) none
  heads : ∀ o, c.observerTable o = (C o).head?
  mem : ∀ o a, a ∈ C o ↔ ∃ r, registered c.record a = some r ∧ r.observer = o
  nodup : ∀ o, (C o).Nodup
  bound : ∀ o, (C o).length ≤ c.registrations

variable {C : P → List Address}

omit [DecidableEq P] [DecidableEq S] in
lemma initial_listed : Listed string (.initial : NotificationCenter A P N S) fun _ => [] where
  segment _ := trivial
  heads k := by cases k <;> rfl
  mem k a := by simp [registered, view, NotificationCenter.initial]
  nodup _ := List.nodup_nil

omit [DecidableEq P] [DecidableEq S] in
lemma initial_chained : Chained (.initial : NotificationCenter A P N S) fun _ => [] where
  chain _ := trivial
  heads _ := rfl
  mem o a := by simp [registered, view, NotificationCenter.initial]
  nodup _ := List.nodup_nil
  bound _ := Nat.zero_le _

omit [DecidableEq P] [DecidableEq S] in
lemma Chained.isSome (h : Chained c C) {o : P} {a : Address} (ha : a ∈ C o) : (c.record a).isSome := by
  obtain ⟨r, hr, -⟩ := (h.mem o a).mp ha
  rw [← record_isSome_of_registered, hr]
  rfl

omit [DecidableEq S] in
lemma Chained.replace (h : Chained c C) {c' : NotificationCenter A P N S} {o : P} {l : List Address}
    (hsub : ∀ x ∈ l, x ∈ C o) (hn : l.Nodup) (hlength : l.length ≤ (C o).length)
    (hchain : Chain (nextAction c'.record) l none)
    (hreg : registered c'.record = fun x => if x ∈ C o ∧ x ∉ l then none else registered c.record x)
    (hact : ∀ x, x ∉ C o → nextAction c'.record x = nextAction c.record x)
    (htable : c'.observerTable = Function.update c.observerTable o l.head?)
    (hcount : c'.registrations = c.registrations) : Chained c' (Function.update C o l) where
  chain o' := by
    rcases eq_or_ne o' o with rfl | ho
    · rwa [Function.update_self]
    · rw [Function.update_of_ne ho]
      refine (h.chain o').congr fun x hx => hact x fun hx' => ho ?_
      obtain ⟨r, hr, rfl⟩ := (h.mem o' x).mp hx
      obtain ⟨r', hr', rfl⟩ := (h.mem o x).mp hx'
      rw [hr, Option.some.injEq] at hr'
      rw [hr']
  heads o' := by
    rw [htable]
    rcases eq_or_ne o' o with rfl | ho
    · simp
    · rw [Function.update_of_ne ho, Function.update_of_ne ho, h.heads]
  mem o' a := by
    rw [hreg]
    rcases eq_or_ne o' o with rfl | ho
    · rw [Function.update_self]
      by_cases ha : a ∈ l
      · simpa [ha] using (h.mem o' a).mp (hsub a ha)
      · by_cases hC : a ∈ C o'
        · simp [ha, hC]
        · simpa [ha, hC] using fun r hr hro => hC ((h.mem o' a).mpr ⟨r, hr, hro⟩)
    · rw [Function.update_of_ne ho, h.mem o' a]
      by_cases hC : a ∈ C o
      · obtain ⟨r, hr, hro⟩ := (h.mem o a).mp hC
        by_cases ha : a ∈ l
        · simp [ha]
        · simpa [hC, ha, hr, hro] using Ne.symm ho
      · simp [hC]
  nodup o' := by
    rcases eq_or_ne o' o with rfl | ho
    · rwa [Function.update_self]
    · rw [Function.update_of_ne ho]
      exact h.nodup o'
  bound o' := by
    rw [hcount]
    rcases eq_or_ne o' o with rfl | ho
    · rw [Function.update_self]
      exact hlength.trans (h.bound o')
    · rw [Function.update_of_ne ho]
      exact h.bound o'

theorem removeNotificationObserver_spec (h : Listed string c L) (hC : Chained c C) (o : P) :
    ∃ c', c.removeNotificationObserver string o = some c' ∧ Listed string c' (fun k => (L k).filter (· ∉ C o)) ∧
      Chained c' (Function.update C o []) ∧
      registered c'.record = fun x => if x ∈ C o then none else registered c.record x := by
  obtain ⟨c₁, hrun, h₁, hview₁, htable₁, hcount₁⟩ := removeActions_listed (C o) (hC.bound o) h (hC.chain o) (hC.nodup o)
    fun x hx => hC.isSome hx
  rw [← hC.heads] at hrun
  have hreg : registered c₁.record = fun x => if x ∈ C o then none else registered c.record x := by
    funext x
    rw [registered, hview₁]
    by_cases hx : x ∈ C o <;> simp [hx, registered]
  refine ⟨{ c₁ with observerTable := Function.update c₁.observerTable o none }, ?_,
    h₁.of_same rfl rfl rfl (by funext k; cases k <;> rfl), ?_, hreg⟩
  · rw [NotificationCenter.removeNotificationObserver, hrun]
    rfl
  · refine hC.replace (by simp) List.nodup_nil (by simp) trivial (by simpa using hreg) ?_ (by simp [htable₁]) hcount₁
    intro x hx
    change nextAction c₁.record x = _
    simp [nextAction, hview₁, hx]

theorem removeNotificationObserverWithName_spec [DecidableEq N] (h : Listed string c L) (hC : Chained c C) (o : P)
    (name : Option N) (object : Option P) :
    ∃ c', c.removeNotificationObserverWithName string o name object = some c' ∧
      Listed string c' (fun k => (L k).filter fun x => !(decide (x ∈ C o) && drops name object c.record x)) ∧
      Chained c' (Function.update C o ((C o).filter fun x => !drops name object c.record x)) ∧
      registered c'.record = fun x => if x ∈ C o ∧ drops name object c.record x then none else registered c.record x := by
  have h₀ : Listed string { c with observerTable := Function.update c.observerTable o none } L :=
    h.of_same rfl rfl rfl (by funext k; cases k <;> rfl)
  obtain ⟨c₁, hrun, h₁, hreg₁, hchain₁, hact₁, htable₁, hcount₁⟩ := rebuildActions_listed name object (C o) [] (hC.bound o)
    h₀ (hC.chain o) trivial (hC.nodup o) (fun x hx => hC.isSome hx) (hC.bound o)
  rw [← hC.heads, List.nil_append, List.head?_nil] at hrun
  refine ⟨{ c₁ with
      observerTable := Function.update c₁.observerTable o ((C o).filter fun x => !drops name object c.record x).head? },
    ?_, h₁.of_same rfl rfl rfl (by funext k; cases k <;> rfl), ?_, hreg₁⟩
  · rw [NotificationCenter.removeNotificationObserverWithName]
    change (NotificationCenter.rebuildActions string name object c.registrations (c.observerTable o) none _ >>= _) = _
    rw [hrun]
    rfl
  · refine hC.replace (fun x hx => (List.mem_filter.mp hx).1) ((hC.nodup o).filter _) (List.length_filter_le _ _) hchain₁ ?_
      hact₁ ?_ hcount₁
    · change registered c₁.record = _
      rw [hreg₁]
      funext x
      by_cases hx : x ∈ C o <;> simp [hx]
    · simp [htable₁]

omit [DecidableEq P] [DecidableEq S] in
lemma lists_fresh (h : Listed string c L) {a : Address} (ha : c.record a = none) (k : Slot P S) : a ∉ L k := by
  intro hm
  have := h.isSome hm
  simp [ha] at this

theorem addNotificationObserver_spec (h : Listed string c L) (hC : Chained c C) {a : Address} (ha : c.record a = none)
    (r : Registration A P N) :
    ∃ c', c.addNotificationObserver string a r = some c' ∧
      Listed string c' (Function.update L (r.slot string) (a :: L (r.slot string))) ∧
      Chained c' (Function.update C r.observer (a :: C r.observer)) ∧
      registered c'.record = Function.update (registered c.record) a (some r) := by
  generalize hk : r.slot string = k
  set oRec : NotificationObserver A P N :=
    { r with prev := none, next := c.head k, nextAction := c.observerTable r.observer } with hoRec
  set record₁ := Function.update c.record a (some oRec) with hrecord₁
  have hheads : ∀ b ∈ c.head k, (record₁ b).isSome := by
    intro b hb
    rw [h.heads] at hb
    have hbs := h.isSome (List.mem_of_head? hb)
    rcases eq_or_ne b a with rfl | hne
    · simp [hrecord₁]
    · simpa [hrecord₁, hne] using hbs
  set c₁ : NotificationCenter A P N S := { c with
    record := record₁
    observerTable := Function.update c.observerTable r.observer (some a)
    registrations := c.registrations + 1 } with hc₁
  obtain ⟨record₂, hwrite, hnext, hprev, hview⟩ := write_prev (c := c₁) hheads (some a)
  have hnext₂ : next record₂ = Function.update (next c.record) a (c.head k) := by
    rw [hnext]
    funext x
    rcases eq_or_ne x a with rfl | hx <;> simp [next, c₁, record₁, oRec, *]
  have hprev₂ : prev record₂ = relink (Function.update (prev c.record) a none) (c.head k) (some a) := by
    rw [hprev]
    congr 1
    funext x
    rcases eq_or_ne x a with rfl | hx <;> simp [prev, c₁, record₁, oRec, *]
  have hview₂ : view record₂ = Function.update (view c.record) a (some (r, c.observerTable r.observer)) := by
    rw [hview]
    funext x
    rcases eq_or_ne x a with rfl | hx <;> simp [view, c₁, record₁, oRec, *]
  have hreg₂ : registered record₂ = Function.update (registered c.record) a (some r) := by
    funext x
    rcases eq_or_ne x a with rfl | hx <;> simp [registered, hview₂, *]
  have hact₂ : ∀ x, x ≠ a → nextAction record₂ x = nextAction c.record x := by
    intro x hx
    simp [nextAction, hview₂, hx]
  have hfresh : registered c.record a = none := by simp [registered, view, ha]
  have hnotin := lists_fresh h ha
  refine ⟨{ c₁ with record := record₂ }.setHead k (some a), ?_, ⟨?_, ?_, ?_, ?_⟩, ⟨?_, ?_, ?_, ?_, ?_⟩, by simpa using hreg₂⟩
  · rw [NotificationCenter.addNotificationObserver, hk]
    change (c₁.write (c.head k) _ >>= fun c => some (c.setHead k (some a))) = _
    rw [hwrite]
    rfl
  · intro k'
    rw [setHead_record]
    change Segment (next record₂) (prev record₂) _ _ _
    rw [hnext₂, hprev₂, h.heads]
    rcases eq_or_ne k' k with rfl | hkk
    · rw [Function.update_self]
      exact (h.segment k').push (h.nodup k') (hnotin k')
    · rw [Function.update_of_ne hkk]
      have hne : ∀ x ∈ L k', x ≠ a := fun x hx heq => hnotin k' (heq ▸ hx)
      refine (h.segment k').congr (fun x hx => Function.update_of_ne (hne x hx) _ _) fun x hx => ?_
      rw [relink_of_ne, Function.update_of_ne (hne x hx)]
      intro heq
      obtain ⟨g, hg, hgk⟩ := (h.mem k' x).mp hx
      obtain ⟨g', hg', hgk'⟩ := (h.mem k x).mp (List.mem_of_head? heq)
      rw [hg, Option.some.injEq] at hg'
      exact hkk (by rw [← hgk, ← hgk', hg'])
  · intro k'
    rw [head_setHead]
    rcases eq_or_ne k' k with rfl | hkk
    · simp
    · rw [if_neg hkk, Function.update_of_ne hkk, ← h.heads k']
      cases k' <;> rfl
  · intro k' x
    rw [setHead_record]
    change _ ↔ ∃ g, registered record₂ x = some g ∧ _
    rw [hreg₂]
    rcases eq_or_ne k' k with rfl | hkk
    · rw [Function.update_self, List.mem_cons, h.mem k' x]
      rcases eq_or_ne x a with rfl | hx
      · simp [hk]
      · simp [hx]
    · rw [Function.update_of_ne hkk, h.mem k' x]
      rcases eq_or_ne x a with rfl | hx
      · simp [hfresh, hk, Ne.symm hkk]
      · simp [hx]
  · intro k'
    rcases eq_or_ne k' k with rfl | hkk
    · rw [Function.update_self]
      exact List.nodup_cons.mpr ⟨hnotin k', h.nodup k'⟩
    · rw [Function.update_of_ne hkk]
      exact h.nodup k'
  all_goals have hnotC : ∀ o, a ∉ C o := fun o hm => by simpa [ha] using hC.isSome hm
  · intro o
    rw [setHead_record]
    change Chain (nextAction record₂) _ _
    have hcopy : Chain (nextAction record₂) (C o) none :=
      (hC.chain o).congr fun x hx => hact₂ x fun heq => hnotC o (heq ▸ hx)
    rcases eq_or_ne o r.observer with rfl | ho
    · rw [Function.update_self]
      exact ⟨by simp [nextAction, hview₂, hC.heads], hcopy⟩
    · rwa [Function.update_of_ne ho]
  · intro o
    rw [setHead_observerTable]
    rcases eq_or_ne o r.observer with rfl | ho
    · simp [c₁]
    · rw [Function.update_of_ne ho, ← hC.heads]
      simp [c₁, ho]
  · intro o x
    rw [setHead_record]
    change _ ↔ ∃ g, registered record₂ x = some g ∧ _
    rw [hreg₂]
    rcases eq_or_ne o r.observer with rfl | ho
    · rw [Function.update_self, List.mem_cons, hC.mem]
      rcases eq_or_ne x a with rfl | hx <;> simp [*]
    · rw [Function.update_of_ne ho, hC.mem]
      rcases eq_or_ne x a with rfl | hx
      · simp [hfresh, Ne.symm ho]
      · simp [hx]
  · intro o
    rcases eq_or_ne o r.observer with rfl | ho
    · rw [Function.update_self]
      exact List.nodup_cons.mpr ⟨hnotC _, hC.nodup _⟩
    · rw [Function.update_of_ne ho]
      exact hC.nodup o
  · intro o
    rw [setHead_registrations]
    change _ ≤ c.registrations + 1
    have hb := hC.bound o
    rcases eq_or_ne o r.observer with rfl | ho
    · rw [Function.update_self, List.length_cons]
      omega
    · rw [Function.update_of_ne ho]
      omega

end Xperimentum.WMcore.Observers
