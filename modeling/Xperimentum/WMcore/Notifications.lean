import Xperimentum.Lib.Partial

/-! Notification queues under enqueuing, dequeuing and flushing, with what observers do while a notification
is being posted to them. -/

namespace Xperimentum.WMcore

open Lib.Partial

inductive QueueKind where
  | asap
  | idle
  deriving DecidableEq

inductive PostingStyle where
  | whenIdle
  | asap
  | now
  deriving DecidableEq

structure CoalesceMask where
  onName : Bool
  onSender : Bool
  deriving DecidableEq

def CoalesceMask.none : CoalesceMask := ⟨false, false⟩

structure Notification (N O : Type) where
  name : N
  object : O
  deriving DecidableEq

abbrev Home := QueueKind × ℕ

/-- A notification that was put in a queue, with the number of that event and the queue. The reference that the
queue owns is the one given up by the caller. -/
structure Note (N O : Type) where
  serial : ℕ
  home : Home
  notification : Notification N O
  deriving DecidableEq

/-- The calls that have not returned: observers are called in `post` and in `posting`. -/
inductive Frame (N O : Type) where
  | post
  | flush (home : Home)
  | posting (home : Home) (note : Note N O)
  deriving DecidableEq

structure Match (N O : Type) where
  note : Note N O
  pattern : Notification N O
  mask : CoalesceMask

structure Posting (N O : Type) where
  note : Note N O
  afterRelease : Bool

/-- The queues, numbered in the order of their creation, and the history: what was put in them, posted from them,
removed by a match and deleted after a posting. -/
structure Center (N O : Type) where
  count : ℕ
  items : Home → List (Note N O)
  frames : List (Frame N O)
  next : ℕ
  puts : List (Note N O)
  posted : List (Posting N O)
  matched : List (Match N O)
  deleted : List (Note N O)

inductive CenterAction (N O : Type) where
  | createQueue
  | enqueueCoalesce (queue : ℕ) (notification : Notification N O) (style : PostingStyle) (mask : CoalesceMask)
  | dequeueMatching (queue : ℕ) (notification : Notification N O) (mask : CoalesceMask)
  | flush (kind : QueueKind)
  /-- The loop of a flush looks at the number of items. -/
  | look
  /-- The observers of the innermost posting have returned. -/
  | posted

section Model

variable {N O : Type} [DecidableEq N] [DecidableEq O]

def Center.initial : Center N O := ⟨0, fun _ => [], [], 0, [], [], [], []⟩

def matchNotification (mask : CoalesceMask) (pattern item : Notification N O) : Bool :=
  if mask.onName && mask.onSender then pattern.object = item.object && pattern.name = item.name
  else if mask.onName then pattern.name = item.name
  else if mask.onSender then pattern.object = item.object
  else false

def removeFromArrayMatching (s : Center N O) (home : Home) (pattern : Notification N O) (mask : CoalesceMask) :
    Center N O :=
  match (s.items home).find? fun note => matchNotification mask pattern note.notification with
  | none => s
  | some note => { s with
      items := Function.update s.items home
        ((s.items home).eraseP fun note => matchNotification mask pattern note.notification)
      matched := s.matched ++ [⟨note, pattern, mask⟩] }

def dequeueNotificationMatching (s : Center N O) (queue : ℕ) (pattern : Notification N O) (mask : CoalesceMask) :
    Center N O :=
  if mask.onName || mask.onSender then
    removeFromArrayMatching (removeFromArrayMatching s (.asap, queue) pattern mask) (.idle, queue) pattern mask
  else s

def addToArray (s : Center N O) (home : Home) (notification : Notification N O) : Center N O :=
  let note : Note N O := ⟨s.next, home, notification⟩
  { s with
    items := Function.update s.items home (s.items home ++ [note])
    next := s.next + 1
    puts := s.puts ++ [note] }

def enqueueCoalesceNotification (s : Center N O) (queue : ℕ) (notification : Notification N O) (style : PostingStyle)
    (mask : CoalesceMask) : Center N O :=
  let s := if mask ≠ .none then dequeueNotificationMatching s queue notification mask else s
  match style with
  | .now => { s with frames := .post :: s.frames }
  | .asap => addToArray s (.asap, queue) notification
  | .whenIdle => addToArray s (.idle, queue) notification

/-- The list of queues starts with the one created last. -/
def flushNotificationQueue (s : Center N O) (kind : QueueKind) : Center N O :=
  if s.count = 0 then s else { s with frames := .flush (kind, s.count - 1) :: s.frames }

def Center.released (s : Center N O) : List ℕ :=
  s.matched.map (·.note.serial) ++ s.deleted.map Note.serial

/-- The loop tests the array of the queue: it posts the first item, or goes on to the next queue of the list. -/
def flushLook (s : Center N O) (home : Home) (frames : List (Frame N O)) : Center N O :=
  match s.items home with
  | [] => if home.2 = 0 then { s with frames := frames } else { s with frames := .flush (home.1, home.2 - 1) :: frames }
  | first :: _ => { s with
      frames := .posting home first :: frames
      posted := s.posted ++ [⟨first, first.serial ∈ s.released⟩] }

/-- The item that is at index 0 when the observers have returned is deleted; an assertion fails when there is none. -/
def flushDelete (s : Center N O) (home : Home) (frames : List (Frame N O)) : Center N O :=
  match s.items home with
  | [] => { s with frames := .flush home :: frames }
  | first :: rest => { s with
      items := Function.update s.items home rest
      frames := .flush home :: frames
      deleted := s.deleted ++ [first] }

/-- The code runs that is outside of every call, or an observer does. -/
def Center.calling (s : Center N O) : Bool :=
  match s.frames with
  | .flush _ :: _ => false
  | _ => true

def Center.step (s : Center N O) : CenterAction N O → Option (Center N O)
  | .createQueue => if s.calling then some { s with count := s.count + 1 } else none
  | .enqueueCoalesce queue notification style mask =>
    if s.calling && queue < s.count then some (enqueueCoalesceNotification s queue notification style mask) else none
  | .dequeueMatching queue notification mask =>
    if s.calling && queue < s.count then some (dequeueNotificationMatching s queue notification mask) else none
  | .flush kind => if s.calling then some (flushNotificationQueue s kind) else none
  | .look =>
    match s.frames with
    | .flush home :: frames => some (flushLook s home frames)
    | _ => none
  | .posted =>
    match s.frames with
    | .post :: frames => some { s with frames := frames }
    | .posting home _ :: frames => some (flushDelete s home frames)
    | _ => none

/-- Each notification that was put in a queue is still in it, was posted, once and in the order of the queue, or was
removed by what matches it; what is posted had not been released. -/
structure NothingLost (s : Center N O) : Prop where
  kept : ∀ note ∈ s.puts, note ∈ s.items note.home ∨ (∃ p ∈ s.posted, p.note = note) ∨ ∃ m ∈ s.matched, m.note = note
  once : (s.posted.map (·.note.serial)).Nodup
  ordered : ∀ home, ((s.posted.filter fun p => p.note.home = home).map (·.note.serial)).Pairwise (· < ·)
  matching : ∀ m ∈ s.matched, m.note ∈ s.puts ∧ matchNotification m.mask m.pattern m.note.notification = true
  owned : ∀ p ∈ s.posted, p.note ∈ s.puts ∧ p.afterRelease = false

def posting (frames : List (Frame N O)) : List (Note N O) :=
  frames.filterMap fun
    | .posting _ note => some note
    | _ => none

/-- The first item is not being posted when it is posted, and it is still the first, if there is one, when the
observers have returned. -/
def ActionKeeps (s : Center N O) : CenterAction N O → Prop
  | .look =>
    match s.frames with
    | .flush home :: _ => ∀ first ∈ (s.items home).head?, first ∉ posting s.frames
    | _ => True
  | .posted =>
    match s.frames with
    | .posting home note :: _ => ∀ first ∈ (s.items home).head?, first = note
    | _ => True
  | _ => True

instance (s : Center N O) (a : CenterAction N O) : Decidable (ActionKeeps s a) := by
  unfold ActionKeeps
  split <;> (try split) <;> infer_instance

end Model

section Steps

variable {N O : Type} {s : Center N O}

structure CenterInv [DecidableEq N] [DecidableEq O] (s : Center N O) : Prop extends NothingLost s where
  sorted : ∀ home, ((s.items home).map Note.serial).Pairwise (· < ·)
  homes : ∀ home, ∀ x ∈ s.items home, x.home = home ∧ x ∈ s.puts
  fresh : ∀ x ∈ s.puts, x.serial < s.next
  numbered : (s.puts.map Note.serial).Pairwise (· < ·)
  deletedPut : ∀ x ∈ s.deleted, x ∈ s.puts
  behind : ∀ p ∈ s.posted, ∀ x ∈ s.items p.note.home,
    p.note.serial < x.serial ∨ (p.note = x ∧ x ∈ posting s.frames)
  unreleased : ∀ home, ∀ x ∈ s.items home, x.serial ∉ s.released
  inFrames : ∀ home note, Frame.posting home note ∈ s.frames → note.home = home ∧ ∃ p ∈ s.posted, p.note = note

lemma mem_posting {frames : List (Frame N O)} {note : Note N O} :
    note ∈ posting frames ↔ ∃ home, Frame.posting home note ∈ frames := by
  simp only [posting, List.mem_filterMap]
  refine ⟨fun ⟨frame, hf, he⟩ => ?_, fun ⟨home, hf⟩ => ⟨_, hf, rfl⟩⟩
  cases frame with
  | post => cases he
  | flush home => cases he
  | posting home n =>
    obtain rfl := Option.some.inj he
    exact ⟨home, hf⟩

lemma find?_eraseP {A : Type} {p : A → Bool} {l : List A} {a : A} (h : l.find? p = some a) :
    p a = true ∧ ∃ pre post, l = pre ++ a :: post ∧ l.eraseP p = pre ++ post := by
  induction l with
  | nil => cases h
  | cons b l ih =>
    rw [List.find?_cons] at h
    cases hb : p b with
    | true =>
      rw [hb] at h
      obtain rfl := Option.some.inj h
      exact ⟨hb, [], l, rfl, by rw [List.eraseP_cons_of_pos hb]; rfl⟩
    | false =>
      rw [hb] at h
      obtain ⟨ha, pre, post, rfl, he⟩ := ih h
      exact ⟨ha, b :: pre, post, rfl, by rw [List.eraseP_cons_of_neg (by simp [hb]), he]; rfl⟩

variable [DecidableEq N] [DecidableEq O]

lemma CenterInv.note_ext (h : CenterInv s) {x y : Note N O} (hx : x ∈ s.puts) (hy : y ∈ s.puts)
    (he : x.serial = y.serial) : x = y := by
  have hn := h.numbered.imp fun hlt => (ne_of_lt hlt)
  exact List.inj_on_of_nodup_map hn hx hy he

lemma initial_inv : CenterInv (Center.initial : Center N O) := by
  refine ⟨⟨?_, ?_, ?_, ?_, ?_⟩, ?_, ?_, ?_, ?_, ?_, ?_, ?_, ?_⟩ <;> simp [Center.initial]

lemma CenterInv.frames (h : CenterInv s) {frames : List (Frame N O)} (count : ℕ)
    (hf : ∀ home note, Frame.posting home note ∈ frames ↔ Frame.posting home note ∈ s.frames) :
    CenterInv { s with count := count, frames := frames } := by
  refine ⟨⟨h.kept, h.once, h.ordered, h.matching, h.owned⟩, h.sorted, h.homes, h.fresh, h.numbered, h.deletedPut,
    fun p hp x hx => ?_, h.unreleased, fun home note hm => h.inFrames home note ((hf home note).mp hm)⟩
  refine (h.behind p hp x hx).imp_right fun ⟨he, hm⟩ => ⟨he, ?_⟩
  obtain ⟨home, hframe⟩ := mem_posting.mp hm
  exact mem_posting.mpr ⟨home, (hf home x).mpr hframe⟩

lemma CenterInv.left (h : CenterInv s) {home : Home} {y : Note N O} {pre post : List (Note N O)}
    (hl : s.items home = pre ++ y :: post) (other : Home) :
    ∀ x ∈ Function.update s.items home (pre ++ post) other, x ∈ s.items other ∧ x.serial ≠ y.serial := by
  intro x hx
  have hy := h.homes home y (by simp [hl])
  by_cases ho : other = home
  · subst ho
    rw [Function.update_self] at hx
    have hs := h.sorted other
    rw [hl, List.map_append, List.map_cons, List.pairwise_append, List.pairwise_cons] at hs
    obtain ⟨-, ⟨hpost, -⟩, hpre⟩ := hs
    rw [hl]
    rcases List.mem_append.mp hx with hx | hx
    · have := hpre _ (List.mem_map_of_mem hx) y.serial (by simp)
      exact ⟨by simp [hx], by omega⟩
    · have := hpost _ (List.mem_map_of_mem hx)
      exact ⟨by simp [hx], by omega⟩
  · rw [Function.update_of_ne ho] at hx
    refine ⟨hx, fun he => ho ?_⟩
    obtain ⟨hhome, hput⟩ := h.homes other x hx
    rw [← hhome, h.note_ext hput hy.2 he, hy.1]

lemma CenterInv.sorted_left (h : CenterInv s) {home : Home} {y : Note N O} {pre post : List (Note N O)}
    (hl : s.items home = pre ++ y :: post) (other : Home) :
    ((Function.update s.items home (pre ++ post) other).map Note.serial).Pairwise (· < ·) := by
  by_cases ho : other = home
  · subst ho
    rw [Function.update_self]
    refine (h.sorted other).sublist ?_
    rw [hl]
    exact ((List.sublist_cons_self y post).append_left pre).map Note.serial
  · rw [Function.update_of_ne ho]
    exact h.sorted other

lemma CenterInv.kept_left (h : CenterInv s) {home : Home} {y : Note N O} {pre post : List (Note N O)}
    (hl : s.items home = pre ++ y :: post) {x : Note N O} (hx : x ∈ s.items x.home) (hne : x ≠ y) :
    x ∈ Function.update s.items home (pre ++ post) x.home := by
  by_cases ho : x.home = home
  · rw [ho, Function.update_self]
    rw [ho, hl] at hx
    rcases List.mem_append.mp hx with hx | hx
    · exact List.mem_append_left _ hx
    · exact List.mem_append_right _ ((List.mem_cons.mp hx).resolve_left hne)
  · rwa [Function.update_of_ne ho]

lemma removeFromArrayMatching_inv (h : CenterInv s) (home : Home) (pattern : Notification N O) (mask : CoalesceMask) :
    CenterInv (removeFromArrayMatching s home pattern mask) := by
  rw [removeFromArrayMatching]
  split
  · exact h
  · next y hfind =>
    obtain ⟨hmatch, pre, post, hl, herase⟩ := find?_eraseP hfind
    rw [herase]
    have hy := h.homes home y (by simp [hl])
    have hleft := h.left hl
    refine ⟨⟨fun x hx => ?_, h.once, h.ordered, fun m hm => ?_, h.owned⟩, h.sorted_left hl, fun other x hx =>
      h.homes other x (hleft other x hx).1, h.fresh, h.numbered, h.deletedPut, fun p hp x hx =>
      h.behind p hp x (hleft _ x hx).1, fun other x hx => ?_, h.inFrames⟩
    · rcases h.kept x hx with hi | hp | ⟨m, hm, he⟩
      · by_cases hxy : x = y
        · exact .inr (.inr ⟨⟨y, pattern, mask⟩, by simp, hxy.symm⟩)
        · exact .inl (h.kept_left hl hi hxy)
      · exact .inr (.inl hp)
      · exact .inr (.inr ⟨m, List.mem_append_left _ hm, he⟩)
    · rcases List.mem_append.mp hm with hm | hm
      · exact h.matching m hm
      · obtain rfl := List.mem_singleton.mp hm
        exact ⟨hy.2, hmatch⟩
    · obtain ⟨hold, hne⟩ := hleft other x hx
      have hun := h.unreleased other x hold
      simp only [Center.released, List.map_append, List.mem_append, List.map_cons, List.map_nil,
        List.mem_singleton, not_or] at hun ⊢
      exact ⟨⟨hun.1, hne⟩, hun.2⟩

lemma dequeueNotificationMatching_inv (h : CenterInv s) (queue : ℕ) (pattern : Notification N O)
    (mask : CoalesceMask) : CenterInv (dequeueNotificationMatching s queue pattern mask) := by
  rw [dequeueNotificationMatching]
  split
  · exact removeFromArrayMatching_inv (removeFromArrayMatching_inv h _ _ _) _ _ _
  · exact h

lemma CenterInv.released_lt (h : CenterInv s) : ∀ n ∈ s.released, n < s.next := by
  intro n hn
  rcases List.mem_append.mp hn with hn | hn
  · obtain ⟨m, hm, rfl⟩ := List.mem_map.mp hn
    exact h.fresh _ (h.matching m hm).1
  · obtain ⟨x, hx, rfl⟩ := List.mem_map.mp hn
    exact h.fresh _ (h.deletedPut x hx)

lemma addToArray_items (home : Home) (notification : Notification N O) (other : Home) :
    (addToArray s home notification).items other =
      Function.update s.items home (s.items home ++ [⟨s.next, home, notification⟩]) other := rfl

lemma addToArray_inv (h : CenterInv s) (home : Home) (notification : Notification N O) :
    CenterInv (addToArray s home notification) := by
  have hitems : ∀ other, ∀ x ∈ Function.update s.items home (s.items home ++ [⟨s.next, home, notification⟩]) other,
      x ∈ s.items other ∨ (other = home ∧ x = ⟨s.next, home, notification⟩) := by
    intro other x hx
    by_cases ho : other = home
    · subst ho
      rw [Function.update_self] at hx
      rcases List.mem_append.mp hx with hx | hx
      · exact .inl hx
      · exact .inr ⟨rfl, List.mem_singleton.mp hx⟩
    · rw [Function.update_of_ne ho] at hx
      exact .inl hx
  refine ⟨⟨fun x hx => ?_, h.once, h.ordered, fun m hm => ?_, fun p hp => ?_⟩, fun other => ?_, fun other x hx => ?_,
    fun x hx => ?_, ?_, fun x hx => List.mem_append_left _ (h.deletedPut x hx), fun p hp x hx => ?_,
    fun other x hx => ?_, h.inFrames⟩
  · rcases List.mem_append.mp hx with hx | hx
    · refine (h.kept x hx).imp_left fun hi => ?_
      by_cases ho : x.home = home
      · rw [addToArray_items, ho, Function.update_self]
        exact List.mem_append_left _ (ho ▸ hi)
      · rwa [addToArray_items, Function.update_of_ne ho]
    · obtain rfl := List.mem_singleton.mp hx
      refine .inl ?_
      rw [addToArray_items, Function.update_self]
      exact List.mem_append_right _ (by simp)
  · exact ⟨List.mem_append_left _ (h.matching m hm).1, (h.matching m hm).2⟩
  · exact ⟨List.mem_append_left _ (h.owned p hp).1, (h.owned p hp).2⟩
  · by_cases ho : other = home
    · subst ho
      rw [addToArray_items, Function.update_self, List.map_append, List.pairwise_append]
      refine ⟨h.sorted other, by simp, fun a ha b hb => ?_⟩
      obtain ⟨x, hx, rfl⟩ := List.mem_map.mp ha
      obtain rfl := List.mem_singleton.mp hb
      exact h.fresh x (h.homes other x hx).2
    · rw [addToArray_items, Function.update_of_ne ho]
      exact h.sorted other
  · rcases hitems other x hx with hx | ⟨rfl, rfl⟩
    · exact ⟨(h.homes other x hx).1, List.mem_append_left _ (h.homes other x hx).2⟩
    · exact ⟨rfl, List.mem_append_right _ (by simp)⟩
  · rcases List.mem_append.mp hx with hx | hx
    · exact (h.fresh x hx).trans (Nat.lt_succ_self _)
    · obtain rfl := List.mem_singleton.mp hx
      exact Nat.lt_succ_self _
  · rw [addToArray, List.map_append, List.pairwise_append]
    refine ⟨h.numbered, by simp, fun a ha b hb => ?_⟩
    obtain ⟨x, hx, rfl⟩ := List.mem_map.mp ha
    obtain rfl := List.mem_singleton.mp hb
    exact h.fresh x hx
  · rcases hitems _ x hx with hx | ⟨-, rfl⟩
    · exact h.behind p hp x hx
    · exact .inl (h.fresh _ (h.owned p hp).1)
  · rcases hitems other x hx with hx | ⟨-, rfl⟩
    · exact h.unreleased other x hx
    · exact fun hr => absurd (h.released_lt _ hr) (Nat.lt_irrefl _)

lemma enqueueCoalesceNotification_inv (h : CenterInv s) (queue : ℕ) (notification : Notification N O)
    (style : PostingStyle) (mask : CoalesceMask) :
    CenterInv (enqueueCoalesceNotification s queue notification style mask) := by
  have hdequeued : CenterInv
      (if mask ≠ .none then dequeueNotificationMatching s queue notification mask else s) := by
    split
    · exact dequeueNotificationMatching_inv h queue notification mask
    · exact h
  cases style with
  | now => exact hdequeued.frames _ fun home note => by simp
  | asap => exact addToArray_inv hdequeued _ _
  | whenIdle => exact addToArray_inv hdequeued _ _

lemma flushDelete_inv (h : CenterInv s) {home : Home} {note : Note N O} {frames : List (Frame N O)}
    (hf : s.frames = .posting home note :: frames) (hk : ∀ first ∈ (s.items home).head?, first = note) :
    CenterInv (flushDelete s home frames) := by
  obtain ⟨hhome, p, hp, hpost⟩ := h.inFrames home note (by simp [hf])
  have hframes : ∀ other x, Frame.posting other x ∈ Frame.flush home :: frames → Frame.posting other x ∈ s.frames := by
    intro other x hx
    rw [hf]
    exact List.mem_cons_of_mem _ ((List.mem_cons.mp hx).resolve_left (by simp))
  have hposting : ∀ x ∈ posting s.frames, x ≠ note → x ∈ posting (.flush home :: frames) := by
    intro x hx hne
    obtain ⟨other, hm⟩ := mem_posting.mp hx
    rw [hf] at hm
    refine mem_posting.mpr ⟨other, List.mem_cons_of_mem _ ((List.mem_cons.mp hm).resolve_left fun he => hne ?_)⟩
    cases he
    rfl
  rw [flushDelete]
  split
  · next hitems =>
    refine ⟨⟨h.kept, h.once, h.ordered, h.matching, h.owned⟩, h.sorted, h.homes, h.fresh, h.numbered, h.deletedPut,
      fun q hq x hx => ?_, h.unreleased, fun other x hm => h.inFrames other x (hframes other x hm)⟩
    refine (h.behind q hq x hx).imp_right fun ⟨he, hm⟩ => ⟨he, hposting x hm fun hxn => ?_⟩
    have hx' : x ∈ s.items q.note.home := hx
    rw [he, hxn, hhome, hitems] at hx'
    exact absurd hx' List.not_mem_nil
  · next first rest hitems =>
    have hfirst : first = note := hk first (by rw [hitems]; rfl)
    subst hfirst
    have hl : s.items home = [] ++ first :: rest := hitems
    have hleft := h.left hl
    have hput := (h.homes home first (by simp [hitems])).2
    refine ⟨⟨fun x hx => ?_, h.once, h.ordered, h.matching, h.owned⟩, h.sorted_left hl, fun other x hx =>
      h.homes other x (hleft other x hx).1, h.fresh, h.numbered, fun x hx => ?_, fun q hq x hx => ?_,
      fun other x hx => ?_, fun other x hm => h.inFrames other x (hframes other x hm)⟩
    · rcases h.kept x hx with hi | hq | hm
      · by_cases hxf : x = first
        · exact .inr (.inl ⟨p, hp, hpost.trans hxf.symm⟩)
        · exact .inl (h.kept_left hl hi hxf)
      · exact .inr (.inl hq)
      · exact .inr (.inr hm)
    · rcases List.mem_append.mp hx with hx | hx
      · exact h.deletedPut x hx
      · obtain rfl := List.mem_singleton.mp hx
        exact hput
    · obtain ⟨hold, hne⟩ := hleft _ x hx
      exact (h.behind q hq x hold).imp_right fun ⟨he, hm⟩ => ⟨he, hposting x hm fun hxf => hne (by rw [hxf])⟩
    · obtain ⟨hold, hne⟩ := hleft other x hx
      have hun := h.unreleased other x hold
      simp only [Center.released, List.map_append, List.mem_append, List.map_cons, List.map_nil,
        List.mem_singleton, not_or] at hun ⊢
      exact ⟨hun.1, hun.2, hne⟩

lemma flushLook_inv (h : CenterInv s) {home : Home} {frames : List (Frame N O)}
    (hf : s.frames = .flush home :: frames) (hk : ∀ first ∈ (s.items home).head?, first ∉ posting s.frames) :
    CenterInv (flushLook s home frames) := by
  rw [flushLook]
  split
  · split
    · exact h.frames _ fun other note => by simp [hf]
    · exact h.frames _ fun other note => by simp [hf]
  · next first rest hitems =>
    have hmem : first ∈ s.items home := by simp [hitems]
    obtain ⟨hhome, hput⟩ := h.homes home first hmem
    have hnot : first ∉ posting s.frames := hk first (by rw [hitems]; rfl)
    have hfirst : ∀ p ∈ s.posted, p.note.home = home → p.note.serial < first.serial := fun p hp hph =>
      (h.behind p hp first (hph ▸ hmem)).resolve_right fun ⟨_, hm⟩ => hnot hm
    have hposting : ∀ x ∈ posting s.frames, x ∈ posting (.posting home first :: frames) := by
      intro x hx
      obtain ⟨other, hm⟩ := mem_posting.mp hx
      rw [hf] at hm
      exact mem_posting.mpr ⟨other, List.mem_cons_of_mem _ ((List.mem_cons.mp hm).resolve_left (by simp))⟩
    refine ⟨⟨fun x hx => ?_, ?_, fun other => ?_, h.matching, fun p hp => ?_⟩, h.sorted, h.homes, h.fresh, h.numbered,
      h.deletedPut, fun p hp x hx => ?_, h.unreleased, fun other x hm => ?_⟩
    · rcases h.kept x hx with hi | ⟨p, hp, he⟩ | hm
      · exact .inl hi
      · exact .inr (.inl ⟨p, List.mem_append_left _ hp, he⟩)
      · exact .inr (.inr hm)
    · rw [List.map_append, List.nodup_append]
      refine ⟨h.once, by simp, fun a ha b hb => ?_⟩
      obtain ⟨p, hp, rfl⟩ := List.mem_map.mp ha
      obtain rfl := List.mem_singleton.mp hb
      intro he
      have heq := h.note_ext (h.owned p hp).1 hput he
      exact absurd (hfirst p hp (by rw [heq, hhome])) (by rw [he]; exact Nat.lt_irrefl _)
    · rw [List.filter_append, List.map_append, List.pairwise_append]
      refine ⟨h.ordered other, ?_, fun a ha b hb => ?_⟩
      · simp only [List.filter_cons, List.filter_nil]
        split <;> simp
      · obtain ⟨p, hp, rfl⟩ := List.mem_map.mp ha
        obtain ⟨q, hq, rfl⟩ := List.mem_map.mp hb
        obtain ⟨hp, hph⟩ := List.mem_filter.mp hp
        obtain ⟨hq, hqh⟩ := List.mem_filter.mp hq
        obtain rfl := List.mem_singleton.mp hq
        simp only [decide_eq_true_eq] at hph hqh
        exact hfirst p hp (by rw [hph, ← hqh, hhome])
    · rcases List.mem_append.mp hp with hp | hp
      · exact h.owned p hp
      · obtain rfl := List.mem_singleton.mp hp
        exact ⟨hput, decide_eq_false (h.unreleased home first hmem)⟩
    · rcases List.mem_append.mp hp with hp | hp
      · exact (h.behind p hp x hx).imp_right fun ⟨he, hm⟩ => ⟨he, hposting x hm⟩
      · obtain rfl := List.mem_singleton.mp hp
        have hx : x ∈ s.items first.home := hx
        have hs := h.sorted home
        rw [hhome, hitems] at hx
        rw [hitems, List.map_cons, List.pairwise_cons] at hs
        rcases List.mem_cons.mp hx with rfl | hx
        · exact .inr ⟨rfl, mem_posting.mpr ⟨home, by simp⟩⟩
        · exact .inl (hs.1 _ (List.mem_map_of_mem hx))
    · rcases List.mem_cons.mp hm with hm | hm
      · cases hm
        exact ⟨hhome, ⟨first, first.serial ∈ s.released⟩, List.mem_append_right _ (by simp), rfl⟩
      · obtain ⟨hh, p, hp, he⟩ := h.inFrames other x (by rw [hf]; exact List.mem_cons_of_mem _ hm)
        exact ⟨hh, p, List.mem_append_left _ hp, he⟩

lemma centerStep_inv (s : Center N O) (a : CenterAction N O) (h : CenterInv s) (hk : ActionKeeps s a) :
    ∀ t ∈ s.step a, CenterInv t := by
  intro t ht
  rw [Option.mem_def, Center.step.eq_def] at ht
  cases a with
  | createQueue =>
    obtain ⟨-, ht⟩ := Option.ite_none_right_eq_some.mp ht
    obtain rfl := Option.some.inj ht
    exact h.frames _ fun home note => Iff.rfl
  | enqueueCoalesce queue notification style mask =>
    obtain ⟨-, ht⟩ := Option.ite_none_right_eq_some.mp ht
    obtain rfl := Option.some.inj ht
    exact enqueueCoalesceNotification_inv h queue notification style mask
  | dequeueMatching queue notification mask =>
    obtain ⟨-, ht⟩ := Option.ite_none_right_eq_some.mp ht
    obtain rfl := Option.some.inj ht
    exact dequeueNotificationMatching_inv h queue notification mask
  | flush kind =>
    obtain ⟨-, ht⟩ := Option.ite_none_right_eq_some.mp ht
    obtain rfl := Option.some.inj ht
    rw [flushNotificationQueue]
    split
    · exact h
    · exact h.frames _ fun home note => by simp
  | look =>
    simp only at ht
    split at ht
    · next home frames hf =>
      obtain rfl := Option.some.inj ht
      rw [ActionKeeps] at hk
      simp only [hf] at hk
      exact flushLook_inv h hf (by rwa [hf])
    · cases ht
  | posted =>
    simp only at ht
    split at ht
    · next frames hf =>
      obtain rfl := Option.some.inj ht
      exact h.frames _ fun home note => by simp [hf]
    · next home note frames hf =>
      obtain rfl := Option.some.inj ht
      rw [ActionKeeps] at hk
      simp only [hf] at hk
      exact flushDelete_inv h hf hk
    · cases ht

end Steps

section Runs

variable {N O : Type} [DecidableEq N] [DecidableEq O]

theorem run_nothingLost (actions : List (CenterAction N O))
    (h : Admits Center.step ActionKeeps (Center.initial : Center N O) actions) :
    ∀ s ∈ tryRun Center.step (Center.initial : Center N O) actions, NothingLost s :=
  fun s hs => (tryRun_invariant centerStep_inv initial_inv h s hs).toNothingLost

/-- An observer enqueues a notification of the same sender while the second of two is waiting in the idle queue. -/
def idleActions : List (CenterAction ℕ ℕ) :=
  [.createQueue, .enqueueCoalesce 0 ⟨1, 1⟩ .asap .none, .flush .asap, .look,
    .enqueueCoalesce 0 ⟨1, 2⟩ .whenIdle ⟨true, true⟩, .posted, .look, .flush .idle, .look]

theorem run_nothingLost_idle : Ensures (tryRun Center.step (Center.initial : Center ℕ ℕ) idleActions) NothingLost := by
  have hrun : (tryRun Center.step (Center.initial : Center ℕ ℕ) idleActions).isSome = true := by decide
  obtain ⟨s, hs⟩ := Option.isSome_iff_exists.mp hrun
  exact ⟨s, hs, run_nothingLost idleActions (by decide) s hs⟩

/-- Two notifications wait; the observer of the first enqueues one of the same name and sender, which takes the place
of the first, and the second is deleted without having been posted. -/
def coalescedActions : List (CenterAction ℕ ℕ) :=
  [.createQueue, .enqueueCoalesce 0 ⟨1, 1⟩ .asap .none, .enqueueCoalesce 0 ⟨2, 1⟩ .asap .none, .flush .asap, .look,
    .enqueueCoalesce 0 ⟨1, 1⟩ .asap ⟨true, true⟩, .posted]

theorem coalesced_lost : ∃ s ∈ tryRun Center.step (Center.initial : Center ℕ ℕ) coalescedActions, ¬NothingLost s := by
  refine ⟨_, rfl, fun h => ?_⟩
  have hkept := h.kept ⟨1, (.asap, 0), ⟨2, 1⟩⟩ (by decide)
  exact absurd hkept (by decide)

end Runs

end Xperimentum.WMcore
