import Mathlib.Tactic
import Xperimentum.Lib.Partial
import Xperimentum.Pantomime.IMAPStore

/-! Progress of the command queue: commands go out in the order they came in, one at a time, and a tagged
reply removes its command and sends the next one. -/

namespace Xperimentum.Pantomime.IMAPStore

open Xperimentum.Lib.Partial

variable {s t : Store} {sends : Sends}

/-- The completed commands, then the one in flight, are what has been written; those and the rest of the
queue are what was enqueued. -/
def Progress (s : Store) : Prop :=
  ∃ completed, s.enqueued = completed ++ s.queue.reverse ∧ s.written = completed ++ s.queue.reverse.take 1

lemma progress_emptyQueue (completed : List QueueObject) (he : s.enqueued = completed ++ s.queue.reverse)
    (hw : s.written = completed) : Progress (emptyQueue s) := by
  rcases List.eq_nil_or_concat s.queue with hq | ⟨init, q, hq⟩
  · refine ⟨completed, ?_, ?_⟩
    · simpa [emptyQueue, hq] using he
    · simpa [emptyQueue, hq] using hw
  · rw [List.concat_eq_append] at hq
    refine ⟨completed, ?_, ?_⟩
    · simpa [emptyQueue, writeCurrent, hq] using he
    · simp [emptyQueue, writeCurrent, hq, hw]

lemma sendCommand_progress (hs : Progress s) (command : IMAPCommand) (arguments : String) :
    Progress (sendCommand command arguments s) := by
  obtain ⟨completed, he, hw⟩ := hs
  simp only [sendCommand]
  split_ifs with hdup hbusy
  · exact ⟨completed, he, hw⟩
  · refine ⟨completed, by simp [he], ?_⟩
    have hne : s.queue.reverse ≠ [] := by
      rintro hnil
      simp [List.reverse_eq_nil_iff.mp hnil] at hbusy
    obtain ⟨q, rest, hq⟩ := List.exists_cons_of_ne_nil hne
    simp [hw, hq]
  · have hnil : s.queue = [] := by
      cases hq : s.queue with
      | nil => rfl
      | cons q rest => simp [hq] at hbusy
    refine ⟨completed, ?_, ?_⟩
    · simp [writeCurrent, he, hnil]
    · simp [writeCurrent, hw, hnil]

/-- Everything but new commands at the head of the queue is the same in both states. -/
structure Extends (s t : Store) : Prop where
  queue : ∃ sent, t.queue = sent ++ s.queue
  reconnecting : t.reconnecting = s.reconnecting

lemma Extends.refl (s : Store) : Extends s s := ⟨⟨[], rfl⟩, rfl⟩

lemma Extends.trans {u : Store} (h : Extends s t) (h' : Extends t u) : Extends s u := by
  obtain ⟨a, ha⟩ := h.queue
  obtain ⟨b, hb⟩ := h'.queue
  exact ⟨⟨b ++ a, by rw [hb, ha, List.append_assoc]⟩, h'.reconnecting.trans h.reconnecting⟩

lemma sendCommand_extends (command : IMAPCommand) (arguments : String) (s : Store) :
    Extends s (sendCommand command arguments s) := by
  simp only [sendCommand]
  split_ifs
  · exact Extends.refl s
  · exact ⟨⟨[_], rfl⟩, rfl⟩
  · exact ⟨⟨[_], rfl⟩, rfl⟩

/-- What a piece of the code that only sends keeps. -/
structure Sending (s t : Store) : Prop extends Extends s t where
  progress : Progress s → Progress t

lemma Sending.refl (s : Store) : Sending s s := ⟨Extends.refl s, id⟩

lemma Sending.trans {u : Store} (h : Sending s t) (h' : Sending t u) : Sending s u :=
  ⟨h.toExtends.trans h'.toExtends, fun hp => h'.progress (h.progress hp)⟩

lemma sendCommand_sending (command : IMAPCommand) (arguments : String) (s : Store) :
    Sending s (sendCommand command arguments s) :=
  ⟨sendCommand_extends command arguments s, fun hp => sendCommand_progress hp command arguments⟩

lemma sendAll_sending (sends : Sends) (s : Store) : Sending s (sendAll sends s) := by
  induction sends generalizing s with
  | nil => exact Sending.refl s
  | cons c sends ih => exact (sendCommand_sending c.1 c.2 s).trans (ih _)

lemma greeting_sending (s : Store) : Sending s (greeting s) := by
  simp only [greeting]
  split_ifs
  · obtain ⟨he, hp⟩ := sendCommand_sending .capability "CAPABILITY" s
    exact ⟨⟨he.queue, he.reconnecting⟩, hp⟩
  · exact Sending.refl s

lemma parseCAPABILITY_sending (s : Store) : Sending s (parseCAPABILITY s) := by
  simp only [parseCAPABILITY, authenticate]
  split_ifs
  · split
    all_goals apply sendCommand_sending
  · exact Sending.refl s

lemma parseSEARCHCACHE_sending (s : Store) : Sending s (parseSEARCHCACHE s) := by
  simp only [parseSEARCHCACHE]
  split
  case h_5 => exact Sending.refl s
  all_goals apply sendCommand_sending

lemma parseEXISTS_sending (n : ℕ) (s : Store) : Sending s (parseEXISTS n s) := by
  simp only [parseEXISTS]
  split
  · split_ifs
    · apply sendCommand_sending
    · exact Sending.refl s
  · exact Sending.refl s

lemma okCase_sending (hr : s.reconnecting = false) : Sending s (okCase s) := by
  have hnot : ¬s.reconnecting = true := ne_true_of_eq_false hr
  simp only [okCase, loggedIn, if_neg hnot]
  split
  all_goals exact ⟨⟨⟨[], rfl⟩, rfl⟩, id⟩

lemma noCase_sending (s : Store) : Sending s (noCase s) := by
  simp only [noCase]
  split
  all_goals exact ⟨⟨⟨[], rfl⟩, rfl⟩, id⟩

lemma emptyQueue_queue (s : Store) : (emptyQueue s).queue = s.queue := by
  simp only [emptyQueue]
  split <;> rfl

lemma emptyQueue_reconnecting (s : Store) : (emptyQueue s).reconnecting = s.reconnecting := by
  simp only [emptyQueue]
  split <;> rfl

/-- A tagged reply to a command in flight takes that command, the last of the queue, off it. -/
structure Removes (s t : Store) : Prop where
  queue : s.queue ≠ [] → ∃ sent, t.queue = sent ++ s.queue.dropLast
  reconnecting : t.reconnecting = s.reconnecting

lemma Extends.dropLast (h : Extends s t) (hs : s.queue ≠ []) :
    ∃ sent, t.queue.dropLast = sent ++ s.queue.dropLast := by
  obtain ⟨sent, hq⟩ := h.queue
  exact ⟨sent, by rw [hq, List.dropLast_append_of_ne_nil hs]⟩

lemma Extends.ne_nil (h : Extends s t) (hs : s.queue ≠ []) : t.queue ≠ [] := by
  obtain ⟨sent, hq⟩ := h.queue
  rw [hq]
  exact List.append_ne_nil_of_right_ne_nil sent hs

/-- `removeLastObject` and the dequeuing after it. -/
def dequeue (s : Store) : Store := { emptyQueue { s with queue := s.queue.dropLast } with responses := [] }

lemma dequeue_progress (hs : Progress s) (hq : s.queue ≠ []) : Progress (dequeue s) := by
  obtain ⟨completed, he, hw⟩ := hs
  have hsplit := List.dropLast_append_getLast hq
  have hrev : s.queue.reverse = s.queue.getLast hq :: s.queue.dropLast.reverse := by
    conv_lhs => rw [← hsplit]
    simp
  have hp : Progress (emptyQueue { s with queue := s.queue.dropLast }) := by
    refine progress_emptyQueue (completed ++ [s.queue.getLast hq]) ?_ ?_
    · rw [he, hrev]
      simp
    · rw [hw, hrev]
      simp
  exact hp

lemma dequeue_queue (s : Store) : (dequeue s).queue = s.queue.dropLast := emptyQueue_queue _

lemma dequeue_reconnecting (s : Store) : (dequeue s).reconnecting = s.reconnecting := emptyQueue_reconnecting _

lemma dequeue_removes {u : Store} (h : Extends s u) : Removes s (dequeue u) := by
  refine ⟨fun hs => ?_, (dequeue_reconnecting u).trans h.reconnecting⟩
  rw [dequeue_queue]
  exact h.dropLast hs

lemma complete_cases {u : Store} (h : Sending s u) (ht : t ∈ complete sends u) (hs : Progress s) :
    Progress t ∧ Removes s t := by
  simp only [complete] at ht
  cases hc : u.currentQueueObject with
  | none => simp [hc] at ht
  | some q =>
    have hsend := h.trans (sendAll_sending sends u)
    simp only [hc] at ht
    split_ifs at ht with hnil
    · obtain rfl := Option.some.inj ht
      refine ⟨hsend.progress hs, fun hne => ?_, hsend.reconnecting⟩
      exact absurd hnil (hsend.ne_nil hne)
    · obtain rfl := Option.some.inj ht
      exact ⟨dequeue_progress (hsend.progress hs) hnil, dequeue_removes hsend.toExtends⟩

/-- A `BAD` reply stops the queue unless it answers `LOGIN` or nothing else is queued. -/
def BADStops (s : Store) : Prop := s.lastCommand ≠ .login ∧ 1 < s.queue.length

instance (s : Store) : Decidable (BADStops s) := inferInstanceAs (Decidable (_ ∧ _))

lemma parseBAD_removes (sends : Sends) (s : Store) : Removes s (parseBAD sends s) := by
  have hsend := sendAll_sending sends s
  simp only [parseBAD]
  split_ifs with hlogin hnil hempty
  · exact ⟨fun hne => absurd hnil (hsend.ne_nil hne), hsend.reconnecting⟩
  · exact dequeue_removes hsend.toExtends
  · exact ⟨fun hne => absurd hempty hne, rfl⟩
  · exact ⟨fun _ => ⟨[], rfl⟩, rfl⟩

lemma parseBAD_progress (hs : Progress s) (hb : ¬BADStops s) (sends : Sends) : Progress (parseBAD sends s) := by
  have hsend := sendAll_sending sends s
  simp only [parseBAD]
  split_ifs with hlogin hnil hempty
  · exact hsend.progress hs
  · exact dequeue_progress (hsend.progress hs) hnil
  · exact hs
  · have hone : s.queue.length = 1 := by
      have hpos := List.length_pos_of_ne_nil hempty
      have hle : ¬1 < s.queue.length := fun hlt => hb ⟨hlogin, hlt⟩
      omega
    obtain ⟨q, hq⟩ := List.length_eq_one_iff.mp hone
    obtain ⟨completed, he, hw⟩ := hs
    refine ⟨completed ++ [q], ?_, ?_⟩
    · simpa [hq] using he
    · simpa [hq] using hw

inductive Event
  | sendCommand (command : IMAPCommand) (arguments : String)
  | selectFolder (folder : Option IMAPFolder)
  | greeting
  | capability
  | searchCache
  | existsResponse (n : ℕ)
  | ok (sends : Sends)
  | no (sends : Sends)
  | bad (sends : Sends)
  deriving DecidableEq, Repr

def Event.IsTagged : Event → Prop
  | .ok _ | .no _ | .bad _ => True
  | _ => False

def step (s : Store) : Event → Option Store
  | .sendCommand command arguments => some (IMAPStore.sendCommand command arguments s)
  | .selectFolder folder => some { s with selectedFolder := folder }
  | .greeting => some (IMAPStore.greeting s)
  | .capability => some (parseCAPABILITY s)
  | .searchCache => some (parseSEARCHCACHE s)
  | .existsResponse n => some (parseEXISTS n s)
  | .ok sends => parseOK sends s
  | .no sends => parseNO sends s
  | .bad sends => some (parseBAD sends s)

def Admitted (s : Store) : Event → Prop
  | .bad _ => ¬BADStops s
  | _ => True

instance (s : Store) : ∀ e, Decidable (Admitted s e)
  | .bad _ => inferInstanceAs (Decidable (¬_))
  | .sendCommand _ _ | .selectFolder _ | .greeting | .capability | .searchCache | .existsResponse _ | .ok _
  | .no _ => inferInstanceAs (Decidable True)

def initial (mechanism : Mechanism) (loginArguments : String) : Store :=
  { mechanism := mechanism, loginArguments := loginArguments }

structure Running (s : Store) : Prop where
  progress : Progress s
  reconnecting : s.reconnecting = false

lemma Sending.running (h : Sending s t) (hs : Running s) : Running t :=
  ⟨h.progress hs.progress, h.reconnecting.trans hs.reconnecting⟩

lemma step_running (s : Store) (e : Event) (hs : Running s) (he : Admitted s e) : ∀ t ∈ step s e, Running t := by
  intro t ht
  have hsent : ∀ u, some u = some t → Sending s u → Running t := by
    rintro u hu h
    obtain rfl := Option.some.inj hu
    exact h.running hs
  have hreplied : Progress t ∧ Removes s t → Running t := fun h => ⟨h.1, h.2.reconnecting.trans hs.reconnecting⟩
  cases e with
  | sendCommand command arguments => exact hsent _ ht (sendCommand_sending command arguments s)
  | selectFolder folder => exact hsent _ ht ⟨⟨⟨[], rfl⟩, rfl⟩, id⟩
  | greeting => exact hsent _ ht (greeting_sending s)
  | capability => exact hsent _ ht (parseCAPABILITY_sending s)
  | searchCache => exact hsent _ ht (parseSEARCHCACHE_sending s)
  | existsResponse n => exact hsent _ ht (parseEXISTS_sending n s)
  | ok sends => exact hreplied (complete_cases (okCase_sending hs.reconnecting) ht hs.progress)
  | no sends => exact hreplied (complete_cases (noCase_sending s) ht hs.progress)
  | bad sends =>
    obtain rfl := Option.some.inj ht
    exact hreplied ⟨parseBAD_progress hs.progress he sends, parseBAD_removes sends s⟩

lemma step_removes (hs : Running s) {e : Event} (he : e.IsTagged) (ht : t ∈ step s e) : Removes s t := by
  cases e with
  | ok sends => exact (complete_cases (okCase_sending hs.reconnecting) ht hs.progress).2
  | no sends => exact (complete_cases (noCase_sending s) ht hs.progress).2
  | bad sends =>
    obtain rfl := Option.some.inj ht
    exact parseBAD_removes sends s
  | _ => exact he.elim

def session : List Event :=
  [.greeting, .capability, .ok [(.login, "LOGIN a b")], .sendCommand .noop "NOOP", .bad [], .ok [(.lsub, "LSUB")]]

end Xperimentum.Pantomime.IMAPStore
