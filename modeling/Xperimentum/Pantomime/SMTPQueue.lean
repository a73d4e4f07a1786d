import Mathlib.Tactic
import Xperimentum.Lib.Partial
import Xperimentum.Pantomime.SMTP

/-! Attribution of replies: a reply is handled as one to the command that the oldest unanswered line on the
connection belongs to. -/

namespace Xperimentum.Pantomime.SMTP

open Xperimentum.Lib.Partial

variable {client : Client} {s t u : Service} {sent : List QueueObject}

def awaiting (commands : List SMTPCommand) : Entry → List SMTPCommand
  | .wrote q => commands ++ [q.command]
  | .continued command _ => commands ++ [command]
  | .reply _ => commands.drop 1

/-- The commands of the lines that await their reply; at first that is the server's greeting. -/
def unanswered (log : List Entry) : List SMTPCommand := log.foldl awaiting [.authorization]

lemma unanswered_append (log : List Entry) (e : Entry) : unanswered (log ++ [e]) = awaiting (unanswered log) e :=
  List.foldl_concat awaiting _ e log

def Attributed (s : Service) : Prop := unanswered s.log = [] ∨ unanswered s.log = [s.lastCommand]

/-- An intermediate reply, in answer to which the command goes on. -/
def isIntermediate (s : Service) : Bool :=
  !lost s && match s.lastCommand with
    | .authCramMD5 | .authLogin | .authLoginChallenge | .authPlain => starts "334" (lastResponse s)
    | .data => starts "354" (lastResponse s)
    | _ => false

/-- The commands of the queue stay in it, and none of them is written. -/
structure HoldsBack (s t : Service) : Prop where
  kept : t.queue = s.queue
  unwritten : ∀ q ∈ s.queue, Entry.wrote q ∉ t.log.drop s.log.length

/-- What sending commands one after the other does: the first one is written if the queue was empty. -/
structure Sent (sent : List QueueObject) (s t : Service) : Prop where
  queue : t.queue = sent.reverse ++ s.queue
  idle : ∀ q rest, s.queue = [] → sent = q :: rest → t.lastCommand = q.command ∧ t.log = s.log ++ [.wrote q]
  busy : s.queue ≠ [] ∨ sent = [] → t.lastCommand = s.lastCommand ∧ t.log = s.log

lemma Sent.refl (h : t.queue = s.queue) (hlast : t.lastCommand = s.lastCommand) (hlog : t.log = s.log) :
    Sent [] s t := ⟨h, fun _ _ _ hnil => (List.cons_ne_nil _ _ hnil.symm).elim, fun _ => ⟨hlast, hlog⟩⟩

lemma Sent.trans {sent' : List QueueObject} (h : Sent sent s t) (h' : Sent sent' t u) : Sent (sent ++ sent') s u := by
  refine ⟨by rw [h'.queue, h.queue, List.reverse_append, List.append_assoc], ?_, ?_⟩
  · intro q rest hs hsent
    cases sent with
    | nil =>
      obtain ⟨hlast, hlog⟩ := h.busy (.inr rfl)
      have ht : t.queue = [] := by rw [h.queue, hs]; rfl
      rw [← hlog]
      exact h'.idle q rest ht hsent
    | cons q' sent =>
      obtain ⟨rfl, -⟩ := List.cons.inj hsent
      obtain ⟨hlast, hlog⟩ := h.idle q' sent hs rfl
      have ht : t.queue ≠ [] := by rw [h.queue]; simp
      obtain ⟨hlast', hlog'⟩ := h'.busy (.inl ht)
      exact ⟨hlast'.trans hlast, hlog'.trans hlog⟩
  · intro hs
    have hbusy : s.queue ≠ [] ∨ sent = [] := hs.imp_right fun hnil => (List.append_eq_nil_iff.mp hnil).1
    obtain ⟨hlast, hlog⟩ := h.busy hbusy
    have hbusy' : t.queue ≠ [] ∨ sent' = [] := by
      rcases hs with hs | hnil
      · exact .inl (by rw [h.queue]; exact List.append_ne_nil_of_right_ne_nil _ hs)
      · exact .inr (List.append_eq_nil_iff.mp hnil).2
    obtain ⟨hlast', hlog'⟩ := h'.busy hbusy'
    exact ⟨hlast'.trans hlast, hlog'.trans hlog⟩

lemma sendCommand_sent (command : SMTPCommand) (arguments : String) (s : Service) :
    Sent [⟨command, arguments⟩] s (sendCommand command arguments s) := by
  simp only [sendCommand, List.length_cons]
  cases hq : s.queue with
  | nil =>
    refine ⟨by simp [write, hq], ?_, ?_⟩
    · rintro q rest - hcons
      obtain ⟨rfl, -⟩ := List.cons.inj hcons
      exact ⟨rfl, rfl⟩
    · rintro (hne | hnil)
      · exact absurd hq hne
      · cases hnil
  | cons q queue =>
    refine ⟨by simp [hq], fun _ _ hs => ?_, fun _ => ⟨by simp, by simp⟩⟩
    rw [hq] at hs
    cases hs

/-- How many commands a call can send. -/
def Call.sends : Call → ℕ
  | .sendCommand _ _ | .sendMessage => 1
  | _ => 0

lemma Sent.of_frame {s₀ : Service} (h : Sent sent s₀ t) (hq : s₀.queue = s.queue) (hlast : s₀.lastCommand = s.lastCommand)
    (hlog : s₀.log = s.log) : Sent sent s t := (Sent.refl hq hlast hlog).trans h

lemma withRecipients_frame (client : Client) (s : Service) :
    (withRecipients client s).queue = s.queue ∧ (withRecipients client s).lastCommand = s.lastCommand ∧
      (withRecipients client s).log = s.log := by
  simp only [withRecipients]
  split <;> exact ⟨rfl, rfl, rfl⟩

lemma call_sent (client : Client) (c : Call) (s : Service) :
    ∃ sent, sent.length ≤ c.sends ∧ Sent sent s (call client s c) := by
  cases c with
  | sendCommand command arguments => exact ⟨_, le_rfl, sendCommand_sent command arguments s⟩
  | sendMessage =>
    simp only [call, sendMessage]
    obtain ⟨hq, hlast, hlog⟩ := withRecipients_frame client s
    split_ifs
    · exact ⟨[], Nat.zero_le _, Sent.refl rfl rfl rfl⟩
    · split
      all_goals exact ⟨_, le_rfl, (sendCommand_sent _ _ _).of_frame hq hlast hlog⟩
  | _ => exact ⟨[], le_rfl, Sent.refl rfl rfl rfl⟩

lemma calls_sent (client : Client) (calls : List Call) (s : Service) :
    ∃ sent, sent.length ≤ (calls.map Call.sends).sum ∧ Sent sent s (calls.foldl (call client) s) := by
  induction calls generalizing s with
  | nil => exact ⟨[], le_rfl, Sent.refl rfl rfl rfl⟩
  | cons c calls ih =>
    obtain ⟨sent, hlen, hsent⟩ := call_sent client c s
    obtain ⟨sent', hlen', hsent'⟩ := ih (call client s c)
    refine ⟨sent ++ sent', ?_, hsent.trans hsent'⟩
    rw [List.length_append, List.map_cons, List.sum_cons]
    exact Nat.add_le_add hlen hlen'

def Action.sends (calls : List Call) : Action → ℕ
  | .write _ => 0
  | .send _ _ => 1
  | .tell => (calls.map Call.sends).sum

def Action.IsWrite : Action → Prop
  | .write _ => True
  | _ => False

lemma perform_sent (client : Client) (calls : List Call) {a : Action} (ha : ¬a.IsWrite) (s : Service) :
    ∃ sent, sent.length ≤ a.sends calls ∧ Sent sent s (perform client calls s a) := by
  cases a with
  | write aData => exact absurd trivial ha
  | send command arguments => exact ⟨_, le_rfl, sendCommand_sent command arguments s⟩
  | tell => exact calls_sent client calls s

lemma actions_sent (client : Client) (calls : List Call) {actions : List Action} (h : ∀ a ∈ actions, ¬a.IsWrite)
    (s : Service) : ∃ sent, sent.length ≤ (actions.map (Action.sends calls)).sum ∧
      Sent sent s (actions.foldl (perform client calls) s) := by
  induction actions generalizing s with
  | nil => exact ⟨[], le_rfl, Sent.refl rfl rfl rfl⟩
  | cons a actions ih =>
    obtain ⟨sent, hlen, hsent⟩ := perform_sent client calls (h a List.mem_cons_self) s
    obtain ⟨sent', hlen', hsent'⟩ := ih (fun b hb => h b (List.mem_cons_of_mem a hb)) (perform client calls s a)
    refine ⟨sent ++ sent', ?_, hsent.trans hsent'⟩
    rw [List.length_append, List.map_cons, List.sum_cons]
    exact Nat.add_le_add hlen hlen'

/-- What a handler leaves alone, and what it may do. -/
structure Reacts (s t : Service) (actions : List Action) : Prop where
  queue : t.queue = s.queue
  lastCommand : t.lastCommand = s.lastCommand
  log : t.log = s.log
  writes : (∀ a ∈ actions, ¬a.IsWrite) ∨ isIntermediate s = true ∧ ∃ aData, actions = [.write aData]

lemma Reacts.quiet {actions : List Action} (h : ∀ a ∈ actions, ¬a.IsWrite) : Reacts s s actions :=
  ⟨rfl, rfl, rfl, .inl h⟩

lemma reacts_tell (s : Service) : Reacts s s [.tell] := Reacts.quiet (by simp [Action.IsWrite])

lemma reacts_send (s : Service) (command : SMTPCommand) (arguments : String) :
    Reacts s s [.send command arguments] := Reacts.quiet (by simp [Action.IsWrite])

lemma withMessage_reacts {h : Handled} {r : Service × List Action} (hh : ∀ r ∈ h, Reacts s r.1 r.2)
    (hr : r ∈ withMessage s h) : Reacts s r.1 r.2 := by
  simp only [withMessage] at hr
  split_ifs at hr
  · cases hr
  · exact hh r hr

lemma initiationFailed_reacts {r : Service × List Action} (hr : r ∈ initiationFailed client s) :
    Reacts s r.1 r.2 := by
  have htell : ∀ r ∈ (some (s, [.tell]) : Handled), Reacts s r.1 r.2 := by
    rintro r hr
    obtain rfl := Option.some.inj hr
    exact reacts_tell s
  simp only [initiationFailed, fail] at hr
  split_ifs at hr
  · exact withMessage_reacts htell hr
  · exact htell r hr

lemma parseExtensions_frame {responses : List Bytes} {parsed : Service × Bool}
    (h : parsed ∈ parseExtensions client responses s) :
    parsed.1.queue = s.queue ∧ parsed.1.lastCommand = s.lastCommand ∧ parsed.1.log = s.log := by
  induction responses generalizing s with
  | nil =>
    obtain rfl := Option.some.inj h
    exact ⟨rfl, rfl, rfl⟩
  | cons aData responses ih =>
    simp only [parseExtensions] at h
    split_ifs at h
    · cases h
    · exact ih h
    · cases h
    · have hrest := ih h
      exact hrest
    · exact ih h
    · obtain rfl := Option.some.inj h
      exact ⟨rfl, rfl, rfl⟩

lemma parseEHLO_reacts {r : Service × List Action} (hr : r ∈ parseEHLO client s) : Reacts s r.1 r.2 := by
  obtain ⟨parsed, hparsed, rfl⟩ := Option.map_eq_some_iff.mp hr
  obtain ⟨hqueue, hlast, hlog⟩ := parseExtensions_frame hparsed
  split_ifs
  · exact ⟨hqueue, hlast, hlog, .inl (by simp [Action.IsWrite])⟩
  · exact ⟨hqueue, hlast, hlog, .inl (by simp [Action.IsWrite])⟩

lemma recipientsCompleted_reacts {r : Service × List Action} (hr : r ∈ recipientsCompleted s) :
    Reacts s r.1 r.2 := by
  simp only [recipientsCompleted] at hr
  split_ifs at hr
  · cases hr
  · obtain rfl := Option.some.inj hr
    exact Reacts.quiet (by simp [Action.IsWrite])

lemma parseRCPT_reacts {r : Service × List Action} (hr : r ∈ parseRCPT client s) : Reacts s r.1 r.2 := by
  simp only [parseRCPT, fail] at hr
  split_ifs at hr
  · split at hr
    · exact recipientsCompleted_reacts hr
    · split at hr
      · obtain rfl := Option.some.inj hr
        exact ⟨rfl, rfl, rfl, .inl (by simp [Action.IsWrite])⟩
      · obtain ⟨hqueue, hlast, hlog, -⟩ := recipientsCompleted_reacts hr
        refine ⟨hqueue, hlast, hlog, .inl ?_⟩
        simp only [recipientsCompleted] at hr
        split_ifs at hr
        · cases hr
        · obtain rfl := Option.some.inj hr
          simp [Action.IsWrite]
  · cases hr
  · obtain rfl := Option.some.inj hr
    exact reacts_tell s
  · obtain rfl := Option.some.inj hr
    exact reacts_tell s

lemma parseReply_reacts {r : Service × List Action} (hlost : lost s = false) (hr : r ∈ parseReply client s) :
    Reacts s r.1 r.2 := by
  have hsome : ∀ actions, r ∈ (some (s, actions) : Handled) → Reacts s s actions → Reacts s r.1 r.2 := by
    rintro actions hr h
    obtain rfl := Option.some.inj hr
    exact h
  have hwrite : ∀ aData, isIntermediate s = true → Reacts s s [.write aData] :=
    fun aData h => ⟨rfl, rfl, rfl, .inr ⟨h, aData, rfl⟩⟩
  have hnone : Reacts s s [] := Reacts.quiet (by simp)
  simp only [parseReply] at hr
  split at hr
  case h_1 hlast =>
    simp only [parseAUTHCRAMMD5] at hr
    split_ifs at hr with hcode
    · exact hsome _ hr (hwrite _ (by simp [isIntermediate, hlost, hlast, hcode]))
    · exact hsome _ hr (reacts_tell s)
  case h_4 hlast =>
    simp only [parseAUTHPLAIN] at hr
    split_ifs at hr with hcode
    · exact hsome _ hr (hwrite _ (by simp [isIntermediate, hlost, hlast, hcode]))
    · exact hsome _ hr (reacts_tell s)
  case h_5 hlast =>
    simp only [parseDATA, fail] at hr
    split_ifs at hr with hcode
    · obtain ⟨aData, -, rfl⟩ := Option.map_eq_some_iff.mp hr
      exact hwrite _ (by simp [isIntermediate, hlost, hlast, hcode])
    · exact withMessage_reacts (fun r hr => by obtain rfl := Option.some.inj hr; exact reacts_tell s) hr
    · exact hsome _ hr (reacts_tell s)
  case h_6 => exact parseEHLO_reacts hr
  case h_8 =>
    simp only [parseMAIL] at hr
    split_ifs at hr
    · refine withMessage_reacts (fun r hr => ?_) hr
      obtain rfl := Option.some.inj hr
      exact Reacts.quiet (by simp [Action.IsWrite])
    · exact initiationFailed_reacts hr
  case h_11 => exact parseRCPT_reacts hr
  case h_13 =>
    simp only [parseSTARTTLS] at hr
    split_ifs at hr
    · exact hsome _ hr (reacts_send s _ _)
    · exact initiationFailed_reacts hr
  case h_2 | h_3 =>
    simp only [parseAUTHLOGIN, parseAUTHLOGINCHALLENGE] at hr
    split_ifs at hr
    · exact hsome _ hr (reacts_send s _ _)
    · exact hsome _ hr (reacts_tell s)
  case h_14 =>
    simp only [parseAUTHORIZATION] at hr
    split_ifs at hr
    · exact hsome _ hr (reacts_send s _ _)
    · exact hsome _ hr hnone
  case h_7 | h_9 => exact hsome _ hr hnone
  case h_10 | h_12 => exact hsome _ hr (reacts_tell s)

lemma react_reacts {r : Service × List Action} (hr : r ∈ react client s) : Reacts s r.1 r.2 := by
  simp only [react] at hr
  split_ifs at hr with hlost
  · obtain rfl := Option.some.inj hr
    exact reacts_tell s
  · rw [Bool.not_eq_true] at hlost
    exact parseReply_reacts hlost hr

/-- The steps that keep replies attributed: no command is sent while a line awaits its reply though the queue is
empty, a reply to an empty queue sends at most one command, and an intermediate reply finds nothing queued behind
its command. -/
def Paced (client : Client) (s : Service) : Event → Prop
  | .call c => c.sends = 0 ∨ unanswered s.log = [] ∨ s.queue ≠ []
  | .line aData calls => isLastLine aData →
      (s.queue = [] → ∀ r ∈ react client (answered (received aData s)), (r.2.map (Action.sends calls)).sum ≤ 1) ∧
      (isIntermediate (received aData s) → s.queue.length ≤ 1)

def Condition (client : Client) (s : Service) : Event → Prop
  | .call c => c.sends = 0 ∨ unanswered s.log = [] ∨ s.queue ≠ []
  | .line aData calls => isLastLine aData →
      (s.queue = [] → ∀ r ∈ react client (answered (received aData s)), (r.2.map (Action.sends calls)).sum ≤ 1) ∧
      (isIntermediate (received aData s) → s.queue = [])

lemma Condition.paced {e : Event} (h : Condition client s e) : Paced client s e := by
  cases e with
  | call c => exact h
  | line aData calls =>
    intro hlast
    obtain ⟨hidle, hintermediate⟩ := h hlast
    refine ⟨hidle, fun hi => ?_⟩
    rw [hintermediate hi]
    exact Nat.zero_le 1

structure Inv (s : Service) : Prop where
  attributed : Attributed s
  inFlight : s.queue ≠ [] → unanswered s.log = [s.lastCommand]

lemma call_inv (hs : Inv s) (c : Call) (h : c.sends = 0 ∨ unanswered s.log = [] ∨ s.queue ≠ []) :
    Inv (call client s c) := by
  obtain ⟨sent, hlen, hsent⟩ := call_sent client c s
  by_cases hbusy : s.queue ≠ [] ∨ sent = []
  · obtain ⟨hlast, hlog⟩ := hsent.busy hbusy
    rcases hbusy with hq | rfl
    · have hin := hs.inFlight hq
      rw [← hlog, ← hlast] at hin
      exact ⟨.inr hin, fun _ => hin⟩
    · have hq : (call client s c).queue = s.queue := hsent.queue
      have hattributed := hs.attributed
      have hin := hs.inFlight
      rw [Attributed, ← hlog, ← hlast] at hattributed
      rw [← hlog, ← hlast, ← hq] at hin
      exact ⟨hattributed, hin⟩
  · obtain ⟨hq, hne⟩ := not_or.mp hbusy
    rw [ne_eq, not_not] at hq
    obtain ⟨q, rest, rfl⟩ := List.exists_cons_of_ne_nil hne
    obtain ⟨hlast, hlog⟩ := hsent.idle q rest hq rfl
    have hfree : unanswered s.log = [] := by
      rcases h with hzero | hfree | hbusy'
      · rw [hzero] at hlen
        simp at hlen
      · exact hfree
      · exact absurd hq hbusy'
    have hin : unanswered (call client s c).log = [(call client s c).lastCommand] := by
      rw [hlog, hlast, unanswered_append, hfree]
      rfl
    exact ⟨.inr hin, fun _ => hin⟩

/-- `removeAllObjects`, `removeLastObject` and the dequeuing after them. -/
def dequeue (s : Service) : Service := emptyQueue { s with responses := [], queue := s.queue.dropLast }

lemma dequeue_queue (s : Service) : (dequeue s).queue = s.queue.dropLast := by
  simp only [dequeue, emptyQueue]
  split <;> rfl

lemma dequeue_inv (hsent : Sent sent s t) (hlen : s.queue = [] → sent.length ≤ 1) (hs : unanswered s.log = []) :
    Inv (dequeue t) := by
  simp only [dequeue, emptyQueue]
  by_cases hq : s.queue = []
  · have hnil : t.queue.dropLast = [] := by
      rw [hsent.queue, hq, List.append_nil]
      have hone := hlen hq
      rw [← List.length_reverse] at hone
      cases hr : sent.reverse with
      | nil => rfl
      | cons q rest =>
        rw [hr] at hone
        cases rest with
        | nil => rfl
        | cons q' rest => simp at hone
    simp only [hnil, List.getLast?_nil]
    refine ⟨?_, fun hne => absurd rfl hne⟩
    cases sent with
    | nil =>
      obtain ⟨-, hlog⟩ := hsent.busy (.inr rfl)
      exact .inl (by rw [hlog, hs])
    | cons q rest =>
      obtain ⟨hlast, hlog⟩ := hsent.idle q rest hq rfl
      refine .inr ?_
      rw [hlog, hlast, unanswered_append, hs]
      rfl
  · obtain ⟨hlast, hlog⟩ := hsent.busy (.inl hq)
    have hfree : unanswered t.log = [] := by rw [hlog, hs]
    split
    · have hin : ∀ q : QueueObject, unanswered (t.log ++ [.wrote q]) = [q.command] := by
        intro q
        rw [unanswered_append, hfree]
        rfl
      exact ⟨.inr (hin _), fun _ => hin _⟩
    · rename_i hnil
      rw [List.getLast?_eq_none_iff] at hnil
      exact ⟨.inl hfree, fun hne => absurd hnil hne⟩

lemma step_inv (s : Service) (e : Event) (hs : Inv s) (h : Paced client s e) : ∀ t ∈ step client s e, Inv t := by
  intro t ht
  cases e with
  | call c =>
    obtain rfl := Option.some.inj ht
    exact call_inv hs c h
  | line aData calls =>
    simp only [step] at ht
    split_ifs at ht with hlast
    · obtain ⟨⟨u, actions⟩, hreact, rfl⟩ := Option.map_eq_some_iff.mp ht
      obtain ⟨hidle, hintermediate⟩ := h hlast
      obtain ⟨hqueue, hcommand, hlog, hwrites⟩ := react_reacts hreact
      have hfree : unanswered u.log = [] := by
        rw [hlog]
        change unanswered (s.log ++ [_]) = []
        rw [unanswered_append]
        rcases hs.attributed with hnil | hone
        · rw [hnil]; rfl
        · rw [hone]; rfl
      change Inv (dequeue (actions.foldl (perform client calls) u))
      rcases hwrites with hquiet | ⟨hi, data, rfl⟩
      · obtain ⟨sent, hlen, hsent⟩ := actions_sent client calls hquiet u
        refine dequeue_inv hsent (fun hq => hlen.trans ?_) hfree
        exact hidle (hqueue.symm.trans hq) _ hreact
      · have hnil : u.queue.dropLast = [] := by
          have hshort := hintermediate hi
          rw [hqueue]
          change s.queue.dropLast = []
          rw [← List.length_eq_zero_iff, List.length_dropLast]
          omega
        simp only [List.foldl_cons, List.foldl_nil, perform, dequeue, emptyQueue, hnil, List.getLast?_nil]
        refine ⟨.inr ?_, fun hne => absurd rfl hne⟩
        change unanswered (u.log ++ [_]) = _
        rw [unanswered_append, hfree]
        rfl
    · obtain rfl := Option.some.inj ht
      exact ⟨hs.attributed, hs.inFlight⟩

lemma initial_inv : Inv {} := ⟨.inr rfl, fun _ => rfl⟩

theorem run_attributed (client : Client) (es : List Event) (h : Admits (step client) (Paced client) {} es) :
    ∀ s ∈ tryRun (step client) {} es, Attributed s :=
  fun s hs => (tryRun_invariant step_inv initial_inv h s hs).attributed

lemma line_cases {aData : Bytes} {calls : List Call} (hlast : isLastLine aData)
    (ht : t ∈ step client s (.line aData calls)) :
    ∃ r ∈ react client (answered (received aData s)), t = dequeue (r.2.foldl (perform client calls) r.1) := by
  simp only [step, if_pos hlast] at ht
  obtain ⟨r, hr, rfl⟩ := Option.map_eq_some_iff.mp ht
  exact ⟨r, hr, rfl⟩

lemma line_holdsBack {aData : Bytes} {calls : List Call} (hlast : isLastLine aData) (hq : s.queue = [])
    (hone : ∀ r ∈ react client (answered (received aData s)), (r.2.map (Action.sends calls)).sum ≤ 1)
    (ht : t ∈ step client s (.line aData calls)) : HoldsBack s t := by
  obtain ⟨⟨u, actions⟩, hreact, rfl⟩ := line_cases hlast ht
  obtain ⟨hqueue, -, -, hwrites⟩ := react_reacts hreact
  have hnil : u.queue = [] := hqueue.trans hq
  refine ⟨?_, fun q hmem => by simp [hq] at hmem⟩
  rw [dequeue_queue, hq]
  rcases hwrites with hquiet | ⟨-, data, rfl⟩
  · obtain ⟨sent, hlen, hsent⟩ := actions_sent client calls hquiet u
    have hle := hlen.trans (hone _ hreact)
    rw [hsent.queue, hnil, List.append_nil, ← List.length_eq_zero_iff, List.length_dropLast, List.length_reverse]
    omega
  · change u.queue.dropLast = []
    rw [hnil, List.dropLast_nil]

lemma Sent.log_extends (h : Sent sent s t) : ∃ new, t.log = s.log ++ new := by
  by_cases hbusy : s.queue ≠ [] ∨ sent = []
  · exact ⟨[], by rw [(h.busy hbusy).2, List.append_nil]⟩
  · obtain ⟨hq, hne⟩ := not_or.mp hbusy
    obtain ⟨q, rest, rfl⟩ := List.exists_cons_of_ne_nil hne
    exact ⟨[.wrote q], (h.idle q rest (not_not.mp hq) rfl).2⟩

/-- Every reply, an intermediate one as well, takes a command off the queue or has one written. -/
theorem line_not_holdsBack {aData : Bytes} {calls : List Call} (hlast : isLastLine aData) (hq : s.queue ≠ [])
    (ht : t ∈ step client s (.line aData calls)) : ¬HoldsBack s t := by
  obtain ⟨⟨u, actions⟩, hreact, rfl⟩ := line_cases hlast ht
  obtain ⟨-, -, hlog, hwrites⟩ := react_reacts hreact
  set v := actions.foldl (perform client calls) u with hv
  have hextends : ∃ new, v.log = s.log ++ new := by
    have hu : u.log = s.log ++ [.reply (received aData s).responses] := hlog
    rcases hwrites with hquiet | ⟨-, data, rfl⟩
    · obtain ⟨sent, -, hsent⟩ := actions_sent client calls hquiet u
      obtain ⟨new, hnew⟩ := hsent.log_extends
      exact ⟨_, by rw [hv, hnew, hu, List.append_assoc]⟩
    · exact ⟨_, by rw [hv]; exact (congrArg (· ++ _) hu).trans (List.append_assoc _ _ _)⟩
  obtain ⟨new, hnew⟩ := hextends
  rintro ⟨hkept, hunwritten⟩
  have hdrop : v.queue.dropLast = s.queue := (dequeue_queue v).symm.trans hkept
  obtain ⟨init, q, hsplit⟩ := (List.eq_nil_or_concat s.queue).resolve_left hq
  rw [List.concat_eq_append] at hsplit
  refine hunwritten q (by rw [hsplit]; simp) ?_
  simp only [dequeue, emptyQueue, hdrop, hsplit, List.getLast?_concat, write, hnew, List.append_assoc, List.drop_left]
  exact List.mem_append_right _ (List.mem_singleton.mpr rfl)

def Attributes (client : Client) (s : Service) : Event → Prop
  | .call _ => Attributed s
  | .line aData calls => Attributed s ∧ (isLastLine aData → isIntermediate (received aData s) →
      ∀ t ∈ step client s (.line aData calls), HoldsBack s t)

theorem run_attributes (client : Client) (es : List Event) (h : Admits (step client) (Condition client) {} es) :
    Admits (step client) (Attributes client) {} es ∧ ∀ s ∈ tryRun (step client) {} es, Attributed s := by
  refine ⟨admits_of_invariant (fun s e hs he => step_inv s e hs he.paced) ?_ initial_inv h, ?_⟩
  · intro s e hs he
    cases e with
    | call c => exact hs.attributed
    | line aData calls =>
      refine ⟨hs.attributed, fun hlast hi t ht => ?_⟩
      obtain ⟨hidle, hintermediate⟩ := he hlast
      exact line_holdsBack hlast (hintermediate hi) (hidle (hintermediate hi)) ht
  · exact run_attributed client es (h.imp fun _ _ he => he.paced)

instance (s t : Service) : Decidable (HoldsBack s t) :=
  decidable_of_iff (t.queue = s.queue ∧ ∀ q ∈ s.queue, Entry.wrote q ∉ t.log.drop s.log.length)
    ⟨fun h => ⟨h.1, h.2⟩, fun h => ⟨h.1, h.2⟩⟩

instance (s : Service) : Decidable (Attributed s) := inferInstanceAs (Decidable (_ ∨ _))

instance (client : Client) (s : Service) : ∀ e, Decidable (Attributes client s e)
  | .call _ => inferInstanceAs (Decidable (Attributed s))
  | .line _ _ => inferInstanceAs (Decidable (_ ∧ _))

instance (client : Client) (s : Service) : ∀ e, Decidable (Condition client s e)
  | .call _ => inferInstanceAs (Decidable (_ ∨ _))
  | .line _ _ => inferInstanceAs (Decidable (_ → _))

/-- `NOOP`, queued behind `DATA`, goes out in front of the final reply to the message. -/
theorem noop_behind_data_not_attributes :
    ¬Admits (step {}) (Attributes {}) {} [.line (ascii "220 ready") [], .line (ascii "250 ok") [],
      .call (.setMessageData (some (ascii "a\n"))), .call (.sendCommand .data "DATA"),
      .call (.sendCommand .noop "NOOP"), .line (ascii "354 go on") []] := by
  decide

def dialogue : List Event :=
  [.line (ascii "220 ready") [], .line (ascii "250-SIZE 10") [],
    .line (ascii "250 AUTH PLAIN") [.sendCommand .noop "NOOP", .sendCommand .rset "RSET"],
    .line (ascii "250 ok") [], .line (ascii "250 ok") [], .call (.sendCommand .quit "QUIT")]

theorem run_attributes_dialogue :
    Admits (step {}) (Attributes {}) {} dialogue ∧ ∀ s ∈ tryRun (step {}) {} dialogue, Attributed s :=
  run_attributes {} dialogue (by decide)

end Xperimentum.Pantomime.SMTP
