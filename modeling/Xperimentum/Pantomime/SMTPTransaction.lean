import Mathlib.Tactic
import Xperimentum.Lib.Partial
import Xperimentum.Pantomime.SMTPQueue

/-! The transaction of a message: `MAIL`, one `RCPT` for each recipient, `DATA`, each after a positive reply to the
one before. -/

namespace Xperimentum.Pantomime.SMTP

open Xperimentum.Lib.Partial

variable {client : Client} {s t : Service}

/-- The recipients a message goes to, each object once. -/
def matching (redirected : Bool) (theRecipients : List InternetAddress) : List InternetAddress :=
  (theRecipients.filter (isRecipient redirected)).eraseDups

def rcptTo (theAddress : InternetAddress) : QueueObject := ⟨.rcpt, rcptArguments (some theAddress)⟩

def dataCommand : QueueObject := ⟨.data, "DATA"⟩

/-- The commands of the transaction that a service just started. -/
def transaction (s : Service) : List QueueObject :=
  s.queue ++ (matching s.redirected (s.recipients.getD [])).map rcptTo ++ [dataCommand]

def IsPositive (responses : List Bytes) : Prop := ∃ aData, responses.getLast? = some aData ∧ starts "2" aData = true

def Entry.IsCommand : Entry → Prop
  | .wrote _ => True
  | _ => False

/-- The first commands of the list have been written, each but the last with a positive reply behind it. -/
def Transcript (commands : List QueueObject) (log : List Entry) : Prop :=
  ∃ (done : List (QueueObject × List Bytes)) (q : QueueObject) (rest : List QueueObject) (tail : List Entry),
    commands = done.map Prod.fst ++ q :: rest ∧ (∀ d ∈ done, IsPositive d.2) ∧
    log = (done.flatMap fun d => [.wrote d.1, .reply d.2]) ++ .wrote q :: tail ∧ ∀ e ∈ tail, ¬e.IsCommand

def reply (client : Client) (s : Service) (aData : Bytes) : Option Service := step client s (.line aData [])

/-- No positive reply comes to a `MAIL` or `RCPT` that has had its reply. -/
def Solicited (s : Service) (aData : Bytes) : Prop :=
  s.queue = [] → s.lastCommand = .mail ∨ s.lastCommand = .rcpt → isLastLine aData →
    lost (received aData s) = false → starts "250" aData = false

instance (s : Service) (aData : Bytes) : Decidable (Solicited s aData) := inferInstanceAs (Decidable (_ → _))

lemma nextRecipient_eq (redirected : Bool) (rs : List InternetAddress) :
    nextRecipient rs redirected = (matching redirected rs).head? := by
  rw [nextRecipient, ← List.head?_filter, matching]
  cases rs.filter (isRecipient redirected) with
  | nil => rfl
  | cons a rs => rw [List.eraseDups_cons, List.head?_cons, List.head?_cons]

lemma matching_remove {redirected : Bool} {rs : List InternetAddress} {a : InternetAddress} {as : List InternetAddress}
    (h : matching redirected rs = a :: as) : matching redirected (rs.filter (· ≠ a)) = as := by
  rw [matching, List.filter_filter]
  rw [matching] at h
  simp only [Bool.and_comm (isRecipient redirected _)]
  rw [← List.filter_filter]
  cases hrs : rs.filter (isRecipient redirected) with
  | nil =>
    rw [hrs] at h
    cases h
  | cons b bs =>
    rw [hrs, List.eraseDups_cons] at h
    obtain ⟨rfl, rfl⟩ := List.cons.inj h
    have hsame : (b :: bs).filter (fun c => decide (c ≠ b)) = bs.filter fun c => !c == b := by
      rw [List.filter_cons_of_neg (by simp)]
      refine List.filter_congr fun c _ => ?_
      by_cases hc : c = b <;> simp [hc]
    rw [hsame]

/-- The commands still to come. -/
def remaining (s : Service) : List QueueObject :=
  match s.lastCommand with
  | .mail => (matching s.redirected s.sentRecipients).map rcptTo ++ [dataCommand]
  | .rcpt => (matching s.redirected s.sentRecipients).tail.map rcptTo ++ [dataCommand]
  | _ => []

structure Underway (commands : List QueueObject) (base : List Entry) (s : Service) : Prop where
  stage : s.lastCommand = .mail ∨ s.lastCommand = .rcpt ∨ s.lastCommand = .data
  recipients : s.lastCommand ≠ .data → matching s.redirected s.sentRecipients ≠ []
  transcript : ∃ (done : List (QueueObject × List Bytes)) (q : QueueObject) (tail : List Entry),
    commands = done.map Prod.fst ++ q :: remaining s ∧ (∀ d ∈ done, IsPositive d.2) ∧
    s.log = base ++ (done.flatMap fun d => [.wrote d.1, .reply d.2]) ++ .wrote q :: tail ∧
    (∀ e ∈ tail, ¬e.IsCommand) ∧ (s.queue = [] ∨ s.queue = [q] ∧ tail = [])

variable {commands : List QueueObject} {base : List Entry}

lemma Underway.silent (hs : Underway commands base s) {t : Service} (new : List Entry) (hq : t.queue = [])
    (hlast : t.lastCommand = s.lastCommand) (hrecipients : t.sentRecipients = s.sentRecipients)
    (hredirected : t.redirected = s.redirected) (hlog : t.log = s.log ++ new) (hnew : ∀ e ∈ new, ¬e.IsCommand) :
    Underway commands base t := by
  obtain ⟨done, q, tail, hcommands, hdone, hslog, htail, -⟩ := hs.transcript
  have hremaining : remaining t = remaining s := by simp only [remaining, hlast, hrecipients, hredirected]
  refine ⟨by rw [hlast]; exact hs.stage, ?_, done, q, tail ++ new, by rw [hremaining]; exact hcommands, hdone, ?_, ?_,
    .inl hq⟩
  · rw [hlast, hrecipients, hredirected]
    exact hs.recipients
  · rw [hlog, hslog]
    simp
  · intro e he
    rcases List.mem_append.mp he with he | he
    · exact htail e he
    · exact hnew e he

lemma Underway.next (hs : Underway commands base s) {q next : QueueObject} {responses : List Bytes}
    (hsq : s.queue = [q]) (hpos : IsPositive responses) (hq : t.queue = [next]) (hlast : t.lastCommand = next.command)
    (hlog : t.log = s.log ++ [.reply responses, .wrote next])
    (hstage : t.lastCommand = .rcpt ∧ matching t.redirected t.sentRecipients ≠ [] ∨ t.lastCommand = .data)
    (hremaining : remaining s = next :: remaining t) : Underway commands base t := by
  obtain ⟨done, q', tail, hcommands, hdone, hslog, htail, hflight⟩ := hs.transcript
  obtain ⟨hone, rfl⟩ := hflight.resolve_left (by simp [hsq])
  obtain rfl : q = q' := by
    rw [hsq] at hone
    exact (List.cons.inj hone).1
  refine ⟨?_, ?_, done ++ [(q, responses)], next, [], ?_, ?_, ?_, by simp, .inr ⟨hq, rfl⟩⟩
  · rcases hstage with ⟨hrcpt, -⟩ | hdata
    · exact .inr (.inl hrcpt)
    · exact .inr (.inr hdata)
  · rcases hstage with ⟨-, hne⟩ | hdata
    · exact fun _ => hne
    · exact fun hno => absurd hdata hno
  · rw [hcommands, hremaining]
    simp
  · intro d hd
    rcases List.mem_append.mp hd with hd | hd
    · exact hdone d hd
    · rw [List.mem_singleton.mp hd]
      exact hpos
  · rw [hlog, hslog]
    simp

lemma isPositive_received {aData : Bytes} (h : starts "250" aData = true) (s : Service) :
    IsPositive (received aData s).responses := by
  refine ⟨aData, List.getLast?_concat, ?_⟩
  simp only [starts, hasCPrefix] at h ⊢
  obtain ⟨rest, rfl⟩ := List.isPrefixOf_iff_prefix.mp h
  rfl

lemma lastResponse_received (aData : Bytes) (s : Service) : lastResponse (answered (received aData s)) = aData := by
  simp [lastResponse, answered, received]

lemma dequeue_nil {u : Service} (h : u.queue.dropLast = []) : dequeue u = { u with responses := [], queue := [] } := by
  simp [dequeue, emptyQueue, h]

lemma dequeue_sendCommand {u : Service} {q : QueueObject} (h : u.queue = [q]) (next : QueueObject) :
    dequeue (sendCommand next.command next.arguments u) =
      { u with responses := [], queue := [next], lastCommand := next.command, log := u.log ++ [.wrote next] } := by
  simp [dequeue, sendCommand, emptyQueue, write, h]

/-- What a reply does in a transaction: nothing is sent, or the positive reply is answered with the next command. -/
inductive Moves (s : Service) : Service → List Action → Prop
  | tell : Moves s s [.tell]
  | write (aData : Bytes) : Moves s s [.write aData]
  | send (t : Service) (tells : List Action) (next : QueueObject) (htells : ∀ a ∈ tells, a = .tell)
      (hpositive : starts "250" (lastResponse s) = true) (hlost : lost s = false) (hlast : s.lastCommand ≠ .data)
      (hframe : t = { s with sentRecipients := t.sentRecipients })
      (hnext : next.command = .rcpt ∧ matching t.redirected t.sentRecipients ≠ [] ∨ next.command = .data)
      (hremaining : remaining s = next :: remaining { t with lastCommand := next.command }) :
      Moves s t (tells ++ [.send next.command next.arguments])

lemma withMessage_moves {h : Handled} {r : Service × List Action} (hh : ∀ r ∈ h, Moves s r.1 r.2)
    (hr : r ∈ withMessage s h) : Moves s r.1 r.2 := by
  simp only [withMessage] at hr
  split_ifs at hr
  · cases hr
  · exact hh r hr

lemma initiationFailed_moves {r : Service × List Action} (hr : r ∈ initiationFailed client s) :
    Moves s r.1 r.2 := by
  have htell : ∀ r ∈ (some (s, [.tell]) : Handled), Moves s r.1 r.2 := by
    rintro r hr
    obtain rfl := Option.some.inj hr
    exact .tell
  simp only [initiationFailed, fail] at hr
  split_ifs at hr
  · exact withMessage_moves htell hr
  · exact htell r hr

lemma parseMAIL_moves (hlost : lost s = false) (hlast : s.lastCommand = .mail)
    (hne : matching s.redirected s.sentRecipients ≠ []) {r : Service × List Action} (hr : r ∈ parseMAIL client s) :
    Moves s r.1 r.2 := by
  simp only [parseMAIL] at hr
  split_ifs at hr with hcode
  · refine withMessage_moves (fun r hr => ?_) hr
    obtain rfl := Option.some.inj hr
    obtain ⟨a, as, has⟩ := List.exists_cons_of_ne_nil hne
    rw [nextRecipient_eq, has, List.head?_cons]
    refine .send s [.tell] (rcptTo a) (by simp) hcode hlost (by simp [hlast]) rfl (.inl ⟨rfl, hne⟩) ?_
    simp [remaining, hlast, has, rcptTo]
  · exact initiationFailed_moves hr

lemma parseRCPT_moves (hlost : lost s = false) (hlast : s.lastCommand = .rcpt)
    (hne : matching s.redirected s.sentRecipients ≠ []) {r : Service × List Action} (hr : r ∈ parseRCPT client s) :
    Moves s r.1 r.2 := by
  have htell : ∀ r ∈ (some (s, [.tell]) : Handled), Moves s r.1 r.2 := by
    rintro r hr
    obtain rfl := Option.some.inj hr
    exact .tell
  obtain ⟨a, as, has⟩ := List.exists_cons_of_ne_nil hne
  have hrest := matching_remove has
  simp only [parseRCPT, fail, nextRecipient_eq, has, hrest, List.head?_cons] at hr
  split_ifs at hr with hcode
  · cases as with
    | nil =>
      simp only [List.head?_nil, recipientsCompleted] at hr
      split_ifs at hr
      · cases hr
      · obtain rfl := Option.some.inj hr
        refine .send _ [.tell] dataCommand (by simp) hcode hlost (by simp [hlast]) rfl (.inr rfl) ?_
        simp [remaining, hlast, has, dataCommand]
    | cons b bs =>
      simp only [List.head?_cons] at hr
      obtain rfl := Option.some.inj hr
      refine .send _ [] (rcptTo b) (by simp) hcode hlost (by simp [hlast]) rfl (.inl ⟨rfl, ?_⟩) ?_
      · change matching s.redirected (s.sentRecipients.filter (· ≠ a)) ≠ []
        rw [hrest]
        exact List.cons_ne_nil b bs
      · change _ = rcptTo b ::
          ((matching s.redirected (s.sentRecipients.filter (· ≠ a))).tail.map rcptTo ++ [dataCommand])
        simp only [hrest, remaining, hlast, has, List.tail_cons, List.map_cons, List.cons_append]
  · cases hr
  · exact htell r hr
  · exact htell r hr

lemma parseDATA_moves {r : Service × List Action} (hr : r ∈ parseDATA s) : Moves s r.1 r.2 := by
  simp only [parseDATA, fail] at hr
  split_ifs at hr
  · obtain ⟨aData, -, rfl⟩ := Option.map_eq_some_iff.mp hr
    exact .write _
  · refine withMessage_moves (fun r hr => ?_) hr
    obtain rfl := Option.some.inj hr
    exact .tell
  · obtain rfl := Option.some.inj hr
    exact .tell

lemma react_moves (hstage : s.lastCommand = .mail ∨ s.lastCommand = .rcpt ∨ s.lastCommand = .data)
    (hne : s.lastCommand ≠ .data → matching s.redirected s.sentRecipients ≠ []) {r : Service × List Action}
    (hr : r ∈ react client s) : Moves s r.1 r.2 := by
  simp only [react] at hr
  split_ifs at hr with hlost
  · obtain rfl := Option.some.inj hr
    exact .tell
  · rw [Bool.not_eq_true] at hlost
    rcases hstage with hlast | hlast | hlast
    · simp only [parseReply, hlast] at hr
      exact parseMAIL_moves hlost hlast (hne (by simp [hlast])) hr
    · simp only [parseReply, hlast] at hr
      exact parseRCPT_moves hlost hlast (hne (by simp [hlast])) hr
    · simp only [parseReply, hlast] at hr
      exact parseDATA_moves hr

lemma perform_tells {tells : List Action} (h : ∀ a ∈ tells, a = .tell) (s : Service) :
    tells.foldl (perform client []) s = s := by
  induction tells with
  | nil => rfl
  | cons a tells ih =>
    rw [List.foldl_cons, h a List.mem_cons_self]
    exact ih fun b hb => h b (List.mem_cons_of_mem a hb)

lemma reply_underway (hs : Underway commands base s) {aData : Bytes} (h : Solicited s aData) :
    ∀ t ∈ reply client s aData, Underway commands base t := by
  intro t ht
  by_cases hlast : isLastLine aData
  · obtain ⟨⟨u, actions⟩, hreact, rfl⟩ := line_cases hlast ht
    have hmoves := react_moves (s := answered (received aData s)) hs.stage hs.recipients hreact
    have hdrop : s.queue.dropLast = [] := by
      obtain ⟨done, q, tail, -, -, -, -, hnil | ⟨hone, -⟩⟩ := hs.transcript
      · rw [hnil, List.dropLast_nil]
      · rw [hone, List.dropLast_singleton]
    simp only at hmoves
    cases hmoves with
    | tell =>
      change Underway commands base (dequeue (answered (received aData s)))
      rw [dequeue_nil (u := answered (received aData s)) hdrop]
      exact hs.silent [_] rfl rfl rfl rfl rfl (by simp [Entry.IsCommand])
    | write data =>
      change Underway commands base (dequeue (perform client [] (answered (received aData s)) (.write data)))
      rw [dequeue_nil (u := perform client [] (answered (received aData s)) (.write data)) hdrop]
      refine hs.silent [_, _] rfl rfl rfl rfl (List.append_assoc _ _ _) ?_
      simp [Entry.IsCommand]
    | send _ tells next htells hpositive hlost hlastCommand hframe hnext hremaining =>
      rw [lastResponse_received] at hpositive
      have hstage : s.lastCommand = .mail ∨ s.lastCommand = .rcpt := by
        rcases hs.stage with hmail | hrcpt | hdata
        · exact .inl hmail
        · exact .inr hrcpt
        · exact absurd hdata hlastCommand
      have hone : ∃ q, s.queue = [q] := by
        obtain ⟨done, q, tail, -, -, -, -, hnil | ⟨hone, -⟩⟩ := hs.transcript
        · rw [h hnil hstage hlast hlost] at hpositive
          cases hpositive
        · exact ⟨q, hone⟩
      obtain ⟨q, hone⟩ := hone
      have huq : u.queue = [q] := by
        rw [hframe]
        exact hone
      have hulog : u.log = s.log ++ [.reply (received aData s).responses] := by rw [hframe]; rfl
      simp only [List.append_eq, List.foldl_append, perform_tells htells, List.foldl_cons, List.foldl_nil, perform]
      rw [dequeue_sendCommand huq]
      refine hs.next hone (isPositive_received hpositive s) rfl rfl ?_ hnext hremaining
      simp [hulog]
  · simp only [reply, step, if_neg hlast] at ht
    obtain rfl := Option.some.inj ht
    exact ⟨hs.stage, hs.recipients, hs.transcript⟩

lemma sendMessage_underway (client : Client) (hidle : s.queue = []) (hmessage : s.message ≠ none ∨ s.data ≠ none)
    (hne : matching (sendMessage client s).redirected ((sendMessage client s).recipients.getD []) ≠ []) :
    Underway (transaction (sendMessage client s)) s.log (sendMessage client s) := by
  obtain ⟨hqueue, -, hlog⟩ := withRecipients_frame client s
  have hsome : ¬(s.message = none ∧ s.data = none) := fun h => hmessage.elim (· h.1) (· h.2)
  have hstart : ∃ arguments redirected, sendMessage client s =
      sendCommand .mail arguments { withRecipients client s with
        sentRecipients := (withRecipients client s).recipients.getD [], redirected := redirected } := by
    simp only [sendMessage, if_neg hsome]
    split
    · exact ⟨_, true, rfl⟩
    · exact ⟨_, false, rfl⟩
  obtain ⟨arguments, redirected, hsend⟩ := hstart
  have hmail : sendMessage client s = { withRecipients client s with
      sentRecipients := (withRecipients client s).recipients.getD [], redirected := redirected
      queue := [⟨.mail, arguments⟩], lastCommand := .mail, log := s.log ++ [.wrote ⟨.mail, arguments⟩] } := by
    rw [hsend]
    simp [sendCommand, hqueue, hidle, hlog, write]
  rw [hmail] at hne ⊢
  refine ⟨.inl rfl, fun _ => hne, [], ⟨.mail, arguments⟩, [], rfl, by simp, by simp, by simp, .inr ⟨rfl, rfl⟩⟩

lemma Underway.done {base : List Entry} (hs : Underway commands base s) :
    Transcript commands (s.log.drop base.length) := by
  obtain ⟨done, q, tail, hcommands, hdone, hlog, htail, -⟩ := hs.transcript
  refine ⟨done, q, remaining s, tail, hcommands, hdone, ?_, htail⟩
  rw [hlog, List.append_assoc, List.drop_left]

theorem run_transaction (client : Client) (s : Service) (lines : List Bytes) (hidle : s.queue = [])
    (hmessage : s.message ≠ none ∨ s.data ≠ none)
    (hne : matching (sendMessage client s).redirected ((sendMessage client s).recipients.getD []) ≠ [])
    (h : Admits (reply client) Solicited (sendMessage client s) lines) :
    ∀ t ∈ tryRun (reply client) (sendMessage client s) lines,
      Transcript (transaction (sendMessage client s)) (t.log.drop s.log.length) := by
  intro t ht
  have hs := sendMessage_underway client hidle hmessage hne
  exact (tryRun_invariant (fun _ _ hu hc => reply_underway hu hc) hs h t ht).done

def written (log : List Entry) : List QueueObject :=
  log.filterMap fun
    | .wrote q => some q
    | _ => none

lemma Transcript.written_le {log : List Entry} (h : Transcript commands log) : written log <+: commands := by
  obtain ⟨done, q, rest, tail, rfl, -, rfl, htail⟩ := h
  have hnone : written tail = [] := by
    refine List.filterMap_eq_nil_iff.mpr fun e he => ?_
    have hno := htail e he
    cases e with
    | wrote q => exact absurd trivial hno
    | continued command aData => rfl
    | reply responses => rfl
  have hdone : written (done.flatMap fun d => [.wrote d.1, .reply d.2]) = done.map Prod.fst := by
    induction done with
    | nil => rfl
    | cons d done ih =>
      simp only [written, List.flatMap_cons, List.filterMap_append, List.map_cons] at ih ⊢
      rw [ih]
      rfl
  refine ⟨rest, ?_⟩
  have hsplit : ∀ a b, written (a ++ b) = written a ++ written b := fun _ _ => List.filterMap_append
  have hq : written (.wrote q :: tail) = q :: written tail := rfl
  rw [hsplit, hdone, hq, hnone]
  simp

def noRecipients : Service := { queue := [], message := some ⟨[], none, none, some (ascii "a\n")⟩ }

/-- Without a recipient `RCPT TO:<(null)>` is sent. -/
theorem null_recipient_not_transcript :
    ¬∀ t ∈ tryRun (reply {}) (sendMessage {} noRecipients) [ascii "250 ok"],
      Transcript (transaction (sendMessage {} noRecipients)) (t.log.drop noRecipients.log.length) := by
  intro h
  have hsome : (tryRun (reply {}) (sendMessage {} noRecipients) [ascii "250 ok"]).isSome := by decide
  obtain ⟨t, ht⟩ := Option.isSome_iff_exists.mp hsome
  have hno : ∀ t ∈ tryRun (reply {}) (sendMessage {} noRecipients) [ascii "250 ok"],
      ¬written (t.log.drop noRecipients.log.length) <+: transaction (sendMessage {} noRecipients) := by
    decide
  exact hno t ht (h t ht).written_le

def twoRecipients : Service :=
  { queue := []
    message := some ⟨[⟨0, 1, "a@b"⟩, ⟨1, 4, "c@d"⟩, ⟨2, 3, "e@f"⟩], some ⟨3, 1, "g@h"⟩, none, some (ascii "a\n")⟩ }

theorem run_transaction_twoRecipients :
    ∃ t ∈ tryRun (reply {}) (sendMessage {} twoRecipients) [ascii "250 ok", ascii "250 ok", ascii "550 no"],
      Transcript (transaction (sendMessage {} twoRecipients)) (t.log.drop twoRecipients.log.length) := by
  have hsome : (tryRun (reply {}) (sendMessage {} twoRecipients)
      [ascii "250 ok", ascii "250 ok", ascii "550 no"]).isSome := by decide
  obtain ⟨t, ht⟩ := Option.isSome_iff_exists.mp hsome
  exact ⟨t, ht, run_transaction {} twoRecipients _ rfl (.inl (by decide)) (by decide) (by decide) t ht⟩

end Xperimentum.Pantomime.SMTP
