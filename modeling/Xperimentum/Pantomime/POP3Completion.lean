import Xperimentum.Lib.Partial
import Xperimentum.Pantomime.POP3Store

/-! Completion of POP3 commands: when the server's reply to the command in flight, however the stream is cut into
reads, removes that command and has the next one written. -/

namespace Xperimentum.Pantomime.POP3

open Xperimentum.Lib.Partial

inductive Reply
  | positive (text : Bytes) (data : List Bytes)
  | negative (text : Bytes)
  deriving DecidableEq

/-- A line of a multi-line reply that starts with the termination octet is sent with a second one. -/
def stuffed (line : Bytes) : Bytes := if line.head? = some 46 then 46 :: line else line

def Reply.lines (command : POP3Command) : Reply → List Bytes
  | .positive text data =>
    (ascii "+OK" ++ text) :: if isMultiLine command then data.map stuffed ++ [[46]] else []
  | .negative text => [ascii "-ERR" ++ text]

def sent (lines : List Bytes) : Bytes := lines.flatMap (· ++ crlf)

def received : List Event → Bytes
  | [] => []
  | .send _ :: es => received es
  | .receive bytes _ :: es => bytes ++ received es

def clientSends : List Event → List Send
  | [] => []
  | .send send :: es => send :: clientSends es
  | .receive _ _ :: es => clientSends es

def InFlight (q : QueueObject) (s : Store) : Prop := s.queue.getLast? = some q

/-- The command is gone, nothing of its reply is left, and the command that is next in the queue, if there is one,
has been written. -/
structure Completed (q : QueueObject) (s t : Store) : Prop where
  removed : q ∉ t.queue
  consumed : t.rbuf = []
  next : ∀ q' ∈ t.queue.getLast?, t.written = s.written ++ [q']

/-- The command is in flight up to the last event, which completes it. -/
def Completes (q : QueueObject) (last : Event) : Store → List Event → Prop
  | s, [] => Ensures (step s last) (Completed q s)
  | s, e :: es => Ensures (step s e) fun t => InFlight q t ∧ Completes q last t es

/-- The last line is the only one after which a reply is parsed. -/
def EndsOnce (command : POP3Command) (lines : List Bytes) : Prop :=
  ∃ init last, lines = init ++ [last] ∧ (∀ l ∈ init, endsReply command l = false) ∧ endsReply command last = true

lemma sent_cons (l : Bytes) (ls : List Bytes) : sent (l :: ls) = l ++ 13 :: 10 :: sent ls := by
  simp [sent, crlf]

lemma sent_append (ls ms : List Bytes) : sent (ls ++ ms) = sent ls ++ sent ms := List.flatMap_append

section Lines

variable {w : Surroundings} {s : Store}

lemma readLines_stored {ls : List Bytes} {tail : Bytes} (hfree : ∀ l ∈ ls, splitLines l = none)
    (hends : ∀ l ∈ ls, endsReply s.lastCommand l = false) (htail : splitLines tail = none)
    (hr : s.rbuf = sent ls ++ tail) {n : ℕ} (hn : ls.length < n) :
    readLines w n s = some { s with rbuf := tail, responses := s.responses ++ ls } := by
  induction ls generalizing s n with
  | nil =>
    obtain ⟨n, rfl⟩ : ∃ m, n = m + 1 := ⟨n - 1, by omega⟩
    have hr : s.rbuf = tail := hr
    rw [readLines, hr, htail, ← hr, List.append_nil]
  | cons l ls ih =>
    obtain ⟨n, rfl⟩ : ∃ m, n = m + 1 := ⟨n - 1, by omega⟩
    rw [sent_cons, List.append_assoc] at hr
    have hsplit := splitLines_line (hfree l (by simp)) (sent ls ++ tail)
    rw [readLines, hr]
    simp only [List.cons_append] at hsplit ⊢
    rw [hsplit]
    simp only [hends l (by simp), Bool.false_eq_true, if_false]
    rw [ih (s := { s with rbuf := sent ls ++ tail, responses := s.responses ++ [l] })
      (fun x hx => hfree x (by simp [hx])) (fun x hx => hends x (by simp [hx])) rfl (by simpa using hn)]
    simp

/-- The store when the line that ends the reply has been read. -/
def replied (s : Store) (ls : List Bytes) (last rest : Bytes) : Store :=
  { s with rbuf := rest, responses := if last = [46] then s.responses ++ ls else s.responses ++ ls ++ [last] }

lemma readLines_ended {ls : List Bytes} {last rest : Bytes} (hfree : ∀ l ∈ ls, splitLines l = none)
    (hends : ∀ l ∈ ls, endsReply s.lastCommand l = false) (hlast : splitLines last = none)
    (hend : endsReply s.lastCommand last = true) (hr : s.rbuf = sent ls ++ (last ++ 13 :: 10 :: rest)) {n : ℕ}
    (hn : ls.length < n) : readLines w n s = parseServerOutput w (replied s ls last rest) := by
  induction ls generalizing s n with
  | nil =>
    obtain ⟨n, rfl⟩ : ∃ m, n = m + 1 := ⟨n - 1, by omega⟩
    have hr : s.rbuf = last ++ 13 :: 10 :: rest := hr
    rw [readLines, hr, splitLines_line hlast]
    simp only [hend, if_true, replied, List.append_nil]
    split <;> rfl
  | cons l ls ih =>
    obtain ⟨n, rfl⟩ : ∃ m, n = m + 1 := ⟨n - 1, by omega⟩
    rw [sent_cons, List.append_assoc] at hr
    have hsplit := splitLines_line (hfree l (by simp)) (sent ls ++ (last ++ 13 :: 10 :: rest))
    rw [readLines, hr]
    simp only [List.cons_append] at hsplit ⊢
    rw [hsplit]
    simp only [hends l (by simp), Bool.false_eq_true, if_false]
    rw [ih (s := { s with rbuf := sent ls ++ (last ++ 13 :: 10 :: rest), responses := s.responses ++ [l] })
      (fun x hx => hfree x (by simp [hx])) (fun x hx => hends x (by simp [hx])) hend rfl (by simpa using hn)]
    simp [replied]

lemma splitLines_cut {l b c : Bytes} (hl : splitLines l = none) (h : l ++ [13] = b ++ c) : splitLines b = none := by
  have hcut : splitLines (l ++ [13]) = none :=
    splitLines_append hl rfl fun hc => absurd hc.2 (by decide)
  exact splitLines_left (h ▸ hcut)

lemma cut_lines {ls : List Bytes} (hfree : ∀ l ∈ ls, splitLines l = none) {b c : Bytes} (h : sent ls = b ++ c) :
    ∃ ms ns tail, ls = ms ++ ns ∧ b = sent ms ++ tail ∧ sent ns = tail ++ c ∧ splitLines tail = none := by
  induction ls generalizing b with
  | nil =>
    obtain ⟨rfl, rfl⟩ := List.append_eq_nil_iff.mp h.symm
    exact ⟨[], [], [], rfl, rfl, rfl, rfl⟩
  | cons l ls ih =>
    rw [sent_cons] at h
    have hl := hfree l (by simp)
    by_cases hlen : b.length < l.length + 2
    · refine ⟨[], l :: ls, b, rfl, rfl, by rw [sent_cons, h], ?_⟩
      have hsplit : l ++ [13] ++ 10 :: sent ls = b ++ c := by simpa using h
      obtain ⟨d, hd, -⟩ | ⟨d, hd, -⟩ := List.append_eq_append_iff.mp hsplit.symm
      · exact splitLines_cut hl hd
      · have hd0 : d = [] := by
          have := congrArg List.length hd
          simp only [List.length_append, List.length_singleton] at this
          exact List.eq_nil_of_length_eq_zero (by omega)
        subst hd0
        refine splitLines_cut (c := []) hl ?_
        simpa using hd.symm
    · have hsplit : (l ++ [13, 10]) ++ sent ls = b ++ c := by simpa using h
      obtain ⟨d, rfl, hd⟩ | ⟨d, hd, hc⟩ := List.append_eq_append_iff.mp hsplit
      · obtain ⟨ms, ns, tail, rfl, rfl, hns, ht⟩ := ih (fun x hx => hfree x (by simp [hx])) hd
        exact ⟨l :: ms, ns, tail, rfl, by rw [sent_cons]; simp, hns, ht⟩
      · have hd0 : d = [] := by
          have := congrArg List.length hd
          simp only [List.length_append, List.length_cons, List.length_nil] at this
          exact List.eq_nil_of_length_eq_zero (by omega)
        subst hd0
        obtain rfl : l ++ [13, 10] = b := by simpa using hd
        refine ⟨[l], ls, [], rfl, by rw [sent_cons]; simp [sent], by simpa using hc.symm, rfl⟩

lemma length_le_sent (ls : List Bytes) : ls.length ≤ (sent ls).length := by
  induction ls with
  | nil => exact Nat.zero_le _
  | cons l ls ih =>
    rw [sent_cons]
    simp only [List.length_cons, List.length_append]
    omega

end Lines

section Sends

variable {s : Store}

/-- Commands sent while others are queued are queued in front of them. -/
structure Queued (sends : List Send) (s t : Store) : Prop where
  queue : ∃ qs, t.queue = qs ++ s.queue ∧ qs.map QueueObject.command = (sends.map Prod.fst).reverse ∧
    ∀ x ∈ qs, s.next ≤ x.identity
  next : s.next ≤ t.next
  same : t = { s with queue := t.queue, next := t.next }

lemma sendCommand_queued (hs : s.queue ≠ []) (send : Send) :
    sendCommand s send = { s with queue := ⟨s.next, send.1, send.2⟩ :: s.queue, next := s.next + 1 } := by
  have hlen : 1 < s.queue.length + 1 := by
    have := List.length_pos_of_ne_nil hs
    omega
  simp only [sendCommand, List.length_cons, if_pos hlen]

lemma foldl_queued (sends : List Send) (hs : s.queue ≠ []) : Queued sends s (sends.foldl sendCommand s) := by
  induction sends generalizing s with
  | nil => exact ⟨⟨[], rfl, rfl, by simp⟩, le_rfl, rfl⟩
  | cons send sends ih =>
    rw [List.foldl_cons, sendCommand_queued hs]
    obtain ⟨⟨qs, hq, hc, hi⟩, hn, hsame⟩ :=
      ih (s := { s with queue := ⟨s.next, send.1, send.2⟩ :: s.queue, next := s.next + 1 }) (List.cons_ne_nil _ _)
    refine ⟨⟨qs ++ [⟨s.next, send.1, send.2⟩], by simpa using hq, ?_, fun x hx => ?_⟩, (Nat.le_succ _).trans hn, hsame⟩
    · rw [List.map_append, hc, List.map_cons, List.map_cons, List.map_nil, List.reverse_cons]
    · rcases List.mem_append.mp hx with hx | hx
      · exact (Nat.le_succ _).trans (hi x hx)
      · rw [List.mem_singleton.mp hx]

/-- The handlers leave the queue and the buffers alone. -/
structure Framed (s t : Store) : Prop where
  queue : t.queue = s.queue
  next : t.next = s.next
  rbuf : t.rbuf = s.rbuf
  written : t.written = s.written

variable {w : Surroundings} {t : Store} {sends : List Send}

lemma parseAUTHORIZATION_frame (h : parseAUTHORIZATION s = some (t, sends)) : Framed s t := by
  simp only [parseAUTHORIZATION] at h
  split at h
  · split at h
    · split at h
      · cases h
        exact ⟨rfl, rfl, rfl, rfl⟩
      · cases h
    · cases h
      exact ⟨rfl, rfl, rfl, rfl⟩
  · cases h
    exact ⟨rfl, rfl, rfl, rfl⟩

lemma parseCAPA_frame (h : parseCAPA w s = some (t, sends)) : Framed s t := by
  rw [parseCAPA] at h
  split at h
  · cases h
    exact ⟨rfl, rfl, rfl, rfl⟩
  · cases h

lemma parseListing_frame {change : ℕ → Bytes → Option (Message → Message)} {sends' : List Send}
    (h : parseListing change sends s = some (t, sends')) : Framed s t := by
  obtain ⟨ms, -, he⟩ := Option.map_eq_some_iff.mp h
  cases he
  exact ⟨rfl, rfl, rfl, rfl⟩

lemma parseMessage_frame {keyword : Bytes} {limit : ℕ} {handled : Bool} {rawSource : Option Bytes}
    (h : parseMessage keyword limit handled rawSource w s = some (t, sends)) : Framed s t := by
  rw [parseMessage] at h
  split at h
  · obtain ⟨idx, -, hidx⟩ := Option.bind_eq_some_iff.mp h
    split at hidx
    · cases hidx
      exact ⟨rfl, rfl, rfl, rfl⟩
    · cases hidx
  · cases h
    exact ⟨rfl, rfl, rfl, rfl⟩

lemma parseSTAT_frame (h : parseSTAT s = some (t, sends)) : Framed s t := by
  rw [parseSTAT] at h
  split at h
  · split at h
    · split at h
      · cases h
        exact ⟨rfl, rfl, rfl, rfl⟩
      · cases h
    · cases h
  · cases h
    exact ⟨rfl, rfl, rfl, rfl⟩

lemma parseUSER_frame (h : parseUSER s = some (t, sends)) : Framed s t := by
  rw [parseUSER] at h
  split at h
  all_goals
    cases h
    exact ⟨rfl, rfl, rfl, rfl⟩

lemma parseCommand_frame (h : parseCommand w s = some (t, sends)) : Framed s t := by
  rw [parseCommand] at h
  cases hc : s.lastCommand
  all_goals rw [hc] at h
  case authorization => exact parseAUTHORIZATION_frame h
  case capa => exact parseCAPA_frame h
  case list | uidl => exact parseListing_frame h
  case retr | retrAndInitialize | top => exact parseMessage_frame h
  case stat => exact parseSTAT_frame h
  case user => exact parseUSER_frame h
  all_goals
    cases h
    exact ⟨rfl, rfl, rfl, rfl⟩

/-- The command that is next is no indicator, unless it is the last in the queue. -/
def NextIsCommand (commands : List POP3Command) : Prop :=
  commands.getLast? = some .expungeCompleted → commands.length = 1

variable {q : QueueObject} {pre : List QueueObject}

lemma parseServerOutput_cases (hq : s.queue = pre ++ [q]) (hpre : q ∉ pre) (hid : q.identity < s.next)
    (hr : s.responses ≠ []) (h : parseServerOutput w s = some t) :
    ∃ u sends qs, parseCommand w s = some (u, sends) ∧ qs.map QueueObject.command =
      (sends.map Prod.fst).reverse ++ pre.map QueueObject.command ∧ q ∉ qs ∧ t.rbuf = s.rbuf ∧
      ((qs = [] ∧ t.queue = []) ∨ ∃ q' ∈ qs.getLast?,
        (q'.command ≠ .expungeCompleted ∧ t.queue = qs ∧ t.written = s.written ++ [q']) ∨
        (q'.command = .expungeCompleted ∧ t.queue = qs.dropLast ∧ t.written = s.written)) := by
  rw [parseServerOutput, if_neg hr] at h
  obtain ⟨⟨u, sends⟩, hu, ht⟩ := Option.map_eq_some_iff.mp h
  obtain ⟨huq, hun, hur, huw⟩ := parseCommand_frame hu
  have hne : u.queue ≠ [] := by rw [huq, hq]; simp
  obtain ⟨⟨qs, hqs, hcommands, hids⟩, -, hsame⟩ := foldl_queued sends hne
  have hall : (sends.foldl sendCommand u).queue = (qs ++ pre) ++ [q] := by rw [hqs, huq, hq, List.append_assoc]
  have hnot : q ∉ qs ++ pre := by
    rw [List.mem_append, not_or]
    refine ⟨fun hm => ?_, hpre⟩
    have := hids q hm
    omega
  refine ⟨u, sends, qs ++ pre, hu, by rw [List.map_append, hcommands], hnot, ?_⟩
  simp only [hall, List.append_eq_nil_iff, List.cons_ne_nil, and_false, if_false, List.dropLast_concat] at ht
  have hrbuf : (sends.foldl sendCommand u).rbuf = s.rbuf := by rw [hsame]; exact hur
  have hwritten : (sends.foldl sendCommand u).written = s.written := by rw [hsame]; exact huw
  rw [emptyQueue] at ht
  simp only at ht
  split at ht
  · next q' hlast =>
    subst ht
    rw [runCommand]
    split
    · next he => exact ⟨hrbuf, .inr ⟨q', hlast, .inr ⟨he, rfl, hwritten⟩⟩⟩
    · next he => exact ⟨hrbuf, .inr ⟨q', hlast, .inl ⟨he, rfl, by rw [write, hwritten]⟩⟩⟩
  · next hnone =>
    subst ht
    have hnil := List.getLast?_eq_none_iff.mp hnone
    exact ⟨hrbuf, .inl ⟨hnil, hnil⟩⟩

lemma parseServerOutput_completed (hq : s.queue = pre ++ [q]) (hpre : q ∉ pre) (hid : q.identity < s.next)
    (hr : s.responses ≠ []) (hrbuf : s.rbuf = []) {s₀ : Store} (hw : s₀.written = s.written) :
    Ensures (parseServerOutput w s) (Completed q s₀) ↔ ∃ u sends, parseCommand w s = some (u, sends) ∧
      NextIsCommand ((sends.map Prod.fst).reverse ++ pre.map QueueObject.command) := by
  refine ⟨fun ⟨t, ht, hc⟩ => ?_, fun ⟨u, sends, hu, hn⟩ => ?_⟩
  · obtain ⟨u, sends, qs, hu, hqs, -, -, hcases⟩ := parseServerOutput_cases hq hpre hid hr ht
    refine ⟨u, sends, hu, fun hlast => ?_⟩
    rw [← hqs, List.getLast?_map] at hlast
    rw [← hqs, List.length_map]
    rcases hcases with ⟨rfl, -⟩ | ⟨q', hq', ⟨hne, -, -⟩ | ⟨-, htq, htw⟩⟩
    · cases hlast
    · rw [Option.mem_def.mp hq'] at hlast
      exact absurd (Option.some.inj hlast) hne
    · cases hd : qs.dropLast.getLast? with
      | none =>
        have hnil := List.getLast?_eq_none_iff.mp hd
        have hlen := congrArg List.length hnil
        have hpos := List.length_pos_of_ne_nil fun h0 : qs = [] => by rw [h0] at hq'; cases hq'
        rw [List.length_dropLast, List.length_nil] at hlen
        omega
      | some q'' =>
        have hnext := hc.next q'' (by rw [htq]; exact hd)
        rw [htw, hw] at hnext
        exact absurd (congrArg List.length hnext) (by simp)
  · cases ht : parseServerOutput w s with
    | none =>
      rw [parseServerOutput, if_neg hr, hu] at ht
      cases ht
    | some t =>
      obtain ⟨u', sends', qs, hu', hqs, hnot, htr, hcases⟩ := parseServerOutput_cases hq hpre hid hr ht
      rw [hu] at hu'
      cases hu'
      refine ⟨t, rfl, ?_, htr.trans hrbuf, fun x hx => ?_⟩
      · rcases hcases with ⟨-, htq⟩ | ⟨q', -, ⟨-, htq, -⟩ | ⟨-, htq, -⟩⟩
        · rw [htq]
          exact List.not_mem_nil
        · rwa [htq]
        · rw [htq]
          exact fun hm => hnot (List.mem_of_mem_dropLast hm)
      · rcases hcases with ⟨-, htq⟩ | ⟨q', hq', ⟨-, htq, htw⟩ | ⟨he, htq, -⟩⟩
        · rw [htq] at hx
          cases hx
        · rw [htq, Option.mem_def.mp hq'] at hx
          cases hx
          rw [htw, hw]
        · have hone := hn (by rw [← hqs, List.getLast?_map, Option.mem_def.mp hq', ← he]; rfl)
          rw [← hqs, List.length_map] at hone
          rw [htq] at hx
          have hnil : qs.dropLast = [] := List.eq_nil_of_length_eq_zero (by rw [List.length_dropLast, hone])
          rw [hnil] at hx
          cases hx

end Sends

/-- The command at the end of the queue has been written, and there is no other with its identity. -/
structure Awaiting (q : QueueObject) (s : Store) : Prop where
  queue : ∃ pre, s.queue = pre ++ [q] ∧ q ∉ pre
  identity : q.identity < s.next
  command : s.lastCommand = q.command

section Reads

variable {q : QueueObject} {s t : Store} {w : Surroundings}

lemma Awaiting.inFlight (ha : Awaiting q s) : InFlight q s := by
  obtain ⟨pre, hq, -⟩ := ha.queue
  rw [InFlight, hq, List.getLast?_concat]

lemma Awaiting.queue_ne (ha : Awaiting q s) : s.queue ≠ [] := by
  obtain ⟨pre, hq, -⟩ := ha.queue
  rw [hq]
  simp

lemma Awaiting.send (ha : Awaiting q s) (send : Send) : Awaiting q (sendCommand s send) := by
  rw [sendCommand_queued ha.queue_ne]
  obtain ⟨pre, hq, hpre⟩ := ha.queue
  refine ⟨⟨⟨s.next, send.1, send.2⟩ :: pre, by simp [hq], ?_⟩, ha.identity.trans (Nat.lt_succ_self _), ha.command⟩
  rw [List.mem_cons, not_or]
  refine ⟨fun h => ?_, hpre⟩
  have := ha.identity
  rw [h] at this
  exact absurd this (lt_irrefl _)

lemma Awaiting.stored (ha : Awaiting q s) (rbuf : Bytes) (responses : List Bytes) :
    Awaiting q { s with rbuf := rbuf, responses := responses } := ⟨ha.queue, ha.identity, ha.command⟩

lemma foldl_stored (sends : List Send) (hs : s.queue ≠ []) (rbuf : Bytes) (responses : List Bytes) :
    sends.foldl sendCommand { s with rbuf := rbuf, responses := responses } =
      { sends.foldl sendCommand s with rbuf := rbuf, responses := responses } := by
  induction sends generalizing s with
  | nil => rfl
  | cons send sends ih =>
    rw [List.foldl_cons, List.foldl_cons, sendCommand_queued hs,
      sendCommand_queued (s := { s with rbuf := rbuf, responses := responses }) hs]
    exact ih (s := { s with queue := ⟨s.next, send.1, send.2⟩ :: s.queue, next := s.next + 1 }) (List.cons_ne_nil _ _)

lemma updateRead_cases (ha : Awaiting q s) (htail : splitLines s.rbuf = none) {ns : List Bytes}
    (hfree : ∀ l ∈ ns, splitLines l = none) {bytes future : Bytes} (h : sent ns = s.rbuf ++ (bytes ++ future)) :
    (∃ ms ns' tail, ns = ms ++ ns' ∧ (∀ l ∈ ms, endsReply q.command l = false) ∧ sent ns' = tail ++ future ∧
      splitLines tail = none ∧
      updateRead w s bytes = some { s with rbuf := tail, responses := s.responses ++ ms }) ∨
    ∃ ms last rest ns' tail, ns = ms ++ last :: (rest ++ ns') ∧ (∀ l ∈ ms, endsReply q.command l = false) ∧
      endsReply q.command last = true ∧ sent ns' = tail ++ future ∧
      updateRead w s bytes = parseServerOutput w (replied s ms last (sent rest ++ tail)) := by
  rw [← List.append_assoc] at h
  obtain ⟨ms, ns', tail, rfl, hb, hns, ht⟩ := cut_lines hfree h
  have hfree' : ∀ l ∈ ms, splitLines l = none := fun l hl => hfree l (by simp [hl])
  have hlen : ms.length < (s.rbuf ++ bytes).length + 1 := by
    have := length_le_sent ms
    rw [hb, List.length_append]
    omega
  by_cases hend : ∀ l ∈ ms, endsReply q.command l = false
  · refine .inl ⟨ms, ns', tail, rfl, hend, hns, ht, ?_⟩
    exact readLines_stored (s := { s with rbuf := s.rbuf ++ bytes }) hfree' (by rwa [← ha.command] at hend) ht hb hlen
  · obtain ⟨init, last, rest, rfl, hinit, hlast⟩ :
        ∃ init last rest, ms = init ++ last :: rest ∧ (∀ l ∈ init, endsReply q.command l = false) ∧
          endsReply q.command last = true := by
      clear hb hlen hfree' h hfree
      induction ms with
      | nil => exact absurd (fun l hl => absurd hl List.not_mem_nil) hend
      | cons l ms ih =>
        cases hl : endsReply q.command l with
        | true => exact ⟨[], l, ms, rfl, by simp, hl⟩
        | false =>
          obtain ⟨init, last, rest, rfl, hinit, hlast⟩ := ih fun hall => hend (by simpa [hl] using hall)
          exact ⟨l :: init, last, rest, rfl, by simpa [hl] using hinit, hlast⟩
    refine .inr ⟨init, last, rest, ns', tail, by simp, hinit, hlast, hns, ?_⟩
    refine @readLines_ended w { s with rbuf := s.rbuf ++ bytes } init last (sent rest ++ tail)
      (fun l hl => hfree' l (by simp [hl])) (by rwa [← ha.command] at hinit) (hfree' last (by simp))
      (by rwa [← ha.command] at hlast) ?_ _ ?_
    · rw [hb, sent_append, sent_cons]
      simp
    · rw [List.length_append] at hlen
      omega

lemma sent_eq_nil {ls : List Bytes} {tail : Bytes} (hfree : ∀ l ∈ ls, splitLines l = none) (h : sent ls = tail)
    (ht : splitLines tail = none) : ls = [] := by
  cases ls with
  | nil => rfl
  | cons l ls =>
    rw [← h, sent_cons, splitLines_line (hfree l (by simp))] at ht
    cases ht

lemma ensures_some_iff {S : Type} {a : S} {P : S → Prop} : Ensures (some a) P ↔ P a :=
  ⟨fun ⟨_, h, hp⟩ => Option.some.inj h ▸ hp, fun h => ⟨a, rfl, h⟩⟩

lemma completed_congr {s₁ s₂ : Store} (h : s₁.written = s₂.written) : Completed q s₁ = Completed q s₂ := by
  funext u
  refine propext ⟨fun hc => ⟨hc.removed, hc.consumed, ?_⟩, fun hc => ⟨hc.removed, hc.consumed, ?_⟩⟩
  · rw [← h]
    exact hc.next
  · rw [h]
    exact hc.next

lemma ended_unique {command : POP3Command} {ms init rest : List Bytes} {l last : Bytes}
    (hms : ∀ x ∈ init, endsReply command x = false) (hl : endsReply command l = true)
    (h : ms ++ l :: rest = init ++ [last]) : rest = [] := by
  rcases List.eq_nil_or_concat rest with hnil | ⟨front, x, rfl⟩
  · exact hnil
  · have hcut : (ms ++ l :: front) ++ [x] = init ++ [last] := by simpa using h
    obtain ⟨hinit, -⟩ := List.append_inj' hcut rfl
    have := hms l (by rw [← hinit]; simp)
    rw [hl] at this
    cases this

lemma lines_stored {ns ms rest : List Bytes} {last : Bytes} (hhead : s.responses ≠ [] ∨ ns.head? ≠ some [46])
    (hns : ns = ms ++ last :: rest) : s.responses ++ ms ≠ [] ∨ last ≠ [46] := by
  rcases hhead with hr | hr
  · exact .inl (by simp [hr])
  · cases ms with
    | nil =>
      rw [hns] at hr
      exact .inr fun hl => hr (by rw [hl]; rfl)
    | cons l ms => exact .inl (by simp)

lemma replied_stored {ms init : List Bytes} {last rest tail : Bytes} (sends : List Send) (hs : s.queue ≠ []) :
    replied (sends.foldl sendCommand { s with rbuf := tail, responses := s.responses ++ ms }) init last rest =
      replied (sends.foldl sendCommand s) (ms ++ init) last rest := by
  have hsame : (sends.foldl sendCommand s).responses = s.responses := by rw [(foldl_queued sends hs).same]
  rw [foldl_stored sends hs, replied, replied, hsame]
  simp only [List.append_assoc]

lemma replied_ne_nil {ms : List Bytes} {last rest : Bytes} (h : s.responses ++ ms ≠ [] ∨ last ≠ [46]) :
    (replied s ms last rest).responses ≠ [] := by
  rw [replied]
  split
  · next hl => exact h.resolve_right (not_not_intro hl)
  · simp

lemma not_inFlight_parsed (ha : Awaiting q s) {ms : List Bytes} {last rest : Bytes}
    (hne : s.responses ++ ms ≠ [] ∨ last ≠ [46]) (h : parseServerOutput w (replied s ms last rest) = some t) :
    q ∉ t.queue ∧ t.rbuf = rest := by
  obtain ⟨pre, hq, hpre⟩ := ha.queue
  obtain ⟨u, sends, qs, -, -, hnot, hrbuf, hcases⟩ :=
    parseServerOutput_cases (s := replied s ms last rest) hq hpre ha.identity (replied_ne_nil hne) h
  refine ⟨?_, hrbuf⟩
  rcases hcases with ⟨-, htq⟩ | ⟨q', -, ⟨-, htq, -⟩ | ⟨-, htq, -⟩⟩
  · rw [htq]
    exact List.not_mem_nil
  · rwa [htq]
  · rw [htq]
    exact fun hm => hnot (List.mem_of_mem_dropLast hm)

lemma completes_iff_parsed (ha : Awaiting q s) (htail : splitLines s.rbuf = none) {ns : List Bytes}
    (hfree : ∀ l ∈ ns, splitLines l = none) {c : Bytes} (hc : c ≠ []) {es : List Event}
    (hsent : sent ns = s.rbuf ++ (received es ++ c)) (hhead : s.responses ≠ [] ∨ ns.head? ≠ some [46]) :
    Completes q (.receive c w) s es ↔ ∃ init last, ns = init ++ [last] ∧
      (∀ l ∈ init, endsReply q.command l = false) ∧ endsReply q.command last = true ∧
      Ensures (parseServerOutput w (replied ((clientSends es).foldl sendCommand s) init last [])) (Completed q s) := by
  induction es generalizing s ns with
  | nil =>
    have hsent' : sent ns = s.rbuf ++ (c ++ []) := by
      rw [List.append_nil]
      exact hsent
    obtain ⟨ms, ns', tail, rfl, hms, hns, ht, hstep⟩ | ⟨ms, last, rest, ns', tail, rfl, hms, hlast, hns, hstep⟩ :=
      updateRead_cases (w := w) ha htail hfree hsent'
    · obtain rfl := sent_eq_nil (fun l hl => hfree l (by simp [hl])) (hns.trans (List.append_nil _)) ht
      refine ⟨fun ⟨t, ht, hcomp⟩ => ?_, fun ⟨init, last, hinit, _, hlast, _⟩ => ?_⟩
      · rw [step, hstep] at ht
        cases ht
        exact absurd (List.mem_of_getLast? ha.inFlight) hcomp.removed
      · rw [List.append_nil] at hinit
        rw [hms last (by rw [hinit]; simp)] at hlast
        cases hlast
    · rw [List.append_nil] at hns
      have hne := lines_stored hhead rfl
      have hrest : sent rest ++ tail = sent (rest ++ ns') := by rw [sent_append, hns]
      rw [Completes, step, hstep, hrest]
      refine ⟨fun ⟨t, ht, hcomp⟩ => ?_, fun ⟨init, last', hinit, hends, _, hcomp⟩ => ?_⟩
      · have hnil : sent (rest ++ ns') = [] := by rw [← (not_inFlight_parsed ha hne ht).2, hcomp.consumed]
        obtain hns0 := sent_eq_nil (fun l hl => hfree l (by simp [List.mem_append.mp hl])) hnil rfl
        rw [hns0] at ht ⊢
        exact ⟨ms, last, rfl, hms, hlast, t, ht, hcomp⟩
      · have hnil := ended_unique hends hlast hinit
        rw [hnil] at hinit ⊢
        obtain ⟨rfl, hl⟩ := List.append_inj' hinit rfl
        cases hl
        exact hcomp
  | cons e es ih =>
    cases e with
    | send send =>
      have hs := sendCommand_queued ha.queue_ne send
      rw [Completes, step, ensures_some_iff, and_iff_right (ha.send send).inFlight]
      rw [ih (ha.send send) (by rwa [hs]) hfree (by rwa [hs]) (by rwa [hs])]
      have hw : (sendCommand s send).written = s.written := by rw [hs]
      rw [completed_congr hw]
      rfl
    | receive bytes w' =>
      have hsent' : sent ns = s.rbuf ++ (bytes ++ (received es ++ c)) := by rw [hsent, received, List.append_assoc]
      rw [Completes, step]
      obtain ⟨ms, ns', tail, rfl, hms, hns, ht, hstep⟩ | ⟨ms, last, rest, ns', tail, rfl, hms, hlast, hns, hstep⟩ :=
        updateRead_cases (w := w') ha htail hfree hsent'
      · rw [hstep, ensures_some_iff, and_iff_right (ha.stored _ _).inFlight]
        have hhead'' : s.responses ++ ms ≠ [] ∨ ns'.head? ≠ some [46] := by
          cases ns' with
          | nil => exact .inr nofun
          | cons l ns' => exact (lines_stored hhead rfl).imp_right fun hl h => hl (Option.some.inj h)
        rw [ih (ha.stored tail (s.responses ++ ms)) ht (fun l hl => hfree l (by simp [hl])) hns hhead'']
        have hw : Completed q { s with rbuf := tail, responses := s.responses ++ ms } = Completed q s := completed_congr rfl
        simp only [replied_stored _ ha.queue_ne, hw]
        refine ⟨fun ⟨init, last, hinit, hends, hlast, hcomp⟩ => ?_, fun ⟨init, last, hinit, hends, hlast, hcomp⟩ => ?_⟩
        · refine ⟨ms ++ init, last, by rw [hinit, List.append_assoc], ?_, hlast, ?_⟩
          · intro l hl
            rcases List.mem_append.mp hl with hl | hl
            · exact hms l hl
            · exact hends l hl
          · exact hcomp
        · rcases List.eq_nil_or_concat ns' with rfl | ⟨front, x, rfl⟩
          · exact absurd (List.append_eq_nil_iff.mp (List.append_eq_nil_iff.mp hns.symm).2).2 hc
          · have hcut : (ms ++ front) ++ [x] = init ++ [last] := by simpa using hinit
            obtain ⟨rfl, hx⟩ := List.append_inj' hcut rfl
            cases hx
            exact ⟨front, last, by simp, fun l hl => hends l (by simp [hl]), hlast, hcomp⟩
      · have hnil : rest ++ ns' ≠ [] := by
          intro hnil
          rw [(List.append_eq_nil_iff.mp hnil).2] at hns
          exact hc (List.append_eq_nil_iff.mp (List.append_eq_nil_iff.mp hns.symm).2).2
        rw [hstep]
        refine ⟨fun ⟨t, ht, hflight, _⟩ => ?_, fun ⟨init, last', hinit, hends, _, _⟩ => ?_⟩
        · exact absurd (List.mem_of_getLast? hflight) (not_inFlight_parsed ha (lines_stored hhead rfl) ht).1
        · exact absurd (ended_unique hends hlast hinit) hnil

end Reads

end Xperimentum.Pantomime.POP3
