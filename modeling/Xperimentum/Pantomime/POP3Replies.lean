import Xperimentum.Pantomime.POP3Completion

/-! Which replies complete the POP3 command they answer. -/

namespace Xperimentum.Pantomime.POP3

open Xperimentum.Lib.Partial

section Queue

variable {s t : Store} {q : QueueObject} {w : Surroundings}

structure Ordered (s : Store) : Prop where
  below : ∀ x ∈ s.queue, x.identity < s.next
  nodup : s.queue.Nodup

lemma Ordered.shrink (h : Ordered s) (hq : t.queue.Sublist s.queue) (hn : s.next = t.next) : Ordered t :=
  ⟨fun x hx => hn ▸ h.below x (hq.mem hx), h.nodup.sublist hq⟩

lemma Ordered.runCommand (h : Ordered s) : Ordered (runCommand q s) := by
  rw [POP3.runCommand]
  split
  · exact h.shrink (List.dropLast_sublist _) rfl
  · exact h.shrink (List.Sublist.refl _) rfl

lemma Ordered.emptyQueue (h : Ordered s) : Ordered (emptyQueue s) := by
  rw [POP3.emptyQueue]
  split
  · exact h.runCommand
  · exact h

lemma Ordered.sendCommand (h : Ordered s) (send : Send) : Ordered (sendCommand s send) := by
  have hpush : Ordered { s with queue := ⟨s.next, send.1, send.2⟩ :: s.queue, next := s.next + 1 } := by
    refine ⟨fun x hx => ?_, List.nodup_cons.mpr ⟨fun hm => ?_, h.nodup⟩⟩
    · rcases List.mem_cons.mp hx with rfl | hx
      · exact Nat.lt_succ_self _
      · exact (h.below x hx).trans (Nat.lt_succ_self _)
    · exact absurd (h.below _ hm) (lt_irrefl _)
  simp only [POP3.sendCommand]
  split
  · exact hpush
  · exact hpush.runCommand

lemma Ordered.sendAll (h : Ordered s) (sends : List Send) : Ordered (sends.foldl POP3.sendCommand s) := by
  induction sends generalizing s with
  | nil => exact h
  | cons send sends ih => exact ih (h.sendCommand send)

lemma Ordered.parseServerOutput (h : Ordered s) (ht : parseServerOutput w s = some t) : Ordered t := by
  rw [POP3.parseServerOutput] at ht
  split at ht
  · cases ht
    exact h
  · obtain ⟨⟨u, sends⟩, hu, rfl⟩ := Option.map_eq_some_iff.mp ht
    have hf := parseCommand_frame hu
    have hsent := (h.shrink (by rw [hf.queue]) hf.next.symm).sendAll sends
    simp only
    split
    · exact hsent.shrink (List.Sublist.refl _) rfl
    · refine Ordered.emptyQueue (hsent.shrink (List.dropLast_sublist _) rfl)

lemma Ordered.readLines {n : ℕ} (h : Ordered s) (ht : readLines w n s = some t) : Ordered t := by
  induction n generalizing s with
  | zero =>
    cases ht
    exact h
  | succ n ih =>
    rw [POP3.readLines] at ht
    split at ht
    · cases ht
      exact h
    · split at ht
      · refine Ordered.parseServerOutput (h.shrink ?_ ?_) ht
        all_goals split <;> rfl
      · next line rest _ _ =>
        exact ih (s := { s with rbuf := rest, responses := s.responses ++ [line] })
          (h.shrink (List.Sublist.refl _) rfl) ht

lemma Ordered.step (h : Ordered s) (e : Event) : Allows (step s e) Ordered := by
  intro t ht
  cases e with
  | send send =>
    cases ht
    exact h.sendCommand send
  | receive bytes w =>
    exact Ordered.readLines (s := { s with rbuf := s.rbuf ++ bytes }) (h.shrink (List.Sublist.refl _) rfl) ht

/-- The run of a store from its creation. -/
def session (username password : Bytes) (es : List Event) : Option Store :=
  tryRun step { username := username, password := password } es

lemma session_ordered {username password : Bytes} {es : List Event} (h : session username password es = some s) :
    Ordered s := by
  refine allows_foldlM es (fun t ht e _ => ht.step e) ?_ s h
  exact ⟨fun x hx => by rw [List.mem_singleton.mp hx]; exact Nat.one_pos, List.nodup_singleton _⟩

lemma Ordered.awaiting (h : Ordered s) (hq : InFlight q s) (hc : s.lastCommand = q.command) : Awaiting q s := by
  have hsplit := List.dropLast_append_getLast? q hq
  refine ⟨⟨s.queue.dropLast, hsplit.symm, fun hm => ?_⟩, h.below q (List.mem_of_getLast? hq), hc⟩
  have hnodup := h.nodup
  rw [← hsplit] at hnodup
  exact (List.nodup_append.mp hnodup).2.2 q hm q (List.mem_singleton_self q) rfl

end Queue

/-- Of the commands with data, those that are not retrievals take a line of it that starts with `-ERR` for the end;
the retrievals know no negative reply. -/
def Recognised (command : POP3Command) : Reply → Prop
  | .positive _ data =>
    isMultiLine command = true → isRetrieval command = false → ∀ line ∈ data, hasCPrefix line (ascii "-ERR") = false
  | .negative _ => isRetrieval command = false

/-- A line of a listing names a message that the store has. -/
def Names (count : ℕ) (line rest : Bytes) : Prop := ∃ idx, scanUnsigned line = some (idx, rest) ∧ 0 < idx ∧ idx ≤ count

/-- The arguments of a retrieval name a message that the folder shows. -/
def Shows (w : Surroundings) (keyword : Bytes) (limit : ℕ) (arguments : Bytes) : Prop :=
  hasCPrefix arguments keyword = true ∧ ∃ number ∈ scanUnsigned (arguments.drop keyword.length),
    0 < number.1 % 2 ^ 32 ∧ number.1 % 2 ^ 32 < limit ∧ number.1 % 2 ^ 32 ≤ w.visible

/-- What a positive reply has to be for its handler to come to its end. -/
def Readable (w : Surroundings) (count : ℕ) (q : QueueObject) : Reply → Prop
  | .positive text data =>
    match q.command with
    | .authorization => ∀ first ∈ text.findIdx? (· = 60), ∀ last ∈ text.findIdx? (· = 62), first ≤ last + 1
    | .capa => ∀ line ∈ data, w.decodable (stuffed line) = true
    | .list => ∀ line ∈ data, ∃ rest, Names count (stuffed line) rest
    | .uidl => ∀ line ∈ data, ∃ rest, Names count (stuffed line) rest ∧
        ((skipSpace rest).takeWhile fun c => !isSpace c && c ≠ 0).length ≤ 70
    | .stat => ∃ count ∈ scanInteger text, 0 ≤ count
    | .retr | .retrAndInitialize => Shows w (ascii "RETR ") (2 ^ 32) q.arguments ∧
        w.contentHandled (joined (data.map stuffed)) = true
    | .top => Shows w (ascii "TOP ") (2 ^ 31) q.arguments
    | _ => True
  | .negative _ => True

/-- The commands that are sent when the reply has been handled. -/
def answers (w : Surroundings) (command : POP3Command) (r : Reply) : List POP3Command :=
  match command, r with
  | .authorization, .positive _ _ => [.capa]
  | .stat, .positive _ _ => [.list]
  | .user, .positive _ _ => [.pass]
  | .user, .negative _ => [.quit]
  | .list, _ => [.uidl]
  | .apop, _ | .pass, _ | .quit, _ | .capa, _ | .uidl, _ => w.sends.map Prod.fst
  | .stls, .positive _ _ | .retr, .positive _ _ | .retrAndInitialize, .positive _ _ | .top, .positive _ _ =>
    w.sends.map Prod.fst
  | _, _ => []

/-- The lines that the handler of a reply gets. -/
def Reply.handled (command : POP3Command) : Reply → List Bytes
  | .positive text data => (ascii "+OK" ++ text) :: if isMultiLine command then data.map stuffed else []
  | .negative text => [ascii "-ERR" ++ text]

section Handlers

variable {s : Store} {w : Surroundings} {text : Bytes}

@[simp]
lemma hasCPrefix_append (b c : Bytes) : hasCPrefix (b ++ c) b = true := List.isPrefixOf_iff_prefix.mpr ⟨c, rfl⟩

lemma endsReply_positive (command : POP3Command) : endsReply command (ascii "+OK" ++ text) = !isMultiLine command := by
  have hstart : hasCPrefix (ascii "+OK" ++ text) (ascii "+OK") = true := hasCPrefix_append _ _
  exact (congrArg (!isMultiLine command && ·) hstart).trans (Bool.and_true _)

lemma endsReply_negative (command : POP3Command) : endsReply command (ascii "-ERR" ++ text) = !isRetrieval command := by
  have hstart : hasCPrefix (ascii "-ERR" ++ text) (ascii "-ERR") = true := hasCPrefix_append _ _
  exact (congrArg (!isRetrieval command && ·) hstart).trans (Bool.and_true _)

lemma endsReply_stuffed {command : POP3Command} (hm : isMultiLine command = true) (line : Bytes) :
    endsReply command (stuffed line) = (!isRetrieval command && hasCPrefix line (ascii "-ERR")) := by
  cases line with
  | nil => exact (Bool.and_false _).symm
  | cons c line =>
    by_cases hdot : c = 46
    · subst hdot
      exact (Bool.and_false _).symm
    · have hsame : stuffed (c :: line) = c :: line := if_neg fun h => hdot (Option.some.inj h)
      rw [hsame]
      by_cases hplus : c = 43
      · subst hplus
        rw [endsReply, hm]
        exact (Bool.and_false _).symm
      · by_cases hminus : c = 45
        · subst hminus
          rfl
        · have hstart : hasCPrefix (c :: line) (ascii "-ERR") = false := by
            have hc : ((45 : UInt8) == c) = false := beq_false_of_ne (Ne.symm hminus)
            exact (congrArg (· && _) hc).trans (Bool.false_and _)
          rw [hstart, Bool.and_false, endsReply]
          all_goals simp_all

lemma concat_iff {a : List Bytes} {b : Bytes} {Q : List Bytes → Bytes → Prop} :
    (∃ init last, a ++ [b] = init ++ [last] ∧ Q init last) ↔ Q a b := by
  refine ⟨fun ⟨init, last, h, hq⟩ => ?_, fun hq => ⟨a, b, rfl, hq⟩⟩
  obtain ⟨rfl, hb⟩ := List.append_inj' h rfl
  cases hb
  exact hq

lemma ended_iff {command : POP3Command} {r : Reply} {P : Store → Prop} (hs : s.responses = []) :
    (∃ init last, r.lines command = init ++ [last] ∧ (∀ l ∈ init, endsReply command l = false) ∧
      endsReply command last = true ∧ P (replied s init last [])) ↔
    Recognised command r ∧ P { s with rbuf := [], responses := r.handled command } := by
  cases r with
  | negative text =>
    have hlines : (Reply.negative text).lines command = [] ++ [ascii "-ERR" ++ text] := rfl
    have hdot : ascii "-ERR" ++ text ≠ [46] := fun h => absurd (List.head_eq_of_cons_eq h) (by decide)
    rw [hlines, concat_iff, endsReply_negative]
    simp [Recognised, replied, hdot, hs, Reply.handled]
  | positive text data =>
    have hdot : ascii "+OK" ++ text ≠ [46] := fun h => absurd (List.head_eq_of_cons_eq h) (by decide)
    cases hm : isMultiLine command with
    | false =>
      have hlines : (Reply.positive text data).lines command = [] ++ [ascii "+OK" ++ text] := by
        simp [Reply.lines, hm]
      rw [hlines, concat_iff, endsReply_positive]
      simp [Recognised, replied, hdot, hs, Reply.handled, hm]
    | true =>
      have hlines : (Reply.positive text data).lines command =
          ((ascii "+OK" ++ text) :: data.map stuffed) ++ [[46]] := by
        simp [Reply.lines, hm]
      have hinit : (∀ l ∈ (ascii "+OK" ++ text) :: data.map stuffed, endsReply command l = false) ↔
          Recognised command (.positive text data) := by
        simp only [List.forall_mem_cons, List.forall_mem_map, endsReply_positive, endsReply_stuffed hm, hm, Recognised]
        cases isRetrieval command <;> simp
      rw [hlines, concat_iff, hinit]
      have hend : endsReply command [46] = true := rfl
      simp [hend, replied, hs, Reply.handled, hm]

/-- The handler comes to its end exactly under the condition, and then it has sent these commands. -/
structure Handles (h : Handled) (P : Prop) (commands : List POP3Command) : Prop where
  ends : h.isSome = true ↔ P
  sends : ∀ x ∈ h, x.2.map Prod.fst = commands

lemma handles_some {P : Prop} (hp : P) (sends : List Send) : Handles (some (s, sends)) P (sends.map Prod.fst) :=
  ⟨iff_of_true rfl hp, fun _ hx => by cases hx; rfl⟩

lemma handles_ite {P : Prop} [Decidable P] (sends : List Send) :
    Handles (if P then some (s, sends) else none) P (sends.map Prod.fst) := by
  split
  · next hp => exact handles_some hp sends
  · next hp => exact ⟨iff_of_false Bool.false_ne_true hp, nofun⟩

lemma Handles.congr {h : Handled} {P Q : Prop} {commands : List POP3Command} (hh : Handles h P commands) (hpq : P ↔ Q) :
    Handles h Q commands := ⟨hh.ends.trans hpq, hh.sends⟩

lemma isOK_positive (hr : s.responses = [ascii "+OK" ++ text]) : isOK s = true := by
  rw [isOK, lastResponse, hr]
  exact hasCPrefix_append _ _

lemma isOK_negative (hr : s.responses = [ascii "-ERR" ++ text]) : isOK s = false := by
  rw [isOK, lastResponse, hr]
  rfl

lemma parseAUTHORIZATION_handles (hr : s.responses = [ascii "+OK" ++ text]) : Handles (parseAUTHORIZATION s)
    (∀ first ∈ text.findIdx? (· = 60), ∀ last ∈ text.findIdx? (· = 62), first ≤ last + 1) [.capa] := by
  have hidx : ∀ c : UInt8, (ascii "+OK").findIdx? (· = c) = none →
      (lastResponse s).findIdx? (· = c) = (text.findIdx? (· = c)).map (· + 3) := by
    intro c hc
    have hlast : lastResponse s = ascii "+OK" ++ text := by
      rw [lastResponse, hr]
      rfl
    rw [hlast, List.findIdx?_append, hc]
    rfl
  simp only [parseAUTHORIZATION, isOK_positive hr, if_true]
  rw [hidx 60 (by decide), hidx 62 (by decide)]
  cases text.findIdx? (· = 60) with
  | none => exact handles_some (by simp) _
  | some first =>
    cases text.findIdx? (· = 62) with
    | none => exact handles_some (by simp) _
    | some last => exact (handles_ite _).congr (by simp)

lemma parseCAPA_handles {ls : List Bytes} {l : Bytes} (hr : s.responses = l :: ls) :
    Handles (parseCAPA w s) (∀ line ∈ ls, w.decodable line = true) (w.sends.map Prod.fst) := by
  rw [parseCAPA, hr]
  exact (handles_ite _).congr (by simp)

lemma foldl_listed_none (change : ℕ → Bytes → Option (Message → Message)) (ls : List (Bytes × ℕ)) :
    ls.foldl (listed change) none = none := by
  induction ls with
  | nil => rfl
  | cons l ls ih => exact ih

lemma foldl_listed {change : ℕ → Bytes → Option (Message → Message)} {C : Bytes → Prop}
    (hchange : ∀ i rest, (change i rest).isSome = true ↔ C rest) (ls : List Bytes) (i : ℕ) (ms : List Message) :
    ((ls.zipIdx i).foldl (listed change) (some ms)).isSome = true ↔
      ∀ line ∈ ls, ∃ rest, Names ms.length line rest ∧ C rest := by
  induction ls generalizing i ms with
  | nil => simp
  | cons l ls ih =>
    rw [List.zipIdx_cons, List.foldl_cons, List.forall_mem_cons]
    by_cases h : ∃ rest, Names ms.length l rest ∧ C rest
    · rw [and_iff_right h]
      obtain ⟨rest, ⟨idx, hscan, hidx⟩, hc⟩ := h
      obtain ⟨f, hf⟩ := Option.isSome_iff_exists.mp ((hchange (i + 1) rest).mpr hc)
      have hone : listed change (some ms) (l, i) = some (ms.modify (idx - 1) f) := by
        simp only [listed, Option.bind_some, hscan, if_pos hidx, hf, Option.map_some]
      rw [hone, ih, List.length_modify]
    · have hone : listed change (some ms) (l, i) = none := by
        simp only [listed, Option.bind_some]
        cases hscan : scanUnsigned l with
        | none => rfl
        | some p =>
          simp only [Option.bind_some]
          split
          · next hidx =>
            cases hf : change (i + 1) p.2 with
            | none => rfl
            | some f =>
              refine absurd ⟨p.2, ⟨p.1, hscan, hidx⟩, ?_⟩ h
              exact (hchange (i + 1) p.2).mp (by rw [hf]; rfl)
          · rfl
      rw [hone, foldl_listed_none]
      exact iff_of_false Bool.false_ne_true fun hall => h hall.1

lemma parseListing_handles {change : ℕ → Bytes → Option (Message → Message)} {C : Bytes → Prop}
    (hchange : ∀ i rest, (change i rest).isSome = true ↔ C rest) {ls : List Bytes} {l : Bytes}
    (hr : s.responses = l :: ls) (sends : List Send) : Handles (parseListing change sends s)
      (∀ line ∈ ls, ∃ rest, Names s.allMessages.length line rest ∧ C rest) (sends.map Prod.fst) := by
  refine ⟨?_, fun x hx => ?_⟩
  · rw [parseListing, Option.isSome_map, hr]
    exact foldl_listed hchange ls 0 s.allMessages
  · obtain ⟨ms, -, rfl⟩ := Option.map_eq_some_iff.mp hx
    rfl

lemma parseMessage_handles {keyword : Bytes} {limit : ℕ} {handled : Bool} {rawSource : Option Bytes} {q : QueueObject}
    (hq : InFlight q s) {ls : List Bytes} (hr : s.responses = (ascii "+OK" ++ text) :: ls) :
    Handles (parseMessage keyword limit handled rawSource w s)
      (Shows w keyword limit q.arguments ∧ handled = true) (w.sends.map Prod.fst) := by
  rw [parseMessage, hr, List.headD_cons, if_pos (hasCPrefix_append _ _), messageNumber, show s.queue.getLast? = some q from hq,
    Option.bind_some]
  by_cases hk : hasCPrefix q.arguments keyword = true
  · rw [if_pos hk]
    cases hn : scanUnsigned (q.arguments.drop keyword.length) with
    | none => exact ⟨iff_of_false Bool.false_ne_true (by simp [Shows, hn]), fun _ h => by cases h⟩
    | some number => exact (handles_ite _).congr (by simp [Shows, hk, hn, and_assoc])
  · rw [if_neg hk]
    exact ⟨iff_of_false Bool.false_ne_true fun h => hk h.1.1, fun _ h => by cases h⟩

lemma parseSTAT_handles (hr : s.responses = [ascii "+OK" ++ text]) :
    Handles (parseSTAT s) (∃ count ∈ scanInteger text, 0 ≤ count) [.list] := by
  have htext : (lastResponse s).drop 3 = text := by
    rw [lastResponse, hr]
    rfl
  rw [parseSTAT, if_pos (isOK_positive hr), htext]
  cases scanInteger text with
  | none => exact ⟨iff_of_false Bool.false_ne_true (by simp), fun _ h => by cases h⟩
  | some count => exact (handles_ite _).congr (by simp)

lemma parseCommand_handles {q : QueueObject} (hq : InFlight q s) (hc : s.lastCommand = q.command) {r : Reply}
    (hr : s.responses = r.handled q.command) :
    Handles (parseCommand w s) (Readable w s.allMessages.length q r) (answers w q.command r) := by
  obtain ⟨id, command, arguments⟩ := q
  simp only at hc hr
  cases r with
  | positive text data =>
    cases command
    all_goals
      rw [parseCommand, hc]
      simp only [Readable, answers]
    case apop | pass | quit | noop | dele | expungeCompleted => exact handles_some trivial _
    case authorization => exact parseAUTHORIZATION_handles hr
    case capa => exact (parseCAPA_handles hr).congr (by simp [isMultiLine])
    case list => exact (parseListing_handles (C := fun _ => True) (by simp) hr _).congr (by simp [isMultiLine])
    case uidl =>
      refine (parseListing_handles (C := fun rest => ((skipSpace rest).takeWhile fun c => !isSpace c && c ≠ 0).length ≤ 70)
        (fun i rest => ?_) hr _).congr (by simp [isMultiLine])
      simp only
      split
      · next h => exact iff_of_true rfl h
      · next h => exact iff_of_false Bool.false_ne_true h
    case retr | retrAndInitialize =>
      have hcontent : contentOf s = joined (data.map stuffed) := by
        rw [contentOf, hr]
        rfl
      rw [parseRETR, hcontent]
      exact parseMessage_handles hq hr
    case stat => exact parseSTAT_handles hr
    case stls =>
      rw [isOK_positive hr]
      exact handles_some trivial _
    case top => exact (parseMessage_handles hq hr).congr (by simp)
    case user =>
      rw [parseUSER, isOK_positive hr]
      exact handles_some trivial _
  | negative text =>
    cases command
    all_goals
      rw [parseCommand, hc]
      simp only [Readable, answers]
    case apop | pass | quit | noop | dele | expungeCompleted => exact handles_some trivial _
    case authorization =>
      rw [parseAUTHORIZATION, isOK_negative hr]
      exact handles_some trivial _
    case capa => exact (parseCAPA_handles hr).congr (by simp)
    case list => exact (parseListing_handles (C := fun _ => True) (by simp) hr _).congr (by simp)
    case uidl =>
      refine (parseListing_handles (C := fun rest => ((skipSpace rest).takeWhile fun c => !isSpace c && c ≠ 0).length ≤ 70)
        (fun i rest => ?_) hr _).congr (by simp)
      simp only
      split
      · next h => exact iff_of_true rfl h
      · next h => exact iff_of_false Bool.false_ne_true h
    case retr | retrAndInitialize =>
      rw [parseRETR, parseMessage, hr]
      exact handles_some trivial _
    case stat =>
      rw [parseSTAT, isOK_negative hr]
      exact handles_some trivial _
    case stls =>
      rw [isOK_negative hr]
      exact handles_some trivial _
    case top =>
      rw [parseTOP, parseMessage, hr]
      exact handles_some trivial _
    case user =>
      rw [parseUSER, isOK_negative hr]
      exact handles_some trivial _

end Handlers

/-- The commands in front of one in flight, the newest first, when the reply to it has been handled. -/
def waiting (w : Surroundings) (s : Store) (q : QueueObject) (es : List Event) (r : Reply) : List POP3Command :=
  (answers w q.command r).reverse ++ ((clientSends es).map Prod.fst).reverse ++
    s.queue.dropLast.map QueueObject.command

def capa : QueueObject := ⟨1, .capa, ascii "CAPA"⟩

def greeted : Store := { queue := [capa], next := 2, lastCommand := .capa, written := [capa] }

def retr : QueueObject := ⟨2, .retr, ascii "RETR 1"⟩

def retrieving : Store :=
  { queue := [⟨3, .noop, ascii "NOOP"⟩, retr], next := 4, lastCommand := .retr, written := [capa, retr] }

end Xperimentum.Pantomime.POP3
