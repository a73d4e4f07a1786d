import Mathlib.Tactic
import Xperimentum.Pantomime.IMAPQueue

/-! Losing the connection: the handshake after `reconnect` and what becomes of the commands that were
pending. -/

namespace Xperimentum.Pantomime.IMAPStore

open Xperimentum.Lib.Partial

variable {s t : Store} {sends : Sends}

/-- `folderForName:mode:prefetch:` for a folder that is not open yet. Opening one while another is being
opened cancels every request. -/
def folderForName (f : IMAPFolder) (aBOOL : Bool) (s : Store) : Store :=
  if s.openingMailbox then { reconnect { s with queue := [] } with selectedFolder := some f }
  else
    let s := { selectName f { s with openingMailbox := true } with selectedFolder := some f }
    if aBOOL then prefetch f s else s

/-- The commands the connection is lost with, newest first. -/
def pending (s : Store) : List QueueObject := s.previousQueue ++ s.queue

/-- `reconnect` and a handshake in which the server accepts every command. -/
def handshake (s : Store) : Option Store := do
  let s ← parseOK [] (parseCAPABILITY (greeting (reconnect s)))
  let s ← parseOK [] s
  if s.selectedFolder.isSome then parseOK [] s else some s

/-- The server completes the next `n` commands. -/
def drain : ℕ → Store → Option Store
  | 0, s => some s
  | n + 1, s => do
    let s ← parseOK [] s
    drain n s

/-- After the handshake only the pending commands are queued, and they all go out again in their order. -/
def RestoresQueue (s : Store) : Prop :=
  ∃ t ∈ handshake s, (∀ q ∈ t.queue, q ∈ pending s) ∧
    ∃ u ∈ drain (pending s).length t, u.queue = [] ∧
      ∃ sent, u.written = s.written ++ sent ++ (pending s).reverse ∧ ∀ q ∈ sent, q ∉ pending s

def NothingPending (s : Store) : Prop :=
  s.queue = [] ∧ s.previousQueue = [] ∧ ¬(s.selectedFolder.isSome ∧ s.openingMailbox = true)

instance (s : Store) : Decidable (NothingPending s) := inferInstanceAs (Decidable (_ ∧ _ ∧ ¬_))

section Tags

/-- Every command that can still be written has a tag that was handed out. -/
def Tagged (s : Store) : Prop := ∀ q ∈ pending s, q.tag ≤ s.tag

instance (s : Store) : Decidable (Tagged s) := inferInstanceAs (Decidable (∀ q ∈ pending s, q.tag ≤ s.tag))

lemma Tagged.of_subset (hs : Tagged s) (ht : s.tag ≤ t.tag) (h : pending t ⊆ pending s) : Tagged t :=
  fun q hq => (hs q (h hq)).trans ht

lemma Tagged.sendCommand (hs : Tagged s) (command : IMAPCommand) (arguments : String) :
    Tagged (sendCommand command arguments s) := by
  have hcons : ∀ t : Store, t.tag = s.tag + 1 → t.previousQueue = s.previousQueue →
      t.queue = ⟨command, arguments, s.tag + 1⟩ :: s.queue → Tagged t := by
    intro t ht hp hq q hmem
    rw [pending, hp, hq, List.mem_append, List.mem_cons] at hmem
    rw [ht]
    rcases hmem with h | rfl | h
    · exact Nat.le_succ_of_le (hs q (List.mem_append_left _ h))
    · exact le_rfl
    · exact Nat.le_succ_of_le (hs q (List.mem_append_right _ h))
  simp only [IMAPStore.sendCommand]
  split_ifs
  · exact hs
  · exact hcons _ rfl rfl rfl
  · exact hcons _ rfl rfl rfl

lemma Tagged.sendAll (hs : Tagged s) (sends : Sends) : Tagged (sendAll sends s) := by
  induction sends generalizing s with
  | nil => exact hs
  | cons c sends ih => exact ih (hs.sendCommand c.1 c.2)

lemma Tagged.emptyQueue (hs : Tagged s) : Tagged (emptyQueue s) := by
  simp only [IMAPStore.emptyQueue]
  split
  · exact hs
  · exact hs

lemma Tagged.dropLast (hs : Tagged s) : Tagged { s with queue := s.queue.dropLast } := by
  refine hs.of_subset le_rfl fun q hq => ?_
  rcases List.mem_append.mp hq with h | h
  · exact List.mem_append_left _ h
  · exact List.mem_append_right _ (List.dropLast_subset _ h)

lemma Tagged.dequeue (hs : Tagged s) : Tagged (dequeue s) := hs.dropLast.emptyQueue

lemma Tagged.restoreQueue (hs : Tagged s) : Tagged (restoreQueue s) := by
  refine hs.of_subset le_rfl fun q hq => ?_
  rcases List.mem_append.mp hq with h | h
  · cases h
  · exact List.mem_append.mpr (List.mem_append.mp h).symm

lemma Tagged.reconnect (hs : Tagged s) : Tagged (reconnect s) := by
  refine hs.of_subset le_rfl fun q hq => ?_
  rcases List.mem_append.mp hq with h | h
  · exact h
  · cases h

lemma Tagged.prefetch (hs : Tagged s) (f : IMAPFolder) : Tagged (prefetch f s) := by
  simp only [IMAPStore.prefetch]
  split_ifs
  · exact hs.sendCommand _ _
  · exact hs.sendCommand _ _

lemma Tagged.selectName (hs : Tagged s) (f : IMAPFolder) : Tagged (selectName f s) := by
  simp only [IMAPStore.selectName]
  split_ifs
  · exact hs.sendCommand _ _
  · exact hs.sendCommand _ _

lemma Tagged.okCase (hs : Tagged s) : Tagged (okCase s) := by
  have hlogged : Tagged (loggedIn s) := by
    simp only [loggedIn, reselect]
    split_ifs
    · split
      · split_ifs
        · exact (hs.selectName _).prefetch _
        · exact hs.selectName _
      · exact hs.restoreQueue
    · exact hs
  simp only [IMAPStore.okCase]
  split
  case h_4 =>
    split_ifs
    · exact hs.restoreQueue
    · exact hs
  case h_5 => exact hs
  case h_6 => exact hs
  all_goals exact hlogged

lemma Tagged.noCase (hs : Tagged s) : Tagged (noCase s) := by
  simp only [IMAPStore.noCase]
  split
  · exact hs
  · exact hs

lemma Tagged.complete (hs : Tagged s) (ht : t ∈ complete sends s) : Tagged t := by
  simp only [IMAPStore.complete] at ht
  cases hc : s.currentQueueObject with
  | none => simp [hc] at ht
  | some q =>
    simp only [hc] at ht
    split_ifs at ht
    · obtain rfl := Option.some.inj ht
      exact hs.sendAll sends
    · obtain rfl := Option.some.inj ht
      exact (hs.sendAll sends).dequeue

lemma Tagged.parseBAD (hs : Tagged s) (sends : Sends) : Tagged (parseBAD sends s) := by
  simp only [IMAPStore.parseBAD]
  split_ifs
  · exact hs.sendAll sends
  · exact (hs.sendAll sends).dequeue
  · exact hs
  · exact hs.dropLast

lemma Tagged.folderForName (hs : Tagged s) (f : IMAPFolder) (aBOOL : Bool) : Tagged (folderForName f aBOOL s) := by
  have hcancelled : Tagged { s with queue := [] } := by
    refine hs.of_subset le_rfl fun q hq => ?_
    rcases List.mem_append.mp hq with h | h
    · exact List.mem_append_left _ h
    · cases h
  have hflagged : Tagged { s with openingMailbox := true } := fun q hq => hs q hq
  have hopening : Tagged { IMAPStore.selectName f { s with openingMailbox := true } with selectedFolder := some f } :=
    fun q hq => hflagged.selectName f q hq
  simp only [IMAPStore.folderForName]
  split_ifs
  · exact hcancelled.reconnect
  · exact hopening.prefetch f
  · exact hopening

inductive ConnectionEvent
  | queue (e : Event)
  | folderForName (f : IMAPFolder) (aBOOL : Bool)
  | reconnect

def connectionStep (s : Store) : ConnectionEvent → Option Store
  | .queue e => step s e
  | .folderForName f aBOOL => some (IMAPStore.folderForName f aBOOL s)
  | .reconnect => some (IMAPStore.reconnect s)

lemma step_tagged (hs : Tagged s) {e : Event} (ht : t ∈ step s e) : Tagged t := by
  have hsend : ∀ command arguments u, some (IMAPStore.sendCommand command arguments s) = some u → Tagged u := by
    rintro command arguments u hu
    obtain rfl := Option.some.inj hu
    exact hs.sendCommand command arguments
  cases e with
  | ok sends => exact hs.okCase.complete ht
  | no sends => exact hs.noCase.complete ht
  | bad sends =>
    obtain rfl := Option.some.inj ht
    exact hs.parseBAD sends
  | sendCommand command arguments => exact hsend _ _ _ ht
  | selectFolder folder =>
    obtain rfl := Option.some.inj ht
    exact hs
  | greeting =>
    obtain rfl := Option.some.inj ht
    simp only [greeting]
    split_ifs
    · exact hs.sendCommand _ _
    · exact hs
  | capability =>
    obtain rfl := Option.some.inj ht
    simp only [parseCAPABILITY, authenticate]
    split_ifs
    · split <;> exact hs.sendCommand _ _
    · exact hs
  | searchCache =>
    obtain rfl := Option.some.inj ht
    simp only [parseSEARCHCACHE]
    split
    case h_5 => exact hs
    all_goals exact hs.sendCommand _ _
  | existsResponse n =>
    obtain rfl := Option.some.inj ht
    simp only [parseEXISTS]
    split
    · split_ifs
      · exact hs.sendCommand _ _
      · exact hs
    · exact hs

lemma connectionStep_tagged (s : Store) (e : ConnectionEvent) (hs : Tagged s) (t : Store)
    (ht : t ∈ connectionStep s e) : Tagged t := by
  cases e with
  | queue e => exact step_tagged hs ht
  | folderForName f aBOOL =>
    obtain rfl := Option.some.inj ht
    exact hs.folderForName f aBOOL
  | reconnect =>
    obtain rfl := Option.some.inj ht
    exact hs.reconnect

end Tags

section Handshake

def authCommand (s : Store) : IMAPCommand :=
  match s.mechanism with
  | .cramMD5 => .authenticateCramMD5
  | .login => .authenticateLogin
  | .plain => .login

/-- `LOGIN` or `AUTHENTICATE` is in flight and nothing else is queued. -/
structure LoggingIn (s t : Store) (a : QueueObject) : Prop where
  queue : t.queue = [a]
  current : t.currentQueueObject = some a
  command : a.command = authCommand s
  okCase : okCase t = loggedIn t
  reconnecting : t.reconnecting = true
  previousQueue : t.previousQueue = pending s
  selectedFolder : t.selectedFolder = s.selectedFolder
  openingMailbox : t.openingMailbox = s.openingMailbox
  written : ∃ sent, t.written = s.written ++ sent
  tag : t.tag = s.tag + 2
  fresh : s.tag < a.tag

lemma parseOK_eq {q : QueueObject} (hc : (okCase s).currentQueueObject = some q) (hq : (okCase s).queue ≠ []) :
    parseOK [] s = some (dequeue (okCase s)) := by
  simp only [parseOK, complete, hc, sendAll, List.foldl_nil, if_neg hq]
  rfl

lemma dequeue_next {init : List QueueObject} {q c : QueueObject} (h : s.queue = init ++ [q, c]) :
    dequeue s = { writeCurrent q { s with queue := init ++ [q] } with responses := [] } := by
  have hlast : s.queue.dropLast = init ++ [q] := by simp [h]
  simp [dequeue, emptyQueue, hlast]

lemma dequeue_last {c : QueueObject} (h : s.queue = [c]) :
    dequeue s =
      { s with queue := [], currentQueueObject := none, literal := 0, nsData := none, responses := [] } := by
  simp [dequeue, emptyQueue, h]

lemma sendCommand_first (command : IMAPCommand) (arguments : String) (h : s.queue = []) :
    sendCommand command arguments s = writeCurrent ⟨command, arguments, s.tag + 1⟩
      { s with
        tag := s.tag + 1, queue := [⟨command, arguments, s.tag + 1⟩]
        enqueued := s.enqueued ++ [⟨command, arguments, s.tag + 1⟩] } := by
  simp [sendCommand, alreadyQueued, h]

lemma sendCommand_queued {command : IMAPCommand} {arguments : String} (h : s.queue ≠ [])
    (hn : ∀ q ∈ s.queue, q.command ≠ command) :
    sendCommand command arguments s =
      { s with
        tag := s.tag + 1, queue := ⟨command, arguments, s.tag + 1⟩ :: s.queue
        enqueued := s.enqueued ++ [⟨command, arguments, s.tag + 1⟩] } := by
  have hdup : ¬alreadyQueued command arguments s = true := by
    simp only [alreadyQueued, List.any_eq_true, decide_eq_true_eq]
    rintro ⟨q, hq, hc, -⟩
    exact hn q hq hc
  have hlong : 1 < (⟨command, arguments, s.tag + 1⟩ :: s.queue).length := by
    have hpos := List.length_pos_of_ne_nil h
    simpa using hpos
  simp only [sendCommand, if_neg hdup, if_pos hlong]

lemma authenticate_eq (s : Store) : ∃ arguments, authenticate s = sendCommand (authCommand s) arguments s := by
  cases hm : s.mechanism with
  | cramMD5 => exact ⟨"AUTHENTICATE CRAM-MD5", by simp only [authenticate, authCommand, hm]⟩
  | login => exact ⟨"AUTHENTICATE LOGIN", by simp only [authenticate, authCommand, hm]⟩
  | plain => exact ⟨s.loginArguments, by simp only [authenticate, authCommand, hm]⟩

lemma okCase_authCommand {m : Store} (h : t.lastCommand = authCommand m) : okCase t = loggedIn t := by
  cases hm : m.mechanism with
  | cramMD5 => simp only [okCase, h, authCommand, hm]
  | login => simp only [okCase, h, authCommand, hm]
  | plain => simp only [okCase, h, authCommand, hm]

lemma loggingIn (s : Store) :
    ∃ t a, parseOK [] (parseCAPABILITY (greeting (reconnect s))) = some t ∧ LoggingIn s t a := by
  let c : QueueObject := ⟨.capability, "CAPABILITY", s.tag + 1⟩
  have hg : greeting (reconnect s) =
      { writeCurrent c { reconnect s with tag := s.tag + 1, queue := [c], enqueued := s.enqueued ++ [c] } with
        responses := [] } := by
    simp only [greeting, sendCommand_first .capability "CAPABILITY" (rfl : (reconnect s).queue = [])]
    rfl
  obtain ⟨arguments, ha⟩ := authenticate_eq (greeting (reconnect s))
  let a : QueueObject := ⟨authCommand s, arguments, s.tag + 2⟩
  have hne : ∀ q ∈ (greeting (reconnect s)).queue, q.command ≠ authCommand (greeting (reconnect s)) := by
    rw [hg]
    rintro q hq
    obtain rfl := List.mem_singleton.mp hq
    simp only [authCommand]
    split <;> simp [c]
  have hcap : parseCAPABILITY (greeting (reconnect s)) =
      { greeting (reconnect s) with
        tag := s.tag + 2, queue := [a, c], enqueued := s.enqueued ++ [c] ++ [a] } := by
    have hrec : (greeting (reconnect s)).reconnecting = true := by rw [hg]; rfl
    simp only [parseCAPABILITY, if_pos hrec, ha]
    rw [sendCommand_queued (by rw [hg]; simp [writeCurrent]) hne, hg]
    rfl
  have hok : okCase (parseCAPABILITY (greeting (reconnect s))) = parseCAPABILITY (greeting (reconnect s)) := by
    rw [hcap, hg]
    rfl
  have hparse : parseOK [] (parseCAPABILITY (greeting (reconnect s))) =
      some (dequeue (parseCAPABILITY (greeting (reconnect s)))) := by
    rw [parseOK_eq, hok]
    · rw [hok, hcap, hg]
      rfl
    · rw [hok, hcap]
      simp
  refine ⟨_, a, hparse, ?_⟩
  have hqueue : (parseCAPABILITY (greeting (reconnect s))).queue = [] ++ [a, c] := by rw [hcap]; rfl
  rw [dequeue_next hqueue, hcap, hg]
  refine ⟨rfl, rfl, rfl, okCase_authCommand rfl, rfl, rfl, rfl, rfl, ⟨[c, a], ?_⟩, rfl, ?_⟩
  · simp [writeCurrent, reconnect]
  · show s.tag < s.tag + 2
    omega

/-- `SELECT` or `EXAMINE` is in flight, with what a prefetch has queued behind it. -/
structure Selecting (s t : Store) (q : QueueObject) (prefetched : List QueueObject) : Prop where
  queue : t.queue = prefetched ++ [q]
  current : t.currentQueueObject = some q
  lastCommand : t.lastCommand = q.command
  selects : q.command = .select ∨ q.command = .examine
  reconnecting : t.reconnecting = true
  previousQueue : t.previousQueue = pending s
  selectedFolder : t.selectedFolder = s.selectedFolder
  written : ∃ sent, t.written = s.written ++ sent
  fresh : s.tag < q.tag
  prefetched_fresh : ∀ c ∈ prefetched, s.tag < c.tag
  prefetched_nil : prefetched = [] ↔ s.openingMailbox = false

def selectCommand (f : IMAPFolder) : IMAPCommand := if f.readOnly then .examine else .select

lemma selectName_eq (f : IMAPFolder) (s : Store) :
    ∃ arguments, selectName f s = sendCommand (selectCommand f) arguments s := by
  simp only [selectName, selectCommand]
  split_ifs
  · exact ⟨"EXAMINE \"" ++ f.name ++ "\"", rfl⟩
  · exact ⟨"SELECT \"" ++ f.name ++ "\"", rfl⟩

def prefetchCommand (f : IMAPFolder) : IMAPCommand :=
  if f.hasCache ∧ f.allMessages ≠ [] then .uidSearch else .uidFetchHeaderFields

lemma prefetch_eq (f : IMAPFolder) (s : Store) :
    ∃ arguments, prefetch f s = sendCommand (prefetchCommand f) arguments s := by
  simp only [prefetch, prefetchCommand]
  split_ifs
  · exact ⟨"UID SEARCH 1:*", rfl⟩
  · exact ⟨fetchHeaders 1, rfl⟩

/-- What the reply to `LOGIN` queues: the folder is selected again, and prefetched if it was being opened. -/
structure Reselected (s t v : Store) (q a : QueueObject) (prefetched : List QueueObject) : Prop where
  queue : v.queue = prefetched ++ [q, a]
  current : v.currentQueueObject = t.currentQueueObject
  reconnecting : v.reconnecting = true
  previousQueue : v.previousQueue = pending s
  selectedFolder : v.selectedFolder = s.selectedFolder
  written : v.written = t.written
  selects : q.command = .select ∨ q.command = .examine
  fresh : s.tag < q.tag
  prefetched_fresh : ∀ c ∈ prefetched, s.tag < c.tag
  prefetched_nil : prefetched = [] ↔ s.openingMailbox = false

lemma reselected {a : QueueObject} (ha : LoggingIn s t a) (f : IMAPFolder) :
    ∃ q prefetched, Reselected s t (reselect f t) q a prefetched := by
  have htag := ha.tag
  obtain ⟨arguments, hsel⟩ := selectName_eq f t
  let q : QueueObject := ⟨selectCommand f, arguments, t.tag + 1⟩
  have hselects : q.command = .select ∨ q.command = .examine := by
    simp only [q, selectCommand]
    split_ifs
    · exact .inr rfl
    · exact .inl rfl
  have hauth : a.command ≠ selectCommand f := by
    rw [ha.command]
    simp only [authCommand, selectCommand]
    split <;> split_ifs <;> decide
  have hne : t.queue ≠ [] := by rw [ha.queue]; exact List.cons_ne_nil _ _
  have hv : selectName f t =
      { t with tag := t.tag + 1, queue := q :: t.queue, enqueued := t.enqueued ++ [q] } := by
    rw [hsel, sendCommand_queued hne]
    rintro r hr
    rw [ha.queue] at hr
    obtain rfl := List.mem_singleton.mp hr
    exact hauth
  have hopen : (selectName f t).openingMailbox = s.openingMailbox := by
    rw [hv]
    exact ha.openingMailbox
  have hqtag : s.tag < q.tag := by
    show s.tag < t.tag + 1
    omega
  cases ho : s.openingMailbox with
  | false =>
    refine ⟨q, [], ?_⟩
    simp only [reselect, hopen, ho]
    rw [hv, if_neg (by decide)]
    refine ⟨?_, rfl, ha.reconnecting, ha.previousQueue, ha.selectedFolder, rfl, hselects, hqtag,
      fun c hc => ?_, ?_⟩
    · simp [ha.queue]
    · cases hc
    · simp [ho]
  | true =>
    obtain ⟨range, hpre⟩ := prefetch_eq f (selectName f t)
    let p : QueueObject := ⟨prefetchCommand f, range, t.tag + 2⟩
    have hother : ∀ r ∈ (selectName f t).queue, r.command ≠ prefetchCommand f := by
      rw [hv]
      intro r hr
      rw [ha.queue, List.mem_cons, List.mem_singleton] at hr
      rcases hr with rfl | rfl
      · simp only [q, selectCommand, prefetchCommand]
        split_ifs <;> decide
      · rw [ha.command]
        simp only [authCommand, prefetchCommand]
        split <;> split_ifs <;> decide
    have hnonempty : (selectName f t).queue ≠ [] := by rw [hv]; exact List.cons_ne_nil _ _
    have hu : sendCommand (prefetchCommand f) range (selectName f t) = _ := sendCommand_queued hnonempty hother
    refine ⟨q, [p], ?_⟩
    simp only [reselect, hopen, ho, if_true]
    rw [hpre, hu, hv]
    refine ⟨?_, rfl, ha.reconnecting, ha.previousQueue, ha.selectedFolder, rfl, hselects, hqtag,
      fun c hc => ?_, ?_⟩
    · simp [ha.queue, p]
    · obtain rfl := List.mem_singleton.mp hc
      show s.tag < t.tag + 2
      omega
    · simp [ho]

lemma selecting {a : QueueObject} (ha : LoggingIn s t a) {f : IMAPFolder} (hf : s.selectedFolder = some f) :
    ∃ u q prefetched, parseOK [] t = some u ∧ Selecting s u q prefetched := by
  obtain ⟨q, prefetched, hv⟩ := reselected ha f
  have hok : okCase t = reselect f t := by
    have hft := ha.selectedFolder.trans hf
    simp only [ha.okCase, loggedIn, ha.reconnecting, hft, if_true]
  refine ⟨_, q, prefetched, parseOK_eq (q := a) ?_ ?_, ?_⟩
  · rw [hok, hv.current, ha.current]
  · rw [hok, hv.queue]
    simp
  · rw [hok, dequeue_next hv.queue]
    obtain ⟨sent, hsent⟩ := ha.written
    refine ⟨rfl, rfl, rfl, hv.selects, hv.reconnecting, hv.previousQueue, hv.selectedFolder, ⟨sent ++ [q], ?_⟩,
      hv.fresh, hv.prefetched_fresh, hv.prefetched_nil⟩
    simp [writeCurrent, hv.written, hsent]

lemma restoresQueue_of_nil (hh : handshake s = some t) (hq : t.queue = []) (hp : pending s = [])
    (hw : ∃ sent, t.written = s.written ++ sent) : RestoresQueue s := by
  obtain ⟨sent, hsent⟩ := hw
  refine ⟨t, hh, by simp [hq], t, by simp [hp, drain], hq, sent, ?_, by simp [hp]⟩
  rw [hsent, hp, List.reverse_nil, List.append_nil]

lemma not_restoresQueue_of_mem (hs : Tagged s) (hh : handshake s = some t) {q : QueueObject} (hq : q ∈ t.queue)
    (hfresh : s.tag < q.tag) : ¬RestoresQueue s := by
  rintro ⟨u, hu, honly, -⟩
  obtain rfl := Option.some.inj (hh.symm.trans hu)
  exact absurd (hs q (honly q hq)) (Nat.not_le.mpr hfresh)

lemma not_restoresQueue_of_idle (hh : handshake s = some t) (hc : (okCase t).currentQueueObject = none)
    (hp : pending s ≠ []) : ¬RestoresQueue s := by
  rintro ⟨u, hu, -, v, hv, -⟩
  obtain rfl := Option.some.inj (hh.symm.trans hu)
  obtain ⟨n, hn⟩ := Nat.exists_eq_succ_of_ne_zero (List.length_pos_of_ne_nil hp).ne'
  have hstuck : parseOK [] t = none := by simp only [parseOK, complete, hc]
  rw [hn, drain, hstuck] at hv
  cases hv

lemma dequeue_selectedFolder (s : Store) : (dequeue s).selectedFolder = s.selectedFolder := by
  simp only [dequeue, emptyQueue]
  split <;> rfl

lemma dequeue_written_nil (h : s.queue.dropLast = []) : (dequeue s).written = s.written := by
  simp [dequeue, emptyQueue, h]

lemma restoreQueue_dropLast (init : List QueueObject) {q : QueueObject} (hq : s.queue = init ++ [q])
    (hp : s.previousQueue ≠ []) : q ∈ (dequeue (restoreQueue s)).queue := by
  rw [dequeue_queue, restoreQueue, List.dropLast_append_of_ne_nil hp, hq]
  simp

lemma restoresQueue_loggedIn {a : QueueObject} (hs : Tagged s) (ha : LoggingIn s t a)
    (ht : handshake s = (parseOK [] t).bind fun s => if s.selectedFolder.isSome then parseOK [] s else some s)
    (hf : s.selectedFolder = none) : RestoresQueue s ↔ pending s = [] := by
  have hok : okCase t = restoreQueue t := by
    have hft := ha.selectedFolder.trans hf
    simp only [ha.okCase, loggedIn, ha.reconnecting, hft, if_true]
  have hne : (restoreQueue t).queue ≠ [] := by simp [restoreQueue, ha.queue]
  have hparse : parseOK [] t = some (dequeue (restoreQueue t)) := by
    rw [parseOK_eq (q := a), hok]
    · rw [hok]
      exact ha.current
    · rw [hok]
      exact hne
  have hnone : (dequeue (restoreQueue t)).selectedFolder = none := by
    rw [dequeue_selectedFolder]
    exact ha.selectedFolder.trans hf
  have hh : handshake s = some (dequeue (restoreQueue t)) := by
    rw [ht, hparse, Option.bind_some, hnone]
    rfl
  refine ⟨fun h => ?_, fun hp => ?_⟩
  · by_contra hp
    have hmem : a ∈ (dequeue (restoreQueue t)).queue := by
      refine restoreQueue_dropLast [] ha.queue ?_
      rwa [ha.previousQueue]
    exact not_restoresQueue_of_mem hs hh hmem ha.fresh h
  · have hlast : (restoreQueue t).queue.dropLast = [] := by
      simp [restoreQueue, ha.queue, ha.previousQueue, hp]
    refine restoresQueue_of_nil hh ?_ hp ?_
    · rw [dequeue_queue, hlast]
    · rw [dequeue_written_nil hlast]
      exact ha.written

/-- What is queued when `SELECT` or `EXAMINE` completes, before `removeLastObject`. -/
structure Completing (s v : Store) (q : QueueObject) (prefetched rest : List QueueObject) : Prop where
  queue : v.queue = prefetched ++ q :: rest
  current : v.currentQueueObject = some q
  selectedFolder : v.selectedFolder = s.selectedFolder
  written : ∃ sent, v.written = s.written ++ sent

lemma completing {q : QueueObject} {prefetched : List QueueObject} (hu : Selecting s t q prefetched) :
    q.command = .select ∧ Completing s (okCase t) q prefetched (pending s) ∨
      okCase t = t ∧ t.lastCommand = .examine ∧ Completing s t q prefetched [] := by
  rcases hu.selects with hc | hc
  · have hok : okCase t = restoreQueue t := by
      simp only [okCase, hu.lastCommand, hc, hu.reconnecting, if_true]
    refine .inl ⟨hc, ?_⟩
    rw [hok]
    refine ⟨?_, hu.current, hu.selectedFolder, hu.written⟩
    simp [restoreQueue, hu.queue, hu.previousQueue]
  · have hlast : t.lastCommand = .examine := hu.lastCommand.trans hc
    have hok : okCase t = t := by simp only [okCase, hlast]
    exact .inr ⟨hok, hlast, hu.queue, hu.current, hu.selectedFolder, hu.written⟩

lemma handshake_completing {v : Store} {q : QueueObject} {prefetched rest : List QueueObject}
    (hv : Completing s v q prefetched rest) (hok : okCase t = v) : parseOK [] t = some (dequeue v) := by
  rw [parseOK_eq (q := q), hok]
  · rw [hok]
    exact hv.current
  · rw [hok, hv.queue]
    simp

lemma restoresQueue_completing {v : Store} {q : QueueObject} {prefetched rest : List QueueObject}
    (hv : Completing s v q prefetched rest) (hh : handshake s = some (dequeue v)) (hrest : rest = [])
    (hpre : prefetched = []) (hp : pending s = []) : RestoresQueue s := by
  have hlast : v.queue.dropLast = [] := by simp [hv.queue, hpre, hrest]
  refine restoresQueue_of_nil hh ?_ hp ?_
  · rw [dequeue_queue, hlast]
  · rw [dequeue_written_nil hlast]
    exact hv.written

lemma prefetched_subset {v : Store} {q : QueueObject} {prefetched rest : List QueueObject}
    (hv : Completing s v q prefetched rest) : prefetched ⊆ (dequeue v).queue := by
  rw [dequeue_queue, hv.queue, List.dropLast_append_of_ne_nil (List.cons_ne_nil q rest)]
  exact List.subset_append_left _ _

lemma restoresQueue_selected {q : QueueObject} {prefetched : List QueueObject} (hs : Tagged s)
    (hu : Selecting s t q prefetched) (hh : handshake s = parseOK [] t) :
    RestoresQueue s ↔ pending s = [] ∧ s.openingMailbox = false := by
  rw [← hu.prefetched_nil]
  have hprefetched : ∀ v rest, Completing s v q prefetched rest → handshake s = some (dequeue v) →
      RestoresQueue s → prefetched = [] := by
    intro v rest hv hparse h
    by_contra hne
    obtain ⟨p, hp⟩ := List.exists_mem_of_ne_nil _ hne
    exact not_restoresQueue_of_mem hs hparse (prefetched_subset hv hp) (hu.prefetched_fresh p hp) h
  rcases completing hu with ⟨-, hv⟩ | ⟨hok, hlast, hv⟩
  · have hparse := hh.trans (handshake_completing hv rfl)
    refine ⟨fun h => ⟨?_, hprefetched _ _ hv hparse h⟩, ?_⟩
    · by_contra hp
      have hmem : q ∈ (dequeue (okCase t)).queue := by
        rw [dequeue_queue, hv.queue, ← List.singleton_append, ← List.append_assoc,
          List.dropLast_append_of_ne_nil hp]
        simp
      exact not_restoresQueue_of_mem hs hparse hmem hu.fresh h
    · rintro ⟨hp, hpre⟩
      exact restoresQueue_completing hv hparse hp hpre hp
  · have hparse := hh.trans (handshake_completing hv hok)
    refine ⟨fun h => ⟨?_, hprefetched _ _ hv hparse h⟩, ?_⟩
    · by_contra hp
      have hqueue : t.queue = [q] := by rw [hv.queue, hprefetched _ _ hv hparse h, List.nil_append]
      refine not_restoresQueue_of_idle hparse ?_ hp h
      rw [dequeue_last hqueue]
      simp only [okCase, hlast]
    · rintro ⟨hp, hpre⟩
      exact restoresQueue_completing hv hparse rfl hpre hp

end Handshake

lemma nothingPending_iff :
    NothingPending s ↔ pending s = [] ∧ (s.selectedFolder = none ∨ s.openingMailbox = false) := by
  have hfolder : ¬(s.selectedFolder.isSome ∧ s.openingMailbox = true) ↔
      s.selectedFolder = none ∨ s.openingMailbox = false := by
    rw [not_and_or, Option.not_isSome_iff_eq_none, Bool.not_eq_true]
  rw [NothingPending, hfolder, pending, List.append_eq_nil_iff, and_left_comm, and_assoc]

lemma restoresQueue_iff (hs : Tagged s) : RestoresQueue s ↔ NothingPending s := by
  obtain ⟨t, a, ht, ha⟩ := loggingIn s
  have hh : handshake s = (parseOK [] t).bind fun s => if s.selectedFolder.isSome then parseOK [] s else some s := by
    simp only [handshake, ht]
    rfl
  rw [nothingPending_iff]
  cases hf : s.selectedFolder with
  | none =>
    rw [restoresQueue_loggedIn hs ha hh hf]
    simp
  | some f =>
    obtain ⟨u, q, prefetched, hu, hsel⟩ := selecting ha hf
    have hsome : u.selectedFolder.isSome := by
      rw [hsel.selectedFolder, hf]
      rfl
    have hparse : handshake s = parseOK [] u := by
      rw [hh, hu, Option.bind_some, if_pos hsome]
    rw [restoresQueue_selected hs hsel hparse]
    simp

lemma admits_true (s : Store) (es : List ConnectionEvent) : Admits connectionStep (fun _ _ => True) s es := by
  induction es generalizing s with
  | nil => trivial
  | cons e es ih => exact ⟨trivial, fun t _ => ih t⟩

theorem run_restoresQueue_iff (mechanism : Mechanism) (loginArguments : String) (es : List ConnectionEvent) :
    ∀ s ∈ tryRun connectionStep (initial mechanism loginArguments) es, RestoresQueue s ↔ NothingPending s := by
  intro s hs
  have hi : Tagged (initial mechanism loginArguments) := by
    intro q hq
    cases hq
  exact restoresQueue_iff (tryRun_invariant (fun s e ht _ => connectionStep_tagged s e ht) hi (admits_true _ es) s hs)

/-- `LIST` is in flight: `removeLastObject` drops it, and `LOGIN` stays. -/
theorem list_in_flight_not_restored :
    ¬∀ s ∈ tryRun connectionStep (initial .plain "LOGIN a b")
      [.queue .greeting, .queue (.ok [(.login, "LOGIN a b")]), .queue (.ok [(.list, "LIST \"\" \"*\"")])],
      RestoresQueue s := by
  intro h
  have hpending := (restoresQueue_iff (by decide)).mp (h _ rfl)
  revert hpending
  decide

theorem run_restoresQueue_iff_select :
    ∃ s ∈ tryRun connectionStep (initial .plain "LOGIN a b")
      [.queue .greeting, .queue (.ok [(.login, "LOGIN a b")]), .queue (.ok []),
        .folderForName { name := "INBOX" } true, .queue (.ok []), .queue (.ok [])],
      NothingPending s ∧ RestoresQueue s := by
  have hrun : ∃ s ∈ tryRun connectionStep (initial .plain "LOGIN a b")
      [.queue .greeting, .queue (.ok [(.login, "LOGIN a b")]), .queue (.ok []),
        .folderForName { name := "INBOX" } true, .queue (.ok []), .queue (.ok [])],
      NothingPending s := by decide
  obtain ⟨s, hs, hnothing⟩ := hrun
  exact ⟨s, hs, hnothing, (run_restoresQueue_iff _ _ _ s hs).mpr hnothing⟩

end Xperimentum.Pantomime.IMAPStore
