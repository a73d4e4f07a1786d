import Xperimentum.Pantomime.POP3Replies

/-! What is stored for a retrieved message: the lines keep the termination octets that the server has put in front. -/

namespace Xperimentum.Pantomime.POP3

open Xperimentum.Lib.Partial

section Runs

variable {q : QueueObject} {s t : Store} {w : Surroundings} {init : List Bytes} {last c : Bytes}

lemma tryRun_cons (s : Store) (e : Event) (es : List Event) :
    tryRun step s (e :: es) = (step s e).bind fun t => tryRun step t es := List.foldlM_cons

lemma tryRun_singleton (s : Store) (e : Event) : tryRun step s [e] = step s e := by
  rw [tryRun_cons]
  exact bind_pure (step s e)

/-- However the stream is cut, the reply is parsed when its last line is there. -/
lemma tryRun_parsed (ha : Awaiting q s) (htail : splitLines s.rbuf = none)
    (hfree : ∀ l ∈ init ++ [last], splitLines l = none) (hinit : ∀ l ∈ init, endsReply q.command l = false)
    (hlast : endsReply q.command last = true) (hc : c ≠ []) {es : List Event}
    (hsent : sent (init ++ [last]) = s.rbuf ++ (received es ++ c)) :
    tryRun step s (es ++ [.receive c w]) =
      parseServerOutput w (replied ((clientSends es).foldl sendCommand s) init last []) := by
  induction es generalizing s init with
  | nil =>
    have hsent' : sent (init ++ [last]) = s.rbuf ++ (c ++ []) := by
      rw [List.append_nil]
      exact hsent
    rw [List.nil_append, tryRun_singleton, step]
    obtain ⟨ms, ns', tail, hns, hms, htail', hnone, -⟩ | ⟨ms, last', rest, ns', tail, hns, hms, hlast', htail', hread⟩ :=
      updateRead_cases (w := w) ha htail hfree hsent'
    · have hfree' : ∀ l ∈ ns', splitLines l = none := fun l hl => hfree l (by rw [hns]; exact List.mem_append_right _ hl)
      have hnil := sent_eq_nil hfree' (htail'.trans (List.append_nil tail)) hnone
      rw [hnil, List.append_nil] at hns
      rw [hms last (by rw [← hns]; exact List.mem_append_right _ (List.mem_singleton_self last))] at hlast
      cases hlast
    · have hnil : rest ++ ns' = [] := ended_unique hinit hlast' hns.symm
      rw [hnil] at hns
      obtain ⟨rfl, hl⟩ := List.append_inj' hns rfl
      cases hl
      obtain ⟨hrest, hns'⟩ := List.append_eq_nil_iff.mp hnil
      rw [hns'] at htail'
      rw [hread, hrest, (List.append_eq_nil_iff.mp htail'.symm).1]
      rfl
  | cons e es ih =>
    rw [List.cons_append, tryRun_cons]
    cases e with
    | send send =>
      have hs := sendCommand_queued ha.queue_ne send
      rw [step, Option.bind_some, ih (ha.send send) (by rwa [hs]) hfree hinit (by rwa [hs])]
      rfl
    | receive bytes w' =>
      have hsent' : sent (init ++ [last]) = s.rbuf ++ (bytes ++ (received es ++ c)) := by
        rw [hsent, received, List.append_assoc]
      rw [step]
      obtain ⟨ms, ns', tail, hns, hms, htail', hnone, hread⟩ | ⟨ms, last', rest, ns', tail, hns, hms, hlast', htail', -⟩ :=
        updateRead_cases (w := w') ha htail hfree hsent'
      · rw [hread, Option.bind_some]
        rcases List.eq_nil_or_concat ns' with rfl | ⟨front, x, rfl⟩
        · exact absurd (List.append_eq_nil_iff.mp (List.append_eq_nil_iff.mp htail'.symm).2).2 hc
        · have hcut : init ++ [last] = (ms ++ front) ++ [x] := by simpa using hns
          obtain ⟨rfl, hx⟩ := List.append_inj' hcut rfl
          cases hx
          rw [List.concat_eq_append] at htail'
          rw [ih (ha.stored tail (s.responses ++ ms)) hnone
            (fun l hl => hfree l (by rw [List.append_assoc]; exact List.mem_append_right ms hl))
            (fun l hl => hinit l (List.mem_append_right ms hl)) htail', replied_stored _ ha.queue_ne]
          rfl
      · have hnil : rest ++ ns' = [] := ended_unique hinit hlast' hns.symm
        rw [(List.append_eq_nil_iff.mp hnil).2] at htail'
        exact absurd (List.append_eq_nil_iff.mp (List.append_eq_nil_iff.mp htail'.symm).2).2 hc

lemma sendAll_rawSources (sends : List Send) (s : Store) : (sends.foldl sendCommand s).rawSources = s.rawSources := by
  induction sends generalizing s with
  | nil => rfl
  | cons send sends ih =>
    rw [List.foldl_cons, ih]
    simp only [sendCommand, runCommand, write]
    split_ifs
    all_goals rfl

lemma emptyQueue_rawSources (s : Store) : (emptyQueue s).rawSources = s.rawSources := by
  simp only [emptyQueue, runCommand, write]
  split
  · split_ifs
    all_goals rfl
  · rfl

/-- The handler alone stores raw sources. -/
lemma parseServerOutput_rawSources (h : t ∈ parseServerOutput w s) (hr : s.responses ≠ []) :
    ∃ x ∈ parseCommand w s, t.rawSources = x.1.rawSources := by
  rw [parseServerOutput, if_neg hr] at h
  obtain ⟨x, hx, rfl⟩ := Option.map_eq_some_iff.mp h
  refine ⟨x, hx, ?_⟩
  simp only
  split_ifs
  · exact sendAll_rawSources x.2 x.1
  · rw [emptyQueue_rawSources]
    exact sendAll_rawSources x.2 x.1

end Runs

section Lines

lemma stuffed_length (line : Bytes) : line.length ≤ (stuffed line).length ∧
    ((stuffed line).length = line.length ↔ line.head? ≠ some 46) := by
  rw [stuffed]
  split_ifs with h
  · refine ⟨Nat.le_succ _, ?_⟩
    rw [List.length_cons]
    exact iff_of_false (Nat.succ_ne_self _) (not_not_intro h)
  · exact ⟨le_rfl, iff_of_true rfl h⟩

lemma joined_cons (line : Bytes) {lines : List Bytes} (h : lines ≠ []) :
    joined (line :: lines) = line ++ 10 :: joined lines := by
  cases lines with
  | nil => exact absurd rfl h
  | cons l lines => rfl

/-- Each termination octet that is left makes the joined lines longer. -/
lemma joined_stuffed_length (lines : List Bytes) : (joined lines).length ≤ (joined (lines.map stuffed)).length ∧
    ((joined (lines.map stuffed)).length = (joined lines).length ↔ ∀ line ∈ lines, line.head? ≠ some 46) := by
  induction lines with
  | nil => exact ⟨le_rfl, iff_of_true rfl fun line hline => absurd hline List.not_mem_nil⟩
  | cons line lines ih =>
    obtain ⟨hle, heq⟩ := stuffed_length line
    rw [List.forall_mem_cons]
    by_cases hlines : lines = []
    · rw [hlines, List.map_cons, List.map_nil]
      exact ⟨hle, heq.trans (and_iff_left fun l hl => absurd hl List.not_mem_nil).symm⟩
    · have hmap : lines.map stuffed ≠ [] := fun h => hlines (List.map_eq_nil_iff.mp h)
      rw [List.map_cons, joined_cons _ hmap, joined_cons _ hlines, List.length_append, List.length_append,
        List.length_cons, List.length_cons, ← heq, ← ih.2]
      have := ih.1
      exact ⟨by omega, by omega⟩

lemma joined_stuffed_iff (lines : List Bytes) :
    joined (lines.map stuffed) = joined lines ↔ ∀ line ∈ lines, line.head? ≠ some 46 := by
  constructor
  · exact fun h => (joined_stuffed_length lines).2.mp (congrArg List.length h)
  · intro h
    congr 1
    exact (List.map_congr_left fun line hline => if_neg (h line hline)).trans (List.map_id lines)

end Lines

section Retrieval

variable {q : QueueObject} {s : Store} {w : Surroundings} {text : Bytes} {data : List Bytes}

lemma parseRETR_stores (hr : s.responses = (ascii "+OK" ++ text) :: data) {x : Store × List Send}
    (hx : x ∈ parseRETR w s) : ∃ idx ∈ messageNumber (ascii "RETR ") s,
      x.1.rawSources = s.rawSources ++ [(idx, joined data)] := by
  rw [parseRETR, parseMessage, hr, List.headD_cons, if_pos (hasCPrefix_append _ _)] at hx
  obtain ⟨idx, hidx, hsome⟩ := Option.bind_eq_some_iff.mp hx
  have hcontent : contentOf s = joined data := by
    rw [contentOf, hr]
    rfl
  split_ifs at hsome
  obtain rfl := Option.some.inj hsome
  refine ⟨idx, hidx, ?_⟩
  rw [hcontent]
  rfl

/-- The raw source is the lines of the message exactly if no line starts with the termination octet. -/
theorem rawSource_iff {username password : Bytes} {before : List Event} {s : Store}
    (hs : session username password before = some s) {q : QueueObject} (hq : InFlight q s)
    (hretr : q.command = .retr ∨ q.command = .retrAndInitialize) (hwritten : s.lastCommand = q.command)
    (hunanswered : s.responses = [] ∧ s.rbuf = []) {text : Bytes} {data : List Bytes}
    (hlines : ∀ l ∈ (Reply.positive text data).lines q.command, splitLines l = none) {c : Bytes} (hc : c ≠ [])
    {es : List Event} (hsent : received es ++ c = sent ((Reply.positive text data).lines q.command)) {w : Surroundings} :
    ∀ t ∈ tryRun step s (es ++ [.receive c w]), ∃ idx ∈ messageNumber (ascii "RETR ") s,
      (t.rawSources = s.rawSources ++ [(idx, joined data)] ↔ ∀ line ∈ data, line.head? ≠ some 46) := by
  intro t ht
  obtain ⟨hresponses, hrbuf⟩ := hunanswered
  have hmulti : isMultiLine q.command = true ∧ isRetrieval q.command = true := by
    rcases hretr with h | h
    all_goals
      rw [h]
      exact ⟨rfl, rfl⟩
  have hcut : (Reply.positive text data).lines q.command = ((ascii "+OK" ++ text) :: data.map stuffed) ++ [[46]] := by
    rw [Reply.lines, if_pos hmulti.1]
    rfl
  have hinit : ∀ l ∈ (ascii "+OK" ++ text) :: data.map stuffed, endsReply q.command l = false := by
    intro l hl
    rcases List.mem_cons.mp hl with rfl | hl
    · rw [endsReply_positive, hmulti.1]
      rfl
    · obtain ⟨line, -, rfl⟩ := List.mem_map.mp hl
      rw [endsReply_stuffed hmulti.1, hmulti.2]
      rfl
  have ha := (session_ordered hs).awaiting hq hwritten
  rw [hcut] at hlines hsent
  rw [tryRun_parsed ha (by rw [hrbuf]; rfl) hlines hinit rfl hc (by rw [hrbuf, hsent]; rfl)] at ht
  obtain ⟨⟨qs, hqs, -, -⟩, -, hsame⟩ := foldl_queued (clientSends es) ha.queue_ne
  generalize (clientSends es).foldl sendCommand s = u at hqs hsame ht
  have hresponses' : (replied u ((ascii "+OK" ++ text) :: data.map stuffed) [46] []).responses =
      (ascii "+OK" ++ text) :: data.map stuffed := by
    rw [replied, if_pos rfl, hsame, hresponses]
    rfl
  obtain ⟨x, hx, htx⟩ := parseServerOutput_rawSources ht (by rw [hresponses']; exact List.cons_ne_nil _ _)
  have hlast : u.lastCommand = q.command := by rw [hsame, hwritten]
  have hparse : x ∈ parseRETR w (replied u ((ascii "+OK" ++ text) :: data.map stuffed) [46] []) := by
    rw [parseCommand, show (replied u _ [46] []).lastCommand = q.command from hlast] at hx
    rcases hretr with h | h
    all_goals
      rw [h] at hx
      exact hx
  obtain ⟨idx, hidx, hstored⟩ := parseRETR_stores hresponses' hparse
  have hqueue : u.queue.getLast? = s.queue.getLast? := by
    rw [hqs, show s.queue.getLast? = some q from hq]
    exact List.getLast?_append_of_ne_nil _ ha.queue_ne ▸ hq
  have hnumber : messageNumber (ascii "RETR ") (replied u ((ascii "+OK" ++ text) :: data.map stuffed) [46] []) =
      messageNumber (ascii "RETR ") s := by
    rw [messageNumber, messageNumber, ← hqueue]
    rfl
  refine ⟨idx, hnumber ▸ hidx, ?_⟩
  have hraw : (replied u ((ascii "+OK" ++ text) :: data.map stuffed) [46] []).rawSources = s.rawSources := by
    rw [replied, hsame]
  rw [htx, hstored, hraw, List.append_cancel_left_eq, ← joined_stuffed_iff]
  simp

/-- A message of two lines, whose second one starts with the octet. -/
def retrieval : List Event :=
  [.receive (ascii "+OK POP3" ++ crlf) {}, .receive (ascii "+OK" ++ crlf ++ ascii "." ++ crlf)
    { sends := [(.retr, ascii "RETR 1")] }]

def requested : Store := { queue := [retr], next := 3, lastCommand := .retr, written := [capa, retr] }

lemma session_requested : session [] [] retrieval = some requested := by decide

theorem rawSource_requested : ∃ t ∈ tryRun step requested
    ([.receive (ascii "+OK" ++ crlf ++ ascii "to" ++ crlf ++ ascii "..") {}] ++
      [.receive (ascii "hidden" ++ crlf ++ ascii "." ++ crlf) { visible := 1 }]),
    ∃ idx ∈ messageNumber (ascii "RETR ") requested,
      (t.rawSources = requested.rawSources ++ [(idx, joined [ascii "to", ascii ".hidden"])] ↔
        ∀ line ∈ [ascii "to", ascii ".hidden"], line.head? ≠ some 46) := by
  have hlines : ∀ l ∈ (Reply.positive [] [ascii "to", ascii ".hidden"]).lines retr.command, splitLines l = none := by
    decide
  have hsome : (tryRun step requested
      ([.receive (ascii "+OK" ++ crlf ++ ascii "to" ++ crlf ++ ascii "..") {}] ++
        [.receive (ascii "hidden" ++ crlf ++ ascii "." ++ crlf) { visible := 1 }])).isSome = true := by
    decide
  obtain ⟨t, ht⟩ := Option.isSome_iff_exists.mp hsome
  exact ⟨t, ht, rawSource_iff session_requested rfl (.inl rfl) rfl ⟨rfl, rfl⟩ hlines (by decide) (by decide) t ht⟩

/-- The second line keeps both octets. -/
theorem not_rawSource_lines : ¬∀ (data : List Bytes), (∀ line ∈ data, splitLines line = none) →
    ∀ t ∈ tryRun step requested [.receive (sent ((Reply.positive [] data).lines .retr)) { visible := 1 }],
      t.rawSources = requested.rawSources ++ [(1, joined data)] := by
  intro h
  have hstored : (tryRun step requested
      [.receive (sent ((Reply.positive [] [ascii "to", ascii ".hidden"]).lines .retr)) { visible := 1 }]).map
      Store.rawSources = some [(1, joined [ascii "to", ascii "..hidden"])] := by decide
  obtain ⟨t, ht, hraw⟩ := Option.map_eq_some_iff.mp hstored
  have hlines := h [ascii "to", ascii ".hidden"] (by decide) t ht
  rw [hraw] at hlines
  exact absurd hlines (by decide)

end Retrieval

end Xperimentum.Pantomime.POP3
