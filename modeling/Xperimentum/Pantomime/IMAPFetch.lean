import Mathlib.Tactic
import Xperimentum.Lib.Partial
import Xperimentum.Pantomime.IMAPReader

/-! The untagged `EXISTS`, `EXPUNGE` and `FETCH` responses, and the sequence numbers of the messages they
leave in the folder. -/

namespace Xperimentum.Pantomime.IMAPReader

open Xperimentum.Lib.Partial IMAPStore

section Scanning

/-- `sscanf` of `"* %u"`, the number as an `unsigned`. -/
def scanStar : Bytes → Option ℕ
  | 42 :: rest =>
    let rest := rest.dropWhile isSpace
    let digits := (if rest.head? = some 45 ∨ rest.head? = some 43 then rest.tail else rest).takeWhile isDigit
    let value := decimal digits
    if digits = [] then none
    else if 2 ^ 64 ≤ value then some (2 ^ 32 - 1)
    else if rest.head? = some 45 then some ((2 ^ 64 - value) % 2 ^ 32)
    else some (value % 2 ^ 32)
  | _ => none

/-- What `scanUnsignedInt:` reads, the characters it passes and those behind them. -/
def scanUnsignedInt (s : Bytes) : Option ℕ × Bytes × Bytes :=
  let skipped := s.takeWhile fun c => !isDigit c
  let rest := s.dropWhile fun c => !isDigit c
  let digits := rest.takeWhile isDigit
  if digits = [] then (none, s, [])
  else
    let rest := rest.dropWhile isDigit
    (some (decimal digits % 2 ^ 32), skipped ++ digits ++ rest.take 1, rest.drop 1)

inductive FetchItem
  | message (msn : ℕ)
  | uid (uid : ℕ)
  | flags (text : Bytes)
  | size (size : ℕ)
  | headersNot | headers | text | rfc822
  deriving DecidableEq, Repr

def sameWord (aWord : Bytes) (keyword : String) : Bool := aWord.map lower = (ascii keyword).map lower

def trim (s : Bytes) : Bytes := ((s.dropWhile isSpace).reverse.dropWhile isSpace).reverse

/-- The words of a `FETCH` response and whether they are read to the end, where an exception does not leave the
loop. `pending` is the text in front of the scan location that belongs to the next word, and `stray` the value
of a number that is not there. -/
def scanFetch (lastCommand : IMAPCommand) (stray : ℕ) : ℕ → Bytes → Bytes → List FetchItem × Bool
  | 0, _, _ => ([], true)
  | n + 1, pending, rest =>
    let next := rest.dropWhile isSpace
    if next = [] then ([], true)
    else
      let word := trim (pending ++ next.takeWhile fun c => !isSpace c)
      let aWord := if word.head? = some 40 then word.tail else word
      let rest := next.dropWhile fun c => !isSpace c
      let number := scanUnsignedInt rest
      let value := number.1.getD stray
      if aWord = [] then ([], false)
      else if aWord.head? = some 42 then
        if lastCommand = .uidFetchHeaderFieldsNot then ([.message value, .headersNot], true)
        else
          let more := scanFetch lastCommand stray n number.2.1 number.2.2
          (.message value :: more.1, more.2)
      else if sameWord aWord "UID" then
        let more := scanFetch lastCommand stray n [] number.2.2
        (.uid value :: more.1, more.2)
      else if sameWord aWord "FLAGS" then
        let inside := rest.takeWhile (· ≠ 41)
        if inside.length = rest.length ∨ inside.length < 2 then ([], false)
        else
          let more := scanFetch lastCommand stray n [] (rest.drop (inside.length + 1))
          (.flags (inside.drop 2) :: more.1, more.2)
      else if sameWord aWord "RFC822.SIZE" then
        let more := scanFetch lastCommand stray n [] number.2.2
        (.size value :: more.1, more.2)
      else if sameWord aWord "BODY[HEADER.FIELDS.NOT" ∨ lastCommand = .uidFetchHeaderFieldsNot then
        ([.headersNot], true)
      else if sameWord aWord "BODY[HEADER.FIELDS" then
        let more := scanFetch lastCommand stray n [] rest
        (.headers :: more.1, more.2)
      else if sameWord aWord "BODY[TEXT]" then ([.text], true)
      else if sameWord aWord "RFC822" then ([.rfc822], true)
      else scanFetch lastCommand stray n [] rest

end Scanning

section Handlers

/-- The lines from the one that begins a `FETCH` of this number on. -/
def fetchLines (theMSN : ℕ) (responses : List Bytes) : List (Bytes × ℕ) :=
  responses.zipIdx.dropWhile fun line => !hasKeyword ("* " ++ toString theMSN ++ " FETCH") (asciiString line.1)

/-- A blank is appended behind line `i` for `i < count-1`, an `NSUInteger`, where `count` is one less than the
number of lines. -/
def fetchText (theMSN : ℕ) (responses : List Bytes) : Bytes :=
  (fetchLines theMSN responses).flatMap fun line =>
    asciiString line.1 ++ if responses.length = 1 ∨ line.2 + 2 < responses.length then [32] else []

def fetchItems (stray theMSN : ℕ) (s : Store) : List FetchItem × Bool :=
  let text := fetchText theMSN s.responses
  scanFetch s.lastCommand stray text.length [] text

/-- `rangeOfString:options:` without regard to case. -/
def contains (text : Bytes) (keyword : String) : Bool :=
  text.tails.any fun t => hasKeyword keyword t

def parseFlags (text : Bytes) : List MessageFlag :=
  [(.seen, "\\Seen"), (.recent, "\\Recent"), (.deleted, "\\Deleted"), (.answered, "\\Answered"),
    (.flagged, "\\Flagged"), (.draft, "\\Draft")].filterMap fun (flag : MessageFlag × String) =>
      if contains text flag.2 then some flag.1 else none

def setMessages (all : List IMAPMessage) (s : Store) : Store :=
  { s with selectedFolder := s.selectedFolder.map fun f => { f with allMessages := all } }

def messages (s : Store) : List IMAPMessage := (s.selectedFolder.map IMAPFolder.allMessages).getD []

def updateMessage (index : ℕ) (update : IMAPMessage → IMAPMessage) (s : Store) : Store :=
  setMessages ((messages s).modify index update) s

/-- `msn-1`, an `unsigned`. -/
def indexOf (msn : ℕ) : ℕ := if msn = 0 then 2 ^ 32 - 1 else msn - 1

/-- The message a number stands for: a new one, or an element of `allMessages`. -/
def fetchMessage (msn : ℕ) (s : Store) : Option (ℕ × Store) :=
  if (messages s).length < msn then
    some ((messages s).length, setMessages (messages s ++ [{ messageNumber := msn }]) s)
  else if indexOf msn < (messages s).length then
    some (indexOf msn, updateMessage (indexOf msn) (fun m => { m with messageNumber := msn }) s)
  else none

/-- The data of a literal, which the command in flight owns. -/
def withData (s : Store) (f : Option Bytes → IMAPMessage → IMAPMessage) (index : ℕ) : Outcome Store :=
  match s.currentQueueObject with
  | none => .leaves s
  | some _ =>
    let nsData := s.nsData.map replaceCRLFWithLF
    .continues (updateMessage index (f nsData) { s with nsData := nsData })

def applyItem (item : FetchItem) (index : ℕ) (s : Store) : Outcome Store :=
  match item with
  | .uid uid => .continues (updateMessage index (fun m => if m.uid = 0 then { m with uid := uid } else m) s)
  | .flags text => .continues (updateMessage index (fun m => { m with flags := parseFlags text }) s)
  | .size size => .continues (updateMessage index (fun m => { m with size := size }) s)
  | .headersNot => withData s (fun nsData m => { m with moreHeaders := nsData }) index
  | .headers => withData s (fun nsData m => { m with headers := nsData }) index
  | .text =>
    withData s (fun nsData m =>
      if m.content.isSome then m else { m with content := some (nsData.getD []), initialized := true }) index
  | .rfc822 => withData s (fun nsData m => { m with rawSource := nsData }) index
  | .message _ => .continues s

def applyItems : List FetchItem → Option ℕ → Store → Outcome Store
  | [], _, s => .continues s
  | .message msn :: items, _, s =>
    match fetchMessage msn s with
    | some (index, s) => applyItems items (some index) s
    | none => .outOfRange s
  | item :: items, some index, s => (applyItem item index s).andThen fun s => applyItems items (some index) s
  | _ :: _, none, s => .leaves s

/-- Lines equal to a line that has been processed are removed from the responses. -/
def parseFETCH (stray theMSN : ℕ) (s : Store) : Outcome Store :=
  match s.selectedFolder with
  | none => .continues s
  | some _ =>
    let items := fetchItems stray theMSN s
    (applyItems items.1 none s).andThen fun t =>
      if items.2 then
        let processed := (fetchLines theMSN s.responses).map Prod.fst
        .continues { t with responses := t.responses.filter fun line => line ∉ processed }
      else .leaves t

/-- The number of the last response, or what the variable held if there is none. -/
def lastNumber (stray : ℕ) (s : Store) : ℕ := (s.responses.getLast?.bind scanStar).getD stray

/-- The numbers from the expunged message on are set again. -/
def renumberFrom (index : ℕ) (all : List IMAPMessage) : List IMAPMessage :=
  all.mapIdx fun i m => if index ≤ i then { m with messageNumber := i + 1 } else m

def parseEXPUNGE (stray : ℕ) (s : Store) : Outcome Store :=
  let msn := lastNumber stray s
  match s.selectedFolder with
  | none => .continues s
  | some f =>
    if f.allMessages.length < msn then .continues s
    else if indexOf msn < f.allMessages.length then
      .continues (setMessages (renumberFrom (indexOf msn) (f.allMessages.eraseIdx (indexOf msn))) s)
    else .outOfRange s

/-- The handlers of the responses this module is about. -/
def handle (stray : ℕ) : Kind → Store → Outcome Store
  | .fetch theMSN, s => parseFETCH stray theMSN s
  | .existing, s => .continues (parseEXISTS (lastNumber stray s) s)
  | .expunge, s => parseEXPUNGE stray s
  | _, s => .continues s

end Handlers

section Numbers

variable {s t : Store} {o : Outcome Store}

/-- The `i`-th message has the number `i+1`. -/
def Numbered (s : Store) : Prop := ∀ i m, (messages s)[i]? = some m → m.messageNumber = i + 1

def Sound : Outcome Store → Prop
  | .continues s | .leaves s => Numbered s
  | .outOfRange _ => False

lemma Numbered.of_eq (hs : Numbered s) (h : t.selectedFolder = s.selectedFolder) : Numbered t := by
  intro i m hm
  rw [messages, h] at hm
  exact hs i m hm

lemma numbered_setMessages {all : List IMAPMessage} (h : ∀ i m, all[i]? = some m → m.messageNumber = i + 1) :
    Numbered (setMessages all s) := by
  intro i m hm
  cases hf : s.selectedFolder with
  | none => simp [messages, setMessages, hf] at hm
  | some f =>
    rw [messages, setMessages, hf] at hm
    exact h i m hm

lemma messages_setMessages (hf : s.selectedFolder.isSome) (all : List IMAPMessage) :
    messages (setMessages all s) = all := by
  obtain ⟨f, hf⟩ := Option.isSome_iff_exists.mp hf
  rw [messages, setMessages, hf]
  rfl

lemma setMessages_isSome (all : List IMAPMessage) :
    (setMessages all s).selectedFolder.isSome = s.selectedFolder.isSome := by
  cases hf : s.selectedFolder with
  | none => simp [setMessages, hf]
  | some f => simp [setMessages, hf]

lemma Numbered.update (hs : Numbered s) {update : IMAPMessage → IMAPMessage}
    (h : ∀ m, (update m).messageNumber = m.messageNumber) (index : ℕ) : Numbered (updateMessage index update s) := by
  apply numbered_setMessages
  intro i m hm
  rw [List.getElem?_modify] at hm
  obtain ⟨m', hm', hupdate⟩ := Option.map_eq_some_iff.mp hm
  have hnumber := hs i m' hm'
  split_ifs at hupdate with hi
  · rw [← hupdate, h]
    exact hnumber
  · rw [← hupdate]
    exact hnumber

lemma applyItem_cases (hs : Numbered s) (hf : s.selectedFolder.isSome) (item : FetchItem) (index : ℕ) :
    (∃ t, applyItem item index s = .continues t ∧ Numbered t ∧ t.selectedFolder.isSome ∧
      (messages t).length = (messages s).length) ∨ applyItem item index s = .leaves s := by
  have hupdate : ∀ update : IMAPMessage → IMAPMessage, (∀ m, (update m).messageNumber = m.messageNumber) →
      Numbered (updateMessage index update s) ∧ (updateMessage index update s).selectedFolder.isSome ∧
        (messages (updateMessage index update s)).length = (messages s).length := by
    intro update h
    refine ⟨hs.update h index, (setMessages_isSome _).trans hf, ?_⟩
    rw [updateMessage, messages_setMessages hf, List.length_modify]
  have hdata : ∀ f : Option Bytes → IMAPMessage → IMAPMessage,
      (∀ nsData m, (f nsData m).messageNumber = m.messageNumber) →
      (∃ t, withData s f index = .continues t ∧ Numbered t ∧ t.selectedFolder.isSome ∧
        (messages t).length = (messages s).length) ∨ withData s f index = .leaves s := by
    intro f h
    cases hc : s.currentQueueObject with
    | none => exact .inr (by simp only [withData, hc])
    | some q =>
      refine .inl ⟨_, by simp only [withData, hc]; rfl, ?_⟩
      exact hupdate (f (s.nsData.map replaceCRLFWithLF)) (h _)
  cases item with
  | message msn => exact .inl ⟨s, rfl, hs, hf, rfl⟩
  | uid uid =>
    refine .inl ⟨_, rfl, hupdate _ fun m => ?_⟩
    split_ifs <;> rfl
  | flags text => exact .inl ⟨_, rfl, hupdate _ fun m => rfl⟩
  | size size => exact .inl ⟨_, rfl, hupdate _ fun m => rfl⟩
  | headersNot => exact hdata (fun nsData m => { m with moreHeaders := nsData }) fun nsData m => rfl
  | headers => exact hdata (fun nsData m => { m with headers := nsData }) fun nsData m => rfl
  | text =>
    apply hdata fun nsData m =>
      if m.content.isSome then m else { m with content := some (nsData.getD []), initialized := true }
    intro nsData m
    split_ifs <;> rfl
  | rfc822 => exact hdata (fun nsData m => { m with rawSource := nsData }) fun nsData m => rfl

/-- Each number that a response mentions is that of a message of the folder or the next one. -/
def NumbersFit : ℕ → List FetchItem → Prop
  | _, [] => True
  | count, .message msn :: items => 1 ≤ msn ∧ msn ≤ count + 1 ∧ NumbersFit (max count msn) items
  | count, _ :: items => NumbersFit count items

instance decidableNumbersFit : ∀ count items, Decidable (NumbersFit count items)
  | _, [] => inferInstanceAs (Decidable True)
  | count, .message msn :: items =>
    have : Decidable (NumbersFit (max count msn) items) := decidableNumbersFit _ items
    inferInstanceAs (Decidable (_ ∧ _ ∧ _))
  | count, .uid _ :: items | count, .flags _ :: items | count, .size _ :: items | count, .headersNot :: items
  | count, .headers :: items | count, .text :: items | count, .rfc822 :: items => decidableNumbersFit count items

lemma fetchMessage_fits (hs : Numbered s) (hf : s.selectedFolder.isSome) {msn : ℕ} (hpos : 1 ≤ msn)
    (hle : msn ≤ (messages s).length + 1) :
    ∃ index t, fetchMessage msn s = some (index, t) ∧ Numbered t ∧ t.selectedFolder.isSome ∧
      (messages t).length = max (messages s).length msn := by
  by_cases hnew : (messages s).length < msn
  · refine ⟨_, _, by rw [fetchMessage, if_pos hnew], ?_, (setMessages_isSome _).trans hf, ?_⟩
    · apply numbered_setMessages
      intro i m hm
      rw [List.getElem?_append] at hm
      split_ifs at hm with hi
      · exact hs i m hm
      · obtain ⟨hi', hm'⟩ := List.getElem?_eq_some_iff.mp hm
        rw [List.length_singleton] at hi'
        simp only [show i - (messages s).length = 0 by omega, List.getElem_cons_zero] at hm'
        rw [← hm']
        show msn = i + 1
        omega
    · rw [messages_setMessages hf, List.length_append, List.length_singleton]
      omega
  · have hindex : indexOf msn = msn - 1 := if_neg (by omega)
    have hin : indexOf msn < (messages s).length := by omega
    refine ⟨indexOf msn, updateMessage (indexOf msn) (fun m => { m with messageNumber := msn }) s,
      by rw [fetchMessage, if_neg hnew, if_pos hin], ?_, (setMessages_isSome _).trans hf, ?_⟩
    · apply numbered_setMessages
      intro i m hm
      rw [List.getElem?_modify] at hm
      obtain ⟨m', hm', hupdate⟩ := Option.map_eq_some_iff.mp hm
      split_ifs at hupdate with hi
      · rw [← hupdate]
        show msn = i + 1
        omega
      · rw [← hupdate]
        exact hs i m' hm'
    · rw [updateMessage, messages_setMessages hf, List.length_modify]
      omega

lemma applyItems_sound (items : List FetchItem) (index : Option ℕ) (hs : Numbered s)
    (hf : s.selectedFolder.isSome) (h : NumbersFit (messages s).length items) :
    Sound (applyItems items index s) := by
  induction items generalizing s index with
  | nil => exact hs
  | cons item items ih =>
    have hother : ∀ item, NumbersFit (messages s).length items →
        ∀ i, Sound ((applyItem item i s).andThen fun s => applyItems items (some i) s) := by
      intro item hitems i
      rcases applyItem_cases hs hf item i with ⟨t, ht, hn, hft, hlength⟩ | ht
      · rw [ht]
        exact ih (some i) hn hft (hlength ▸ hitems)
      · rw [ht]
        exact hs
    cases item with
    | message msn =>
      obtain ⟨i, t, ht, hn, hft, hlength⟩ := fetchMessage_fits hs hf h.1 h.2.1
      simp only [applyItems, ht]
      exact ih (some i) hn hft (hlength ▸ h.2.2)
    | _ =>
      cases index with
      | none => exact hs
      | some i => exact hother _ h i

lemma parseFETCH_sound (hs : Numbered s) {stray theMSN : ℕ}
    (h : s.selectedFolder.isSome → NumbersFit (messages s).length (fetchItems stray theMSN s).1) :
    Sound (parseFETCH stray theMSN s) := by
  cases hf : s.selectedFolder with
  | none =>
    simp only [parseFETCH, hf]
    exact hs
  | some f =>
    have hsome : s.selectedFolder.isSome := by rw [hf]; rfl
    have hitems := applyItems_sound (fetchItems stray theMSN s).1 none hs hsome (h hsome)
    simp only [parseFETCH, hf]
    cases ho : applyItems (fetchItems stray theMSN s).1 none s with
    | continues t =>
      rw [ho] at hitems
      simp only [Outcome.andThen]
      split_ifs
      · exact hitems.of_eq rfl
      · exact hitems
    | leaves t =>
      rw [ho] at hitems
      exact hitems
    | outOfRange t =>
      rw [ho] at hitems
      exact hitems

lemma numbered_renumber {all : List IMAPMessage} {index : ℕ}
    (h : ∀ i m, all[i]? = some m → m.messageNumber = i + 1) (i : ℕ) (m : IMAPMessage)
    (hm : (renumberFrom index (all.eraseIdx index))[i]? = some m) : m.messageNumber = i + 1 := by
  rw [renumberFrom, List.getElem?_mapIdx] at hm
  obtain ⟨m', hm', hnumber⟩ := Option.map_eq_some_iff.mp hm
  split_ifs at hnumber with hi
  · rw [← hnumber]
  · rw [List.getElem?_eraseIdx_of_lt (Nat.not_le.mp hi)] at hm'
    rw [← hnumber]
    exact h i m' hm'

lemma parseEXPUNGE_sound (hs : Numbered s) {stray : ℕ} (h : s.selectedFolder.isSome → lastNumber stray s ≠ 0) :
    Sound (parseEXPUNGE stray s) := by
  cases hf : s.selectedFolder with
  | none =>
    simp only [parseEXPUNGE, hf]
    exact hs
  | some f =>
    have hne := h (by rw [hf]; rfl)
    have hmessages : messages s = f.allMessages := by rw [messages, hf]; rfl
    simp only [parseEXPUNGE, hf]
    split_ifs with hnew hin
    · exact hs
    · apply numbered_setMessages
      rw [← hmessages]
      exact numbered_renumber hs
    · have hindex : indexOf (lastNumber stray s) = lastNumber stray s - 1 := if_neg hne
      exact absurd hin (by omega)

lemma sendCommand_selectedFolder (command : IMAPCommand) (arguments : String) (s : Store) :
    (sendCommand command arguments s).selectedFolder = s.selectedFolder := by
  simp only [sendCommand]
  split_ifs <;> rfl

lemma parseEXISTS_selectedFolder (n : ℕ) (s : Store) : (parseEXISTS n s).selectedFolder = s.selectedFolder := by
  simp only [parseEXISTS]
  split
  · split_ifs
    · apply sendCommand_selectedFolder
    · rfl
  · rfl

lemma removeLastResponse_sound (hs : Numbered s) : Sound (removeLastResponse s) := by
  rw [removeLastResponse]
  split_ifs
  · exact hs
  · exact hs.of_eq rfl

/-- The response is an `EXISTS`, `RECENT`, `EXPUNGE` or `FETCH` whose numbers stand for messages. -/
def Fits (stray : ℕ) (s : Store) : Kind → Prop
  | .existing | .recent => True
  | .expunge => s.selectedFolder.isSome → lastNumber stray s ≠ 0
  | .fetch theMSN =>
    ¬readsLiteral s → s.selectedFolder.isSome → NumbersFit (messages s).length (fetchItems stray theMSN s).1
  | _ => False

instance (stray : ℕ) (s : Store) : ∀ kind, Decidable (Fits stray s kind)
  | .existing | .recent => inferInstanceAs (Decidable True)
  | .expunge => inferInstanceAs (Decidable (_ → _))
  | .fetch theMSN =>
    inferInstanceAs (Decidable (¬readsLiteral s → s.selectedFolder.isSome → NumbersFit _ _))
  | .continuation | .ok | .bye | .list | .lsub | .search | .status | .capability | .unknown | .tagged =>
    inferInstanceAs (Decidable False)

lemma dispatch_sound (hs : Numbered s) {stray : ℕ} {aData : Bytes} (h : Fits stray s (kindOf aData s)) :
    Sound (dispatch (handle stray) aData s) := by
  simp only [dispatch]
  cases hk : kindOf aData s with
  | fetch theMSN =>
    rw [hk] at h
    simp only
    split_ifs with hl
    · exact hs
    · exact parseFETCH_sound hs (h hl)
  | existing => exact removeLastResponse_sound (hs.of_eq (parseEXISTS_selectedFolder _ s))
  | recent => exact removeLastResponse_sound hs
  | expunge =>
    rw [hk] at h
    exact parseEXPUNGE_sound hs h
  | _ =>
    rw [hk] at h
    exact h.elim

end Numbers

section Runs

/-- What the server sends: a response line, or the literal of a response and the line behind it. In between,
commands and tagged replies change what they may of the store outside the folder. -/
inductive ServerEvent
  | line (aData : Bytes) (stray : UInt32)
  | literal (nsData rest : Bytes) (stray : UInt32)
  | command (lastCommand : IMAPCommand) (current : Option QueueObject) (literal : ℤ) (nsData : Option Bytes)
      (responses : List Bytes)

/-- The response that is looked at, and the store it is looked at in. -/
def called (s : Store) : ServerEvent → Option (Bytes × UInt32 × Store)
  | .line aData stray => some (aData, stray, announce aData (addResponse aData s))
  | .literal nsData rest stray =>
    let t := { addResponse rest s with nsData := some nsData, literal := 0 }
    t.responses.head?.map fun aData => (aData, stray, t)
  | .command .. => none

def settle : Outcome Store → Option Store
  | .continues s | .leaves s => some s
  | .outOfRange _ => none

def serverStep (s : Store) (e : ServerEvent) : Option Store :=
  match e, called s e with
  | .command lastCommand current literal nsData responses, _ =>
    some { s with lastCommand, currentQueueObject := current, literal, nsData, responses }
  | _, some (aData, stray, t) => settle (dispatch (handle stray.toNat) aData t)
  | _, none => some s

def Agrees (s : Store) (e : ServerEvent) : Prop :=
  ∀ call ∈ called s e, Fits call.2.1.toNat call.2.2 (kindOf call.1 call.2.2)

instance (s : Store) (e : ServerEvent) : Decidable (Agrees s e) :=
  inferInstanceAs (Decidable (∀ call ∈ called s e, Fits call.2.1.toNat call.2.2 (kindOf call.1 call.2.2)))

variable {s : Store}

lemma Sound.settled {o : Outcome Store} (h : Sound o) : Ensures (settle o) Numbered := by
  cases o with
  | continues t => exact ensures_some h
  | leaves t => exact ensures_some h
  | outOfRange t => exact h.elim

lemma announce_selectedFolder (aData : Bytes) (s : Store) :
    (announce aData s).selectedFolder = s.selectedFolder := by
  rw [announce]
  split_ifs <;> rfl

lemma called_selectedFolder {e : ServerEvent} {call : Bytes × UInt32 × Store} (h : call ∈ called s e) :
    call.2.2.selectedFolder = s.selectedFolder := by
  cases e with
  | line aData stray =>
    obtain rfl := Option.some.inj h
    exact announce_selectedFolder aData _
  | literal nsData rest stray =>
    obtain ⟨aData, -, rfl⟩ := Option.map_eq_some_iff.mp h
    rfl
  | command lastCommand current literal nsData responses => cases h

lemma serverStep_ensures (s : Store) (e : ServerEvent) (hs : Numbered s) (h : Agrees s e) :
    Ensures (serverStep s e) Numbered := by
  have hcall : ∀ call ∈ called s e, Ensures (settle (dispatch (handle call.2.1.toNat) call.1 call.2.2)) Numbered :=
    fun call hcall => (dispatch_sound (hs.of_eq (called_selectedFolder hcall)) (h call hcall)).settled
  cases e with
  | line aData stray => exact hcall _ rfl
  | literal nsData rest stray =>
    cases hc : called s (.literal nsData rest stray) with
    | none =>
      simp only [serverStep, hc]
      exact ensures_some hs
    | some call =>
      simp only [serverStep, hc]
      exact hcall call hc
  | command lastCommand current literal nsData responses => exact ensures_some (hs.of_eq rfl)

theorem run_numbered (s : Store) (es : List ServerEvent) (hs : Numbered s)
    (h : Admits serverStep Agrees s es) : Ensures (tryRun serverStep s es) Numbered :=
  tryRun_ensures serverStep_ensures hs h

/-- A folder just opened, with `NOOP` in flight. -/
def opened : Store :=
  { currentQueueObject := some ⟨.noop, "NOOP", 2⟩, lastCommand := .noop, selectedFolder := some { name := "INBOX" } }

def skipped : Bytes := ascii "* 5 FETCH (UID 9 FLAGS ())"

/-- The first message of the folder gets the number 5. -/
theorem skipped_number_not_numbered :
    ¬Ensures (tryRun serverStep opened [.line skipped 0]) Numbered := by
  rintro ⟨t, ht, hnumbered⟩
  obtain rfl := Option.some.inj ht
  have hfirst : ((messages (dispatch (handle 0) skipped (announce skipped (addResponse skipped opened))).state)[0]?).map
      IMAPMessage.messageNumber = some 5 := by decide
  obtain ⟨m, hm, hfive⟩ := Option.map_eq_some_iff.mp hfirst
  have hone := hnumbered 0 m hm
  omega

theorem run_numbered_expunged :
    Ensures (tryRun serverStep opened
      [.line (ascii "* 1 FETCH (UID 18 FLAGS (\\Seen))") 0, .line (ascii "* 2 FETCH (UID 19 FLAGS ())") 0,
        .line (ascii "* 1 EXPUNGE") 0, .line (ascii "* 1 EXISTS") 0]) Numbered :=
  run_numbered _ _ (fun i m hm => by cases hm) (by decide)

end Runs

end Xperimentum.Pantomime.IMAPReader
