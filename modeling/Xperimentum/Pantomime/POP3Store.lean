import Mathlib.Tactic
import Xperimentum.Lib.Int32
import Xperimentum.Pantomime.Data

/-! `CWPOP3Store`: its queue of commands, the lines of the server's replies, and the handlers of complete replies. -/

namespace Xperimentum.Pantomime.POP3

open Xperimentum.Lib.Int32

inductive POP3Command
  | apop | authorization | capa | dele | expungeCompleted | list | noop | pass | quit | retr | retrAndInitialize | stat
  | stls | top | uidl | user
  deriving DecidableEq, Repr

/-- `identity` tells two commands of the same text apart. -/
structure QueueObject where
  identity : ℕ
  command : POP3Command
  arguments : Bytes
  deriving DecidableEq, Repr

/-- Sizes that `sscanf` left as they were are `none`. -/
structure Message where
  size : Option ℕ := none
  number : ℕ := 0
  uid : Bytes := []
  deriving DecidableEq, Repr

/-- `queue` has the newest command first; `written` are the commands that went over the connection, and `rawSources`
what has been stored for the messages that the folder shows. -/
structure Store where
  queue : List QueueObject := [⟨0, .authorization, []⟩]
  next : ℕ := 1
  lastCommand : POP3Command := .authorization
  responses : List Bytes := []
  rbuf : Bytes := []
  timestamp : Option Bytes := none
  capabilities : List Bytes := []
  allMessages : List Message := []
  username : Bytes := []
  password : Bytes := []
  written : List QueueObject := []
  rawSources : List (ℕ × Bytes) := []
  deriving DecidableEq, Repr

abbrev Send := POP3Command × Bytes

/-- What a complete reply meets: what the delegate sends when it is told of it, how many messages the folder shows,
which lines can be decoded in the default C string encoding, and whether the content of a message, its headers and
its cache record are handled without an exception. -/
structure Surroundings where
  sends : List Send := []
  visible : ℕ := 0
  decodable : Bytes → Bool := fun _ => true
  contentHandled : Bytes → Bool := fun _ => true

def write (q : QueueObject) (s : Store) : Store :=
  { s with lastCommand := q.command, written := s.written ++ [q] }

/-- The end of `sendCommand:`, for the command at the end of the queue. What the delegate sends when it is told of a
completed expunge is sent after the call: nothing follows it. -/
def runCommand (q : QueueObject) (s : Store) : Store :=
  if q.command = .expungeCompleted then { s with lastCommand := q.command, queue := s.queue.dropLast }
  else write q s

def sendCommand (s : Store) (send : Send) : Store :=
  let q : QueueObject := ⟨s.next, send.1, send.2⟩
  let s := { s with queue := q :: s.queue, next := s.next + 1 }
  if 1 < s.queue.length then s else runCommand q s

/-- `sendCommand:` with `POP3_EMPTY_QUEUE`. -/
def emptyQueue (s : Store) : Store :=
  match s.queue.getLast? with
  | some q => runCommand q s
  | none => s

def skipSpace (b : Bytes) : Bytes := b.dropWhile isSpace

/-- `%lu`, and `%u` of what was printed with `%d`; a number with a minus sign is a huge one. -/
def scanUnsigned (b : Bytes) : Option (ℕ × Bytes) :=
  let digits (b : Bytes) (f : ℕ → ℕ) : Option (ℕ × Bytes) :=
    match b.takeWhile isDigit with
    | [] => none
    | ds => some (f (min (decimal ds) (2 ^ 64 - 1)), b.dropWhile isDigit)
  match skipSpace b with
  | 43 :: b => digits b id
  | 45 :: b => digits b fun n => (2 ^ 64 - n) % 2 ^ 64
  | b => digits b id

def hexValue (c : UInt8) : ℕ := if isDigit c then c.toNat - 48 else (lower c).toNat - 87

def isHexDigit (c : UInt8) : Bool := isDigit c || 97 ≤ lower c && lower c ≤ 102

def isOctalDigit (c : UInt8) : Bool := 48 ≤ c && c ≤ 55

/-- `%i`: the base is that of a C constant. -/
def scanInteger (b : Bytes) : Option ℤ :=
  let magnitude (b : Bytes) : Option ℕ :=
    match b with
    | 48 :: x :: c :: b =>
      if lower x = 120 && isHexDigit c then some (((c :: b).takeWhile isHexDigit).foldl (fun n c => 16 * n + hexValue c) 0)
      else some (((x :: c :: b).takeWhile isOctalDigit).foldl (fun n c => 8 * n + hexValue c) 0)
    | 48 :: b => some ((b.takeWhile isOctalDigit).foldl (fun n c => 8 * n + hexValue c) 0)
    | b => if b.takeWhile isDigit = [] then none else some (decimal (b.takeWhile isDigit))
  match skipSpace b with
  | 45 :: b => (magnitude b).map fun n => wrap32 (max (-2 ^ 63) (-n))
  | 43 :: b => (magnitude b).map fun n => wrap32 (min (2 ^ 63 - 1) n)
  | b => (magnitude b).map fun n => wrap32 (min (2 ^ 63 - 1) n)

/-- The handlers give the commands that are sent while they run, and nothing where an exception leaves them or an
indeterminate value is used. -/
abbrev Handled := Option (Store × List Send)

def lastResponse (s : Store) : Bytes := s.responses.getLastD []

def isOK (s : Store) : Bool := hasCPrefix (lastResponse s) (ascii "+OK")

/-- The timestamp is between the first `<` and the first `>`, unless the latter is too far in front. -/
def parseAUTHORIZATION (s : Store) : Handled :=
  if isOK s then
    let aData := lastResponse s
    match aData.findIdx? (· = 60), aData.findIdx? (· = 62) with
    | some first, some last =>
      if first ≤ last + 1 then
        some ({ s with timestamp := some ((aData.drop first).take (last + 1 - first)) }, [(.capa, ascii "CAPA")])
      else none
    | _, _ => some (s, [(.capa, ascii "CAPA")])
  else some (s, [])

def parseCAPA (w : Surroundings) (s : Store) : Handled :=
  if (s.responses.drop 1).all w.decodable then
    some ({ s with capabilities := s.capabilities ++ s.responses.drop 1 }, w.sends)
  else none

/-- One line of a listing: the message of its number is changed. -/
def listed (change : ℕ → Bytes → Option (Message → Message)) (allMessages : Option (List Message)) (line : Bytes × ℕ) :
    Option (List Message) :=
  allMessages.bind fun allMessages =>
    (scanUnsigned line.1).bind fun (idx, rest) =>
      if 0 < idx ∧ idx ≤ allMessages.length then
        (change (line.2 + 1) rest).map fun change => allMessages.modify (idx - 1) change
      else none

def parseListing (change : ℕ → Bytes → Option (Message → Message)) (sends : List Send) (s : Store) : Handled :=
  ((s.responses.drop 1).zipIdx.foldl (listed change) (some s.allMessages)).map fun allMessages =>
    ({ s with allMessages := allMessages }, sends)

def parseLIST (s : Store) : Handled :=
  parseListing (fun i rest => some fun m =>
    { m with size := ((scanUnsigned rest).map Prod.fst).or m.size, number := i }) [(.uidl, ascii "UIDL")] s

/-- The buffer of the identifier has 71 bytes. -/
def parseUIDL (w : Surroundings) (s : Store) : Handled :=
  parseListing (fun _ rest =>
    let uid := (skipSpace rest).takeWhile fun c => !isSpace c && c ≠ 0
    if uid.length ≤ 70 then some fun m => { m with uid := uid } else none) w.sends s

/-- There is no newline behind the last line. -/
def joined : List Bytes → Bytes
  | [] => []
  | [line] => line
  | line :: lines => line ++ 10 :: joined lines

/-- The content is the lines behind the first one, joined. -/
def contentOf (s : Store) : Bytes := joined (s.responses.drop 1)

/-- The number of the message that the command in flight has as its first argument. -/
def messageNumber (keyword : Bytes) (s : Store) : Option ℕ :=
  s.queue.getLast?.bind fun q =>
    if hasCPrefix q.arguments keyword then
      (scanUnsigned (q.arguments.drop keyword.length)).map fun number => number.1 % 2 ^ 32
    else none

/-- The message with that number is told of, and its raw source stored; there is no message from `limit` on. -/
def parseMessage (keyword : Bytes) (limit : ℕ) (handled : Bool) (rawSource : Option Bytes) (w : Surroundings) (s : Store) :
    Handled :=
  if hasCPrefix (s.responses.headD []) (ascii "+OK") then
    (messageNumber keyword s).bind fun idx =>
      if 0 < idx ∧ idx < limit ∧ idx ≤ w.visible ∧ handled then
        some ({ s with rawSources := s.rawSources ++ rawSource.toList.map fun source => (idx, source) }, w.sends)
      else none
  else some (s, [])

def parseRETR (w : Surroundings) (s : Store) : Handled :=
  parseMessage (ascii "RETR ") (2 ^ 32) (w.contentHandled (contentOf s)) (some (contentOf s)) w s

def parseTOP (w : Surroundings) (s : Store) : Handled := parseMessage (ascii "TOP ") (2 ^ 31) true none w s

/-- As many messages as the reply says; of a negative number the loop does not come to an end. -/
def parseSTAT (s : Store) : Handled :=
  if isOK s then
    match scanInteger ((lastResponse s).drop 3) with
    | some count =>
      if 0 ≤ count then
        some ({ s with allMessages := s.allMessages ++ List.replicate count.toNat {} }, [(.list, ascii "LIST")])
      else none
    | none => none
  else some (s, [])

def parseUSER (s : Store) : Handled :=
  if isOK s then some (s, [(.pass, ascii "PASS " ++ s.password)]) else some (s, [(.quit, ascii "QUIT")])

def parseCommand (w : Surroundings) (s : Store) : Handled :=
  match s.lastCommand with
  | .apop | .pass | .quit => some (s, w.sends)
  | .authorization => parseAUTHORIZATION s
  | .capa => parseCAPA w s
  | .list => parseLIST s
  | .retr | .retrAndInitialize => parseRETR w s
  | .stat => parseSTAT s
  | .stls => some (s, if isOK s then w.sends else [])
  | .top => parseTOP w s
  | .uidl => parseUIDL w s
  | .user => parseUSER s
  | .noop | .dele | .expungeCompleted => some (s, [])

def parseServerOutput (w : Surroundings) (s : Store) : Option Store :=
  if s.responses = [] then some s
  else
    (parseCommand w s).map fun handled =>
      let s := handled.2.foldl sendCommand handled.1
      let s := { s with responses := [] }
      if s.queue = [] then s else emptyQueue { s with queue := s.queue.dropLast }

def isMultiLine : POP3Command → Bool
  | .capa | .list | .top | .retr | .retrAndInitialize | .uidl => true
  | _ => false

def isRetrieval : POP3Command → Bool
  | .top | .retr | .retrAndInitialize => true
  | _ => false

/-- A line after which the reply to the last command is parsed. -/
def endsReply (lastCommand : POP3Command) (line : Bytes) : Bool :=
  match line with
  | [46] => true
  | 43 :: _ => !isMultiLine lastCommand && hasCPrefix line (ascii "+OK")
  | 45 :: _ => !isRetrieval lastCommand && hasCPrefix line (ascii "-ERR")
  | _ => false

/-- The loop of `updateRead`, which a complete reply leaves. -/
def readLines (w : Surroundings) : ℕ → Store → Option Store
  | 0, s => some s
  | n + 1, s =>
    match splitLines s.rbuf with
    | none => some s
    | some (line, rest) =>
      let received := { s with rbuf := rest, responses := s.responses ++ [line] }
      if endsReply s.lastCommand line then
        parseServerOutput w (if line = [46] then { received with responses := s.responses } else received)
      else readLines w n received

def updateRead (w : Surroundings) (s : Store) (bytes : Bytes) : Option Store :=
  let rbuf := s.rbuf ++ bytes
  readLines w (rbuf.length + 1) { s with rbuf := rbuf }

inductive Event
  | send (send : Send)
  | receive (bytes : Bytes) (surroundings : Surroundings)

def step (s : Store) : Event → Option Store
  | .send send => some (sendCommand s send)
  | .receive bytes w => updateRead w s bytes

end Xperimentum.Pantomime.POP3
