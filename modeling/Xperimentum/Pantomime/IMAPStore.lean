import Mathlib.Tactic

/-! `CWIMAPStore`: its queue of commands, the completion of a command by a tagged reply, and the
reconnection that saves and restores the queue. -/

namespace Xperimentum.Pantomime.IMAPStore

inductive IMAPCommand
  | append | authenticateCramMD5 | authenticateLogin | authorization | capability | close | create | delete
  | examine | expunge | list | login | logout | lsub | noop | rename | select | startTLS | status | subscribe
  | uidCopy | uidFetchBodyText | uidFetchHeaderFields | uidFetchHeaderFieldsNot | uidFetchRFC822 | uidSearch
  | uidSearchAll | uidSearchAnswered | uidSearchFlagged | uidSearchUnseen | uidStore | unsubscribe
  deriving DecidableEq, Repr

structure QueueObject where
  command : IMAPCommand
  arguments : String
  tag : ℕ
  deriving DecidableEq, Repr

inductive MessageFlag
  | seen | recent | deleted | answered | flagged | draft
  deriving DecidableEq, Repr

structure IMAPMessage where
  messageNumber : ℕ
  uid : ℕ := 0
  size : ℕ := 0
  flags : List MessageFlag := []
  initialized : Bool := false
  headers : Option (List UInt8) := none
  moreHeaders : Option (List UInt8) := none
  content : Option (List UInt8) := none
  rawSource : Option (List UInt8) := none
  deriving DecidableEq, Repr

/-- A folder under its name in modified UTF-7. -/
structure IMAPFolder where
  name : String
  readOnly : Bool := false
  hasCache : Bool := false
  allMessages : List IMAPMessage := []
  deriving DecidableEq, Repr

inductive Mechanism
  | cramMD5 | login | plain
  deriving DecidableEq, Repr

/-- `queue` has the newest command first, so the command in flight is its last element. `literal` and `nsData`
belong to `currentQueueObject`. `enqueued` and `written` record every command that entered the queue and every
command that went out to the server. -/
structure Store where
  tag : ℕ := 1
  queue : List QueueObject := []
  currentQueueObject : Option QueueObject := none
  lastCommand : IMAPCommand := .authorization
  mechanism : Mechanism := .plain
  loginArguments : String := ""
  selectedFolder : Option IMAPFolder := none
  literal : ℤ := 0
  nsData : Option (List UInt8) := none
  responses : List (List UInt8) := []
  previousQueue : List QueueObject := []
  reconnecting : Bool := false
  openingMailbox : Bool := false
  enqueued : List QueueObject := []
  written : List QueueObject := []
  deriving DecidableEq, Repr

def writeCurrent (q : QueueObject) (s : Store) : Store :=
  { s with
    currentQueueObject := some q, lastCommand := q.command, literal := 0, nsData := none
    written := s.written ++ [q] }

/-- `sendCommand:` with `IMAP_EMPTY_QUEUE`. -/
def emptyQueue (s : Store) : Store :=
  match s.queue.getLast? with
  | some q => writeCurrent q s
  | none => { s with currentQueueObject := none, literal := 0, nsData := none }

def alreadyQueued (command : IMAPCommand) (arguments : String) (s : Store) : Bool :=
  s.queue.any fun q => decide (q.command = command ∧ command ≠ .append ∧ q.arguments = arguments)

def sendCommand (command : IMAPCommand) (arguments : String) (s : Store) : Store :=
  if alreadyQueued command arguments s then s
  else
    let q : QueueObject := ⟨command, arguments, s.tag + 1⟩
    let s := { s with tag := s.tag + 1, queue := q :: s.queue, enqueued := s.enqueued ++ [q] }
    if 1 < s.queue.length then s else writeCurrent q s

/-- What a delegate sends from a notification. -/
abbrev Sends := List (IMAPCommand × String)

def sendAll (sends : Sends) (s : Store) : Store := sends.foldl (fun s c => sendCommand c.1 c.2 s) s

def fetchHeaders (uid : ℕ) : String :=
  "UID FETCH " ++ toString uid ++
    ":* (UID FLAGS RFC822.SIZE BODY.PEEK[HEADER.FIELDS (From To Cc Subject Date Message-ID References In-Reply-To)])"

def authenticate (s : Store) : Store :=
  match s.mechanism with
  | .cramMD5 => sendCommand .authenticateCramMD5 "AUTHENTICATE CRAM-MD5" s
  | .login => sendCommand .authenticateLogin "AUTHENTICATE LOGIN" s
  | .plain => sendCommand .login s.loginArguments s

def prefetch (f : IMAPFolder) (s : Store) : Store :=
  if f.hasCache ∧ f.allMessages ≠ [] then sendCommand .uidSearch "UID SEARCH 1:*" s
  else sendCommand .uidFetchHeaderFields (fetchHeaders 1) s

def restoreQueue (s : Store) : Store :=
  { s with queue := s.queue ++ s.previousQueue, previousQueue := [], reconnecting := false }

def selectName (f : IMAPFolder) (s : Store) : Store :=
  if f.readOnly then sendCommand .examine ("EXAMINE \"" ++ f.name ++ "\"") s
  else sendCommand .select ("SELECT \"" ++ f.name ++ "\"") s

def reselect (f : IMAPFolder) (s : Store) : Store :=
  let s := selectName f s
  if s.openingMailbox then prefetch f s else s

def loggedIn (s : Store) : Store :=
  if s.reconnecting then
    match s.selectedFolder with
    | some f => reselect f s
    | none => restoreQueue s
  else s

/-- The `switch` of `_parseOK` on a tagged reply, with what its cases do to the queue. -/
def okCase (s : Store) : Store :=
  match s.lastCommand with
  | .authenticateCramMD5 | .authenticateLogin | .login => loggedIn s
  | .select => if s.reconnecting then restoreQueue s else s
  | .uidFetchHeaderFields => { s with openingMailbox := false }
  | _ => s

def noCase (s : Store) : Store :=
  match s.lastCommand with
  | .select => { s with openingMailbox := false, selectedFolder := none }
  | _ => s

/-- The end of `_parseOK` and `_parseNO` for a tagged reply: the notifications touch `_currentQueueObject`,
and `removeLastObject` raises on an empty queue. -/
def complete (sends : Sends) (s : Store) : Option Store :=
  match s.currentQueueObject with
  | none => none
  | some _ =>
    let s := sendAll sends s
    if s.queue = [] then some s
    else some { emptyQueue { s with queue := s.queue.dropLast } with responses := [] }

def parseOK (sends : Sends) (s : Store) : Option Store := complete sends (okCase s)

def parseNO (sends : Sends) (s : Store) : Option Store := complete sends (noCase s)

/-- Only `LOGIN` has a case of its own; any other command is removed from the queue and an exception raised. -/
def parseBAD (sends : Sends) (s : Store) : Store :=
  if s.lastCommand = .login then
    let s := sendAll sends s
    if s.queue = [] then s
    else { emptyQueue { s with queue := s.queue.dropLast } with responses := [] }
  else if s.queue = [] then s
  else { s with queue := s.queue.dropLast, responses := [] }

/-- An untagged `OK` is looked at only before the first command. -/
def greeting (s : Store) : Store :=
  if s.lastCommand = .authorization then { sendCommand .capability "CAPABILITY" s with responses := [] } else s

def parseCAPABILITY (s : Store) : Store := if s.reconnecting then authenticate s else s

/-- What `_parseSEARCH_CACHE` sends after it has worked on the folder. -/
def parseSEARCHCACHE (s : Store) : Store :=
  match s.lastCommand with
  | .uidSearch => sendCommand .uidSearchAnswered "UID SEARCH ANSWERED" s
  | .uidSearchAnswered => sendCommand .uidSearchFlagged "UID SEARCH FLAGGED" s
  | .uidSearchFlagged => sendCommand .uidSearchUnseen "UID SEARCH UNSEEN" s
  | .uidSearchUnseen =>
    let uid := ((s.selectedFolder.bind fun f => f.allMessages.getLast?).map IMAPMessage.uid).getD 0
    sendCommand .uidFetchHeaderFields (fetchHeaders ((uid + 1) % 2 ^ 32)) s
  | _ => s

/-- `sscanf` of a `%u`: a number beyond `unsigned long` is read as its maximum. -/
def scanfUnsigned (n : ℕ) : ℕ := if n < 2 ^ 64 then n % 2 ^ 32 else 2 ^ 32 - 1

def newHeaders (uid : ℕ) : String :=
  "UID FETCH " ++ toString uid ++
    ":* (FLAGS RFC822.SIZE BODY.PEEK[HEADER.FIELDS (From To Cc Subject Date Message-ID References In-Reply-To)])"

def parseEXISTS (n : ℕ) (s : Store) : Store :=
  match s.currentQueueObject, s.selectedFolder with
  | some q, some f =>
    if q.command ≠ .select ∧ f.allMessages.length < scanfUnsigned n then
      let uid := (f.allMessages.getLast?.map IMAPMessage.uid).getD 0
      sendCommand .uidFetchHeaderFields (newHeaders ((uid + 1) % 2 ^ 32)) s
    else s
  | _, _ => s

def reconnect (s : Store) : Store :=
  { s with
    previousQueue := s.previousQueue ++ s.queue, reconnecting := true
    queue := [], lastCommand := .authorization, currentQueueObject := none, literal := 0, nsData := none }

end Xperimentum.Pantomime.IMAPStore
