import Mathlib.Tactic
import Xperimentum.Lib.Int32
import Xperimentum.Lib.Partial
import Xperimentum.Pantomime.SMTPData

/-! `CWSMTP`: its queue of commands, the handlers of the server's replies, and the transaction they drive. -/

namespace Xperimentum.Pantomime.SMTP

open Xperimentum.Lib.Int32 SMTPData

inductive SMTPCommand
  | authCramMD5 | authLogin | authLoginChallenge | authPlain | data | ehlo | helo | mail | noop | quit | rcpt
  | rset | startTLS | authorization
  deriving DecidableEq, Repr

structure QueueObject where
  command : SMTPCommand
  arguments : String
  deriving DecidableEq, Repr

/-- Addresses are compared as objects, which is what `identity` stands for. -/
structure InternetAddress where
  identity : ℕ
  type : ℕ
  address : Option String
  deriving DecidableEq, Repr

structure Message where
  recipients : List InternetAddress
  fromAddress : Option InternetAddress
  resentFrom : Option InternetAddress
  dataValue : Option Bytes
  deriving DecidableEq, Repr

/-- What goes over the connection: a command, the rest of one after an intermediate reply, a reply. -/
inductive Entry
  | wrote (q : QueueObject)
  | continued (command : SMTPCommand) (aData : Bytes)
  | reply (responses : List Bytes)
  deriving DecidableEq, Repr

/-- `queue` has the newest command first. -/
structure Service where
  queue : List QueueObject := [⟨.authorization, ""⟩]
  lastCommand : SMTPCommand := .authorization
  responses : List Bytes := []
  message : Option Message := none
  data : Option Bytes := none
  recipients : Option (List InternetAddress) := none
  sentRecipients : List InternetAddress := []
  redirected : Bool := false
  maxSize : ℤ := 0
  log : List Entry := []
  deriving DecidableEq, Repr

/-- The credentials as they are written, the machine's C string encoding, the message parser and what the delegate
responds to. -/
structure Client where
  username : String := ""
  password : String := ""
  plainPhrase : Bytes := []
  cramMD5 : Bytes → Bytes := id
  decodes : Bytes → Bool := fun _ => true
  messageFromData : Bytes → Message := fun b => ⟨[], none, none, some b⟩
  respondsToInitiationFailed : Bool := false
  respondsToIdentificationFailed : Bool := false

def write (q : QueueObject) (s : Service) : Service :=
  { s with lastCommand := q.command, log := s.log ++ [.wrote q] }

def sendCommand (command : SMTPCommand) (arguments : String) (s : Service) : Service :=
  let q : QueueObject := ⟨command, arguments⟩
  let s := { s with queue := q :: s.queue }
  if 1 < s.queue.length then s else write q s

/-- `sendCommand:` with `SMTP_EMPTY_QUEUE`. -/
def emptyQueue (s : Service) : Service :=
  match s.queue.getLast? with
  | some q => write q s
  | none => s

/-- `%@` of an object or of `nil`. -/
def described (aString : Option String) : String := aString.getD "(null)"

def isRecipient (redirected : Bool) (theAddress : InternetAddress) : Bool :=
  if redirected then 3 < theAddress.type else theAddress.type < 4

def nextRecipient (theRecipients : List InternetAddress) (redirected : Bool) : Option InternetAddress :=
  theRecipients.find? (isRecipient redirected)

def mailArguments (maxSize : ℤ) (data : Option Bytes) (address : Option String) : String :=
  if maxSize ≠ 0 then
    "MAIL FROM:<" ++ described address ++ "> SIZE=" ++ toString (wrap32 (data.getD []).length)
  else "MAIL FROM:<" ++ described address ++ ">"

def rcptArguments (theAddress : Option InternetAddress) : String :=
  "RCPT TO:<" ++ described (theAddress.bind InternetAddress.address) ++ ">"

/-- The recipients given by the user, or else those of the message. -/
def withRecipients (client : Client) (s : Service) : Service :=
  match s.recipients, s.message, s.data with
  | none, some m, none => { s with recipients := some m.recipients, data := m.dataValue }
  | none, some m, some _ => { s with recipients := some m.recipients }
  | none, none, some d =>
    { s with message := some (client.messageFromData d), recipients := some (client.messageFromData d).recipients }
  | _, _, _ => s

def sendMessage (client : Client) (s : Service) : Service :=
  if s.message = none ∧ s.data = none then s
  else
    let s := withRecipients client s
    let s := { s with sentRecipients := s.recipients.getD [] }
    match s.message.bind Message.resentFrom with
    | some resentFrom =>
      sendCommand .mail (mailArguments s.maxSize s.data resentFrom.address) { s with redirected := true }
    | none =>
      let fromAddress := s.message.bind Message.fromAddress
      sendCommand .mail (mailArguments s.maxSize s.data (fromAddress.bind InternetAddress.address))
        { s with redirected := false }

/-- What the user of the class, or a delegate told of an event, calls. -/
inductive Call
  | sendCommand (command : SMTPCommand) (arguments : String)
  | setMessage (theMessage : Option Message)
  | setMessageData (theData : Option Bytes)
  | setRecipients (theRecipients : Option (List InternetAddress))
  | sendMessage
  deriving DecidableEq, Repr

def call (client : Client) (s : Service) : Call → Service
  | .sendCommand command arguments => sendCommand command arguments s
  | .setMessage theMessage => { s with data := none, message := theMessage }
  | .setMessageData theData => { s with message := none, data := theData }
  | .setRecipients theRecipients => { s with recipients := theRecipients }
  | .sendMessage => sendMessage client s

/-- What a handler does with a reply, in order: writing, sending a command, telling the delegate. -/
inductive Action
  | write (aData : Bytes)
  | send (command : SMTPCommand) (arguments : String)
  | tell
  deriving DecidableEq, Repr

def perform (client : Client) (calls : List Call) (s : Service) : Action → Service
  | .write aData => { s with log := s.log ++ [.continued s.lastCommand aData] }
  | .send command arguments => sendCommand command arguments s
  | .tell => calls.foldl (call client) s

/-- `none` is an exception. -/
abbrev Handled := Option (Service × List Action)

section Handlers

variable (client : Client) (s : Service)

def lastResponse : Bytes := s.responses.getLast?.getD []

def starts (code : String) (aData : Bytes) : Bool := hasCPrefix aData (ascii code)

def fail : Handled := some (s, [.tell])

/-- The message is put in a dictionary, which `nil` cannot be. -/
def withMessage (h : Handled) : Handled := if s.message = none then none else h

def parseAUTHCRAMMD5 : Handled :=
  if starts "334" (lastResponse s) then
    some (s, [.write (client.cramMD5 ((lastResponse s).drop 4) ++ crlf)])
  else some (s, [.tell])

def parseAUTHLOGIN : Handled :=
  if starts "334" (lastResponse s) then some (s, [.send .authLoginChallenge client.username])
  else some (s, [.tell])

def parseAUTHLOGINCHALLENGE : Handled :=
  if starts "334" (lastResponse s) then some (s, [.send .authLoginChallenge client.password])
  else some (s, [.tell])

def parseAUTHPLAIN : Handled :=
  if starts "334" (lastResponse s) then some (s, [.write (client.plainPhrase ++ crlf)])
  else some (s, [.tell])

def parseAUTHORIZATION : Handled :=
  if starts "220" (lastResponse s) then some (s, [.send .ehlo "EHLO localhost.localdomain"]) else some (s, [])

def parseDATA : Handled :=
  if starts "354" (lastResponse s) then
    (dataToSend (s.data.getD [])).map fun aData => (s, [.write (aData ++ ascii "\r\n.\r\n")])
  else if starts "250" (lastResponse s) then withMessage s (some (s, [.tell]))
  else fail s

/-- The number of the `SIZE` extension, when there is one. -/
def sizeExtension (aData : Bytes) : Option ℤ := (findCString (ascii " ") aData).map fun found => atoi found.2

/-- The extensions, and whether a line was not a `250` one; a string that cannot be decoded is `nil`, which an
array does not take. -/
def parseExtensions : List Bytes → Service → Option (Service × Bool)
  | [], s => some (s, false)
  | aData :: rest, s =>
    if starts "250" aData then
      let aData := aData.drop 4
      if client.decodes aData = false then none
      else if starts "AUTH" aData then
        if (aData.drop 5).all (· < 128) then parseExtensions rest s else none
      else if starts "SIZE" aData then
        parseExtensions rest { s with maxSize := (sizeExtension aData).getD s.maxSize }
      else parseExtensions rest s
    else some (s, true)

def parseEHLO : Handled :=
  (parseExtensions client s.responses s).map fun parsed =>
    if parsed.2 then (parsed.1, [.send .helo "HELO localhost.localdomain", .tell]) else (parsed.1, [.tell])

def parseHELO : Handled := some (s, [])

def initiationFailed : Handled :=
  if client.respondsToInitiationFailed then withMessage s (some (s, [.tell])) else fail s

def parseMAIL : Handled :=
  if starts "250" (lastResponse s) then
    withMessage s (some (s, [.tell, .send .rcpt (rcptArguments (nextRecipient s.sentRecipients s.redirected))]))
  else initiationFailed client s

def parseNOOP : Handled := some (s, [])

def parseQUIT : Handled := some (s, [.tell])

def recipientsCompleted : Handled :=
  if s.recipients = none then none else some (s, [.tell, .send .data "DATA"])

def parseRCPT : Handled :=
  if starts "250" (lastResponse s) then
    match nextRecipient s.sentRecipients s.redirected with
    | none => recipientsCompleted s
    | some theAddress =>
      let s := { s with sentRecipients := s.sentRecipients.filter (· ≠ theAddress) }
      match nextRecipient s.sentRecipients s.redirected with
      | some theAddress => some (s, [.send .rcpt (rcptArguments (some theAddress))])
      | none => recipientsCompleted s
  else if client.respondsToIdentificationFailed then
    if s.recipients = none then none else some (s, [.tell])
  else fail s

def parseRSET : Handled := some (s, [.tell])

def parseSTARTTLS : Handled :=
  if starts "220" (lastResponse s) then some (s, [.send .ehlo "EHLO localhost.localdomain"])
  else initiationFailed client s

def parseReply : Handled :=
  match s.lastCommand with
  | .authCramMD5 => parseAUTHCRAMMD5 client s
  | .authLogin => parseAUTHLOGIN client s
  | .authLoginChallenge => parseAUTHLOGINCHALLENGE client s
  | .authPlain => parseAUTHPLAIN client s
  | .data => parseDATA s
  | .ehlo => parseEHLO client s
  | .helo => parseHELO s
  | .mail => parseMAIL client s
  | .noop => parseNOOP s
  | .quit => parseQUIT s
  | .rcpt => parseRCPT client s
  | .rset => parseRSET s
  | .startTLS => parseSTARTTLS client s
  | .authorization => parseAUTHORIZATION s

/-- The connection is given up on a `421` in the first line. -/
def lost : Bool := starts "421" (s.responses.head?.getD [])

def react : Handled := if lost s then some (s, [.tell]) else parseReply client s

end Handlers

def answered (s : Service) : Service := { s with log := s.log ++ [.reply s.responses] }

def parseServerOutput (client : Client) (calls : List Call) (s : Service) : Option Service :=
  (react client (answered s)).map fun reaction =>
    let t := reaction.2.foldl (perform client calls) reaction.1
    emptyQueue { t with responses := [], queue := t.queue.dropLast }

/-- The last line of a reply: a code alone, or one that no hyphen follows. -/
def isLastLine (aData : Bytes) : Bool := aData.length = 3 || 3 < aData.length && aData[3]? ≠ some 45

inductive Event
  | call (c : Call)
  | line (aData : Bytes) (calls : List Call)
  deriving DecidableEq, Repr

def received (aData : Bytes) (s : Service) : Service := { s with responses := s.responses ++ [aData] }

def step (client : Client) (s : Service) : Event → Option Service
  | .call c => some (SMTP.call client s c)
  | .line aData calls =>
    if isLastLine aData then parseServerOutput client calls (received aData s) else some (received aData s)

end Xperimentum.Pantomime.SMTP
