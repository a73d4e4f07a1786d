import Mathlib.Tactic
import Xperimentum.Lib.Int32
import Xperimentum.Pantomime.Data
import Xperimentum.Pantomime.IMAPStore

/-! `updateRead`: the bytes of the server cut into lines, the octets of a literal, and the response that a
line belongs to. -/

namespace Xperimentum.Pantomime.IMAPReader

open Xperimentum.Lib.Int32 IMAPStore

/-- The loop of `has_literal`, from the last digit on. -/
def literalValue : Bytes → ℤ → ℤ → ℤ
  | [], value, _ => value
  | c :: s, value, d =>
    if isDigit c then literalValue s (wrap32 (value + wrap32 ((c.toNat - 48) * d))) (wrap32 (d * 10)) else value

def hasLiteral (buf : Bytes) : ℤ :=
  if buf.head? ≠ some 42 then 0
  else
    match buf.reverse with
    | 125 :: s => literalValue s 0 1
    | _ => 0

inductive Kind
  | continuation | ok | bye | list | lsub | fetch (theMSN : ℕ) | existing | recent | search | status | expunge
  | capability | unknown | tagged
  deriving DecidableEq, Repr

def untagged (msn : ℕ) (buf : Bytes) (lastCommand : IMAPCommand) : Kind :=
  if hasKeyword "OK" buf ∧ lastCommand = .authorization then .ok
  else if hasKeyword "BYE" buf then .bye
  else if hasKeyword "LIST" buf then .list
  else if hasKeyword "LSUB" buf then .lsub
  else if hasKeyword "FETCH" buf then .fetch msn
  else if hasKeyword "EXISTS" buf then .existing
  else if hasKeyword "RECENT" buf then .recent
  else if hasKeyword "SEARCH" buf then .search
  else if hasKeyword "STATUS" buf then .status
  else if hasKeyword "EXPUNGE" buf then .expunge
  else if hasKeyword "CAPABILITY" buf then .capability
  else .unknown

/-- A `+` is an answer only to a command that waits for one. -/
def awaitsContinuation (s : Store) : Bool :=
  match s.lastCommand with
  | .append | .login => s.currentQueueObject.isSome
  | .authenticateCramMD5 | .authenticateLogin => true
  | _ => false

/-- What a response is, from its first token (a tag, unless it has one byte) and the number behind a `*`. -/
def kindOf (aData : Bytes) (s : Store) : Kind :=
  if (aData.takeWhile (· ≠ 32)).length ≠ 1 then .tagged
  else if aData.head? = some 43 ∧ awaitsContinuation s then .continuation
  else
    let token := (aData.drop 2).takeWhile (· ≠ 32)
    let buf := aData.drop (token.length + 3)
    if token.all isDigit then
      if (buf.takeWhile isAlpha).length = 0 then .unknown
      else untagged (decimal token % 2 ^ 32) buf s.lastCommand
    else untagged 0 (aData.drop 2) s.lastCommand

/-- How the body of the loop ends: the loop goes on, it is left by `break` or an exception, or an exception
says that an index is out of the range of `allMessages`. -/
inductive Outcome (S : Type)
  | continues (s : S)
  | leaves (s : S)
  | outOfRange (s : S)

namespace Outcome

def state {S : Type} : Outcome S → S
  | continues s | leaves s | outOfRange s => s

def map {S T : Type} (f : S → T) : Outcome S → Outcome T
  | continues s => continues (f s)
  | leaves s => leaves (f s)
  | outOfRange s => outOfRange (f s)

def andThen {S : Type} (o : Outcome S) (f : S → Outcome S) : Outcome S :=
  match o with
  | continues s => f s
  | o => o

end Outcome

/-- A response as it is handed to its `_parse` method. It is complete when no literal is outstanding. -/
structure Handled where
  aData : Bytes
  responses : List Bytes
  nsData : Option Bytes
  complete : Bool
  deriving DecidableEq, Repr

/-- `awaiting` is the inner loop of `updateRead`, which waits for the rest of a response. `handled` records
what was handed to the `_parse` methods. -/
structure Reader where
  store : Store
  rbuf : Bytes := []
  awaiting : Bool := false
  handled : List Handled := []

def addResponse (aData : Bytes) (s : Store) : Store := { s with responses := s.responses ++ [aData] }

def appendData (aData : Bytes) (s : Store) : Store := { s with nsData := s.nsData.map (· ++ aData) }

def readsLiteral (s : Store) : Bool := s.currentQueueObject.isSome && decide (s.literal ≠ 0)

def removeLastResponse (s : Store) : Outcome Store :=
  if s.responses = [] then .leaves s else .continues { s with responses := s.responses.dropLast }

section Handlers

-- The `_parse` methods, on the store with its responses.
variable (handle : Kind → Store → Outcome Store)

def dispatch (aData : Bytes) (s : Store) : Outcome Store :=
  match kindOf aData s with
  | .fetch theMSN => if readsLiteral s then .continues s else handle (.fetch theMSN) s
  | .existing => (handle .existing s).andThen removeLastResponse
  | .recent => (handle .recent s).andThen removeLastResponse
  | kind => handle kind s

def handleResponse (aData : Bytes) (s : Reader) : Outcome Reader :=
  let entry : Handled := ⟨aData, s.store.responses, s.store.nsData, !readsLiteral s.store⟩
  (dispatch handle aData s.store).map fun store => { s with store := store, handled := s.handled ++ [entry] }

/-- The literal and the line behind it are complete: the response that the literal belongs to is looked at
again. -/
def finishLiteral (s : Reader) : Outcome Reader :=
  match s.store.responses with
  | aData :: _ => handleResponse handle aData s
  | [] => .leaves s

/-- The line that holds the end of a literal. -/
def cutLine (x : ℕ) (aData : Bytes) (s : Store) : Store :=
  { addResponse (aData.drop x) (appendData (aData.take x) s) with literal := 0 }

/-- A line while a literal is read. `literal` is an `int`, and the index of a cut an `NSUInteger`. -/
def receiveLiteral (aData : Bytes) (s : Reader) : Outcome Reader :=
  let literal := wrap32 (s.store.literal - (aData.length + 2))
  let store := { s.store with literal := literal }
  if literal < 0 then
    let x := ((-2 - literal) % 2 ^ 64).toNat
    if aData.length < x then .leaves { s with store := store }
    else finishLiteral handle { s with store := cutLine x aData store }
  else if literal = 0 then .continues { s with store := appendData aData store, awaiting := true }
  else .continues { s with store := appendData (aData ++ crlf) store }

/-- A literal belongs to the command in flight. -/
def announce (aData : Bytes) (s : Store) : Store :=
  if s.currentQueueObject.isNone then s
  else if hasLiteral aData = 0 then { s with literal := 0 }
  else { s with literal := hasLiteral aData, nsData := some [] }

/-- The body of the loop of `updateRead`. -/
def receiveLine (aData : Bytes) (s : Reader) : Outcome Reader :=
  if s.awaiting then finishLiteral handle { s with awaiting := false, store := addResponse aData s.store }
  else if readsLiteral s.store then receiveLiteral handle aData s
  else handleResponse handle aData { s with store := announce aData (addResponse aData s.store) }

/-- The loop of `updateRead`, with as much fuel as there are bytes. -/
def readLines : ℕ → Reader → Reader
  | 0, s => s
  | n + 1, s =>
    match splitLines s.rbuf with
    | none => s
    | some (aData, rest) =>
      match receiveLine handle aData { s with rbuf := rest } with
      | .continues s => readLines n s
      | .leaves s | .outOfRange s => s

def updateRead (s : Reader) (bytes : Bytes) : Reader :=
  let rbuf := s.rbuf ++ bytes
  readLines handle rbuf.length { s with rbuf := rbuf }

end Handlers

end Xperimentum.Pantomime.IMAPReader
