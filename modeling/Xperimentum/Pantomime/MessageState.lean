import Mathlib.Data.Finset.Basic
import Mathlib.Data.Fintype.Basic
import Xperimentum.Pantomime.DateHeader
import Xperimentum.Pantomime.InternetAddress
import Xperimentum.Pantomime.MessageHeaders

/-! `addHeadersFromData:`: the headers of a message, each one read by a method of its own. There is no result where an
exception is raised or bytes are read that are not there. -/

namespace Xperimentum.Pantomime.MessageState

open DateHeader EncodedWords InternetAddress Lib.Int32

open MessageHeaders (asciiText dataByTrimmingWhiteSpaces)

inductive RecipientType
  | to
  | cc
  | bcc
  | resentTo
  | resentCc
  | resentBcc
  deriving DecidableEq

/-- The flags of the `mbox` format. -/
inductive Flag
  | seen
  | deleted
  | answered
  | flagged
  deriving DecidableEq

instance : Fintype Flag := ⟨{.seen, .deleted, .answered, .flagged}, fun flag => by cases flag <;> decide⟩

structure Message where
  recipients : List (RecipientType × Address) := []
  receivedDate : Option Date := none
  theFrom : Option Address := none
  inReplyTo : Option Str := none
  messageID : Option Str := none
  mimeVersion : Option Str := none
  organization : Option Str := none
  references : Option (List Str) := none
  replyTo : Option (List Address) := none
  resentFrom : Option Address := none
  subject : Option Str := none
  flags : Finset Flag := ∅
  headers : Str → Option Str := fun _ => none

section Setters

variable (theMessage : Message)

def setFrom (theInternetAddress : Option Address) : Message :=
  { theMessage with theFrom := theInternetAddress <|> theMessage.theFrom }

def setInReplyTo (theInReplyTo : Option Str) : Message :=
  { theMessage with inReplyTo := theInReplyTo <|> theMessage.inReplyTo }

def setMessageID (theMessageID : Option Str) : Message :=
  { theMessage with messageID := theMessageID <|> theMessage.messageID }

def setMIMEVersion (theMIMEVersion : Option Str) : Message :=
  { theMessage with mimeVersion := theMIMEVersion <|> theMessage.mimeVersion }

def setReferences (theReferences : Option (List Str)) : Message :=
  { theMessage with references := theReferences <|> theMessage.references }

def setReplyTo (theAddressList : List Address) : Message :=
  if theAddressList = [] then theMessage else { theMessage with replyTo := some theAddressList }

def setResentFrom (theInternetAddress : Option Address) : Message :=
  { theMessage with resentFrom := theInternetAddress <|> theMessage.resentFrom }

def setSubject (theSubject : Option Str) : Message := { theMessage with subject := theSubject <|> theMessage.subject }

def setOrganization (theOrganization : Str) : Message := { theMessage with organization := some theOrganization }

def setReceivedDate (theDate : Option Date) : Message :=
  { theMessage with receivedDate := theDate <|> theMessage.receivedDate }

def addRecipients (theType : RecipientType) (l : List Address) : Message :=
  { theMessage with recipients := theMessage.recipients ++ l.map (Prod.mk theType) }

def addHeader (theName theValue : Option Str) : Message :=
  match theName, theValue with
  | some name, some value =>
    let aString := ((theMessage.headers name).map (· ++ 32 :: value)).getD value
    { theMessage with headers := Function.update theMessage.headers name (some aString) }
  | _, _ => theMessage

def addFlags (flags : Finset Flag) : Message := { theMessage with flags := theMessage.flags ∪ flags }

end Setters

def Flag.letter : Flag → UInt8
  | .seen => 82
  | .deleted => 68
  | .answered => 65
  | .flagged => 70

def flagsFromData (theData : Bytes) : Finset Flag := Finset.univ.filter fun flag => flag.letter ∈ theData

/-- A comma outside of quotes is behind an address, and so is the last byte. What an open quote is in has no address. -/
def addressPieces : Bool → Bytes → Bytes → List Bytes
  | _, _, [] => []
  | b, piece, c :: bytes =>
    let b := if c = 34 then !b else b
    if (c = 44 ∨ bytes = []) ∧ b = false then (if bytes = [] then piece ++ [c] else piece) :: addressPieces b [] bytes
    else addressPieces b (piece ++ [c]) bytes

/-- What the methods take from elsewhere: the converters, white space of strings, the character set of the message, and
what is in variables before they are set. -/
structure Reader where
  F : Foundation
  isWhite : UInt16 → Bool
  defaultCharset : Option Bytes
  garbage : Garbage

section Parsers

variable (R : Reader)

/-- The string is `nil` where the converter of ISO-2022-JP gives none; for other text an exception is raised. -/
def decoded (aData : Bytes) : Option (Option Str) :=
  match decodeHeader R.F R.defaultCharset aData with
  | some w => some (some w)
  | none => if hasCPrefix aData (27 :: ascii "$B") then some none else none

def readAddress (aData : Bytes) : Option (Option Address) :=
  (decoded R aData).map fun w => w.bind (initWithString R.isWhite)

def readAddresses (aData : Bytes) : Option (List Address) :=
  ((addressPieces false [] aData).mapM fun headerData => readAddress R (dataByTrimmingWhiteSpaces headerData)).map
    List.reduceOption

/-- What is read behind an offset, or else nothing. -/
def parsing {α : Type} (offset : ℕ) (nothing : α) (read : Bytes → Option α) (set : α → Message) (theLine : Bytes) :
    Option Message :=
  (if offset < theLine.length then read (theLine.drop offset) else some nothing).map set

def offsetOfType : RecipientType → ℕ
  | .bcc => 5
  | .cc => 4
  | .to => 4
  | .resentBcc => 12
  | .resentCc => 11
  | .resentTo => 11

def parseDestination (theLine : Bytes) (theType : RecipientType) (theMessage : Message) : Option Message :=
  parsing (offsetOfType theType) [] (readAddresses R) (addRecipients theMessage theType) theLine

def parseDate (theLine : Bytes) (theMessage : Message) : Option Message :=
  (DateHeader.parseDate R.garbage theLine).map (setReceivedDate theMessage)

def parseFrom (theLine : Bytes) (theMessage : Message) : Option Message :=
  parsing 6 none (readAddress R) (setFrom theMessage) theLine

/-- Up to a `;` or a space, unless it is the first byte. -/
def firstReply (aData : Bytes) : Bytes :=
  let x := aData.idxOf 59
  let y := aData.idxOf 32
  if x < aData.length ∧ 0 < x ∧ x < y then aData.take x else if y < aData.length ∧ 0 < y then aData.take y else aData

def parseInReplyTo (theLine : Bytes) (theMessage : Message) : Option Message :=
  parsing 13 none (fun aData => some (asciiText (firstReply aData))) (setInReplyTo theMessage) theLine

def parseMessageID (theLine : Bytes) (theMessage : Message) : Option Message :=
  parsing 12 none (fun aData => some (asciiText (dataByTrimmingWhiteSpaces aData))) (setMessageID theMessage) theLine

def parseMIMEVersion (theLine : Bytes) (theMessage : Message) : Option Message :=
  parsing 14 none (fun aData => some (asciiText aData)) (setMIMEVersion theMessage) theLine

def parseReferences (theLine : Bytes) (theMessage : Message) : Option Message :=
  parsing 12 none (fun aData => some (some ((aData.splitOn 32).filterMap asciiText))) (setReferences theMessage) theLine

/-- The length is an `int`. -/
def parseReplyTo (theLine : Bytes) (theMessage : Message) : Option Message :=
  parsing 10 [] (fun aData => readAddresses R (aData.take (wrap32 aData.length).toNat)) (setReplyTo theMessage) theLine

/-- A message from nobody raises an exception. -/
def parseResentFrom (theLine : Bytes) (theMessage : Message) : Option Message :=
  parsing 13 none (fun aData => (readAddress R aData).bind fun anInternetAddress => anInternetAddress.map some)
    (setResentFrom theMessage) theLine

/-- A status is its flags and the header of its own. -/
def setStatus (aKey : String) (theMessage : Message) (status : Finset Flag × Option Str) : Message :=
  addHeader (addFlags theMessage status.1) (some (asciiUnits (ascii aKey))) status.2

def readStatus (aData : Bytes) : Option (Finset Flag × Option Str) := some (flagsFromData aData, asciiText aData)

def parseStatus (theLine : Bytes) (theMessage : Message) : Option Message :=
  parsing 8 (∅, none) readStatus (setStatus "Status" theMessage) theLine

def parseXStatus (theLine : Bytes) (theMessage : Message) : Option Message :=
  parsing 10 (∅, none) readStatus (setStatus "X-Status" theMessage) theLine

def parseSubject (theLine : Bytes) (theMessage : Message) : Option Message :=
  (if 9 < theLine.length then decoded R (dataByTrimmingWhiteSpaces (theLine.drop 8)) else some none).map
    (setSubject theMessage)

/-- A name that is `nil` raises an exception. -/
def parseOrganization (theLine : Bytes) (theMessage : Message) : Option Message :=
  (if 14 < theLine.length then (decoded R (dataByTrimmingWhiteSpaces (theLine.drop 13))).bind id else some []).map
    (setOrganization theMessage)

/-- A header without a value is not kept. -/
def parseUnknownHeader (theLine : Bytes) (theMessage : Message) : Option Message :=
  match findCString [58] theLine with
  | some (aName, aValue) =>
    if 0 < aValue.length then some (addHeader theMessage (asciiText aName) (asciiText (aValue.drop 1))) else some theMessage
  | none => some theMessage

/-- The headers of a part, which are read by the part. -/
def partHeaders : List String :=
  ["Content-Description", "Content-Disposition", "Content-ID", "Content-Length", "Content-Transfer-Encoding", "Content-Type"]

def parseHeader (aLine : Bytes) (theMessage : Message) : Option Message :=
  if hasKeyword "Bcc" aLine then parseDestination R aLine .bcc theMessage
  else if hasKeyword "Cc" aLine then parseDestination R aLine .cc theMessage
  else if hasKeyword "Date" aLine then parseDate R aLine theMessage
  else if hasKeyword "From" aLine && !hasKeyword "From " aLine then parseFrom R aLine theMessage
  else if hasKeyword "In-Reply-To" aLine then parseInReplyTo aLine theMessage
  else if hasKeyword "Message-ID" aLine then parseMessageID aLine theMessage
  else if hasKeyword "MIME-Version" aLine then parseMIMEVersion aLine theMessage
  else if hasKeyword "Organization" aLine then parseOrganization R aLine theMessage
  else if hasKeyword "References" aLine then parseReferences aLine theMessage
  else if hasKeyword "Reply-To" aLine then parseReplyTo R aLine theMessage
  else if hasKeyword "Resent-From" aLine then parseResentFrom R aLine theMessage
  else if hasKeyword "Resent-Bcc" aLine then parseDestination R aLine .resentBcc theMessage
  else if hasKeyword "Resent-Cc" aLine then parseDestination R aLine .resentCc theMessage
  else if hasKeyword "Resent-To" aLine then parseDestination R aLine .resentTo theMessage
  else if hasKeyword "Status" aLine then parseStatus aLine theMessage
  else if hasKeyword "To" aLine then parseDestination R aLine .to theMessage
  else if hasKeyword "X-Status" aLine then parseXStatus aLine theMessage
  else if hasKeyword "Subject" aLine then parseSubject R aLine theMessage
  else if partHeaders.any (hasKeyword · aLine) then some theMessage
  else parseUnknownHeader aLine theMessage

end Parsers

end Xperimentum.Pantomime.MessageState
