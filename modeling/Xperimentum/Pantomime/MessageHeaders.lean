import Xperimentum.Pantomime.HeaderLines

/-! `CWMessage`: the header that is written, and the subject, the ids and the organization read back from it. -/

namespace Xperimentum.Pantomime.MessageHeaders

open EncodedWords

/-- The conversion to ASCII that puts something else for a character that is not ASCII. -/
structure LossyASCII where
  convert : Str → Bytes
  ascii_kept : ∀ w : Str, w.all (· < 128) = true → convert w = w.map UInt16.toUInt8
  is_ascii : ∀ w, ∀ c ∈ convert w, c < 128
  on_line : ∀ w, 10 ∉ w → 10 ∉ convert w

structure Values where
  subject : Option Str := none
  messageID : Option Str := none
  organization : Option Str := none
  inReplyTo : Option Str := none
deriving DecidableEq

/-- The other headers of a message are the texts that are written for them. -/
structure Message extends Values where
  date : Bytes
  theFrom : Bytes
  theTo : Option Bytes
  theCc : Option Bytes
  theBcc : Option Bytes
  replyTo : Option Bytes
  headers : List (Bytes × Bytes)
  part : List Bytes
  content : Bytes

def isBlank (w : Str) : Bool := w.all fun c => c = 32 || 9 ≤ c && c ≤ 13

section Writing

variable (F : Foundation) (L : LossyASCII) (globallyUniqueID : Str)

def subjectField (v : Values) : List Bytes :=
  match v.subject with
  | some w => if isBlank w then [] else [ascii "Subject: " ++ encodeWord F w 8]
  | none => []

def messageIDField (v : Values) : Bytes :=
  ascii "Message-ID: <" ++ L.convert (v.messageID.getD globallyUniqueID) ++ ascii ">"

def organizationField (v : Values) : List Bytes :=
  match v.organization with
  | some w => [ascii "Organization: " ++ encodeWord F w 13]
  | none => []

def inReplyToField (v : Values) : List Bytes :=
  match v.inReplyTo with
  | some w => [ascii "In-Reply-To: " ++ L.convert w]
  | none => []

def fourLines (v : Values) : List Bytes :=
  subjectField F v ++ [messageIDField L globallyUniqueID v] ++ organizationField F v ++ inReplyToField L v

def isExtraHeader (aKey : Bytes) : Bool :=
  hasCPrefix aKey (ascii "X-") || aKey.map lower = (ascii "User-Agent").map lower

def optionalField (name : String) (text : Option Bytes) : List Bytes := (text.map (ascii name ++ ·)).toList

def recipientFields (m : Message) : List Bytes :=
  [ascii "From: " ++ m.theFrom] ++ optionalField "To: " m.theTo ++ optionalField "Cc: " m.theCc ++
    optionalField "Bcc: " m.theBcc ++ optionalField "Reply-To: " m.replyTo

def extraFields (m : Message) : List Bytes :=
  (m.headers.filter fun h => isExtraHeader h.1).map fun h => h.1 ++ ascii ": " ++ h.2

/-- The names of the part's own headers all begin with `Content-`; its fields are what follows. -/
def partFields (m : Message) : List Bytes := m.part.map (ascii "Content-" ++ ·)

def earlierFields (m : Message) : List Bytes := (ascii "Date: " ++ m.date) :: subjectField F m.toValues

def laterFields (m : Message) : List Bytes :=
  [ascii "MIME-Version: 1.0 (Generated by Pantomime 1.3.0)"] ++ recipientFields m ++
    organizationField F m.toValues ++ inReplyToField L m.toValues ++ extraFields m ++ partFields m

def dataValue (m : Message) : Bytes :=
  ((earlierFields F m ++ [messageIDField L globallyUniqueID m.toValues] ++ laterFields F L m).flatMap (· ++ [10])) ++
    10 :: m.content

end Writing

section Reading

variable (F : Foundation)

def asciiText (aData : Bytes) : Option Str := if aData.all (· < 128) then some (asciiUnits aData) else none

def isBlankByte (c : UInt8) : Bool := c = 32 || c = 9

def dataByTrimmingWhiteSpaces (b : Bytes) : Bytes :=
  ((b.dropWhile isBlankByte).reverse.dropWhile isBlankByte).reverse

/-- A text that the converter gives no string for is not set; text that is not decoded raises an exception. -/
def parseSubject (theLine : Bytes) (v : Values) : Option Values :=
  if theLine.length ≤ 9 then some v
  else
    let aData := dataByTrimmingWhiteSpaces (theLine.drop 8)
    match decodeHeader F none aData with
    | some w => some { v with subject := some w }
    | none => if hasCPrefix aData (27 :: ascii "$B") then some v else none

def parseOrganization (theLine : Bytes) (v : Values) : Option Values :=
  if theLine.length ≤ 14 then some { v with organization := some [] }
  else (decodeHeader F none (dataByTrimmingWhiteSpaces (theLine.drop 13))).map fun w =>
    { v with organization := some w }

def parseMessageID (theLine : Bytes) (v : Values) : Values :=
  if theLine.length ≤ 12 then v
  else
    match asciiText (dataByTrimmingWhiteSpaces (theLine.drop 12)) with
    | some w => { v with messageID := some w }
    | none => v

def parseInReplyTo (theLine : Bytes) (v : Values) : Values :=
  if theLine.length ≤ 13 then v
  else
    let aData := theLine.drop 13
    let x := aData.idxOf 59
    let y := aData.idxOf 32
    let aData := if x < aData.length ∧ 0 < x ∧ x < y then aData.take x
      else if y < aData.length ∧ 0 < y then aData.take y else aData
    match asciiText aData with
    | some w => { v with inReplyTo := some w }
    | none => v

/-- The headers that set none of the four values are passed over. -/
def parseHeader (v : Values) (aLine : Bytes) : Option Values :=
  if hasKeyword "In-Reply-To" aLine then some (parseInReplyTo aLine v)
  else if hasKeyword "Message-ID" aLine then some (parseMessageID aLine v)
  else if hasKeyword "Organization" aLine then parseOrganization F aLine v
  else if hasKeyword "Subject" aLine then parseSubject F aLine v
  else some v

def setHeadersFromData (theHeaders : Bytes) : Option Values :=
  if theHeaders = [] then some {}
  else (unfoldLines theHeaders).bind fun b => ((b.splitOn 10).takeWhile (· ≠ [])).foldlM (parseHeader F) {}

def initWithData (theData : Bytes) : Option Values :=
  (findCString [10, 10] theData).bind fun found =>
    if theData.length = 2 then some {} else setHeadersFromData F found.1

end Reading

end Xperimentum.Pantomime.MessageHeaders
