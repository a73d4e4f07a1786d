import Xperimentum.Pantomime.ByteSearch
import Xperimentum.Pantomime.MessageHeaders

/-! `parseContentDisposition:inPart:`, `parseContentType:inPart:` and the parameters of such a line. -/

namespace Xperimentum.Pantomime.ContentHeaders

open EncodedWords MessageHeaders Lib.Int32

/-- What is raised: for a range or a byte that is not in the data, for a message that strings do not understand, and for
text that is not decoded. -/
inductive Raised
  | range
  | selector
  | decoding
  deriving DecidableEq

abbrev Parsing := Except Raised

def inRange {α : Type} (o : Option α) : Parsing α := (o.map .ok).getD (.error .range)

/-- An `id`: data, or a string that may be `nil`. -/
inductive Parameter
  | data (aData : Bytes)
  | string (aString : Option Str)
  deriving DecidableEq

/-- What replaces percent escapes in a string, for the character set of the escaped text. -/
abbrev Unescape := Bytes → Str → Option Str

/-- A negative `int` is not in any data when it is taken for an `NSUInteger`. -/
def subdata (b : Bytes) (location length : ℤ) : Parsing Bytes :=
  inRange (if 0 ≤ location ∧ 0 ≤ length ∧ location + length ≤ b.length then
    some ((b.drop location.toNat).take length.toNat) else none)

def characterAtIndex (b : Bytes) (theIndex : ℕ) : Parsing UInt8 := inRange b[theIndex]?

def cStr (b : Bytes) : Bytes := b.takeWhile (· ≠ 0)

/-- `rangeOfCString:options:range:` from `start` to the length that is kept in an `int`. -/
def rangeFrom (theLine : Bytes) (len : ℤ) (theCString : Bytes) (start : ℕ) : Parsing NSRange :=
  if theLine.length < theCString.length then .ok notFound
  else inRange (searchUpTo (memcmpAt theCString theLine) (min theLine.length (len % 2 ^ 64).toNat) theCString.length start)

def dataFromQuotedData (b : Bytes) : Bytes :=
  if b.length < 2 then b
  else if b.head? = some 34 ∧ b.getLast? = some 34 then (b.drop 1).take (b.length - 2) else b

def dataFromSemicolonTerminatedData (b : Bytes) : Bytes :=
  if b.length < 2 then b else if b.getLast? = some 59 then b.dropLast else b

/-- The value up to the first `;`. -/
def firstValue (theLine : Bytes) (len : ℤ) (maxRange : ℕ) : Parsing Bytes := do
  let r1 ← rangeFrom theLine len [61] maxRange
  let value_start := wrap32 ((r1.location.map fun (i : ℕ) => (i : ℤ) + 1).getD maxRange)
  let r1 ← rangeFrom theLine len [59] maxRange
  let value_end := wrap32 ((r1.location.map fun (i : ℕ) => (i : ℤ) - 1).getD (len - 1))
  let length := wrap32 (value_end - value_start + 1)
  let aData ← subdata theLine value_start (if 0 < length then length else 0)
  pure (dataFromQuotedData (dataByTrimmingWhiteSpaces aData))

/-- The name of a continuation. -/
def numbered (key : Bytes) (parameters_count : ℕ) : Bytes := cStr (key ++ 42 :: ascii (toString parameters_count))

/-- The value of a continuation whose name ends at `maxRange`. -/
def continuedValue (theLine : Bytes) (len : ℤ) (maxRange : ℕ) : Parsing Bytes := do
  let c ← characterAtIndex theLine maxRange
  let value_start := wrap32 maxRange + if c = 42 then 2 else 1
  let r2 ← rangeFrom theLine len [59] maxRange
  let value_end := (r2.location.map fun (j : ℕ) => wrap32 j).getD len
  let aData ← subdata theLine value_start (value_end - value_start)
  pure (dataFromQuotedData (dataFromSemicolonTerminatedData aData))

/-- The loop over the continuations. Each one is behind the one before, so that there are less of them than bytes. -/
def continuations (theLine : Bytes) (len : ℤ) (key : Bytes) : ℕ → ℕ → ℕ → Parsing Bytes
  | 0, _, _ => .error .range
  | n + 1, parameters_count, maxRange => do
    let r1 ← rangeFrom theLine len (numbered key parameters_count) maxRange
    match r1.location with
    | none => pure []
    | some i =>
      let aData ← continuedValue theLine len (i + r1.length)
      let rest ← continuations theLine len key n (parameters_count + 1) (i + r1.length)
      pure (aData ++ rest)

/-- Character set and language are in front of the second quote; where there is no second one, the range that is replaced
ends at `NSNotFound`. -/
def rfc2231Value (unescape : Unescape) (has_charset theBOOL : Bool) (aMutableData : Bytes) : Parsing Parameter :=
  if has_charset then
    match findCString [39] aMutableData with
    | none => pure (if theBOOL then .string (asciiText aMutableData) else .data aMutableData)
    | some (aCharset, behind) => do
      let (_, text) ← inRange (findCString [39] behind)
      pure (if theBOOL then .string ((asciiText text).bind (unescape aCharset)) else .data text)
  else pure (.string (asciiText aMutableData))

def decodedHeader (F : Foundation) (theCharset : Option Bytes) (theData : Bytes) : Parsing (Option Str) :=
  match decodeHeader F theCharset theData with
  | some aString => .ok (some aString)
  | none => if hasCPrefix theData (27 :: ascii "$B") then .ok none else .error .decoding

section Parsers

variable (F : Foundation) (unescape : Unescape)

/-- `_parameterValueUsingLine:range:decode:charset:`. -/
def parameterValueUsingLine (theLine : Bytes) (location length : ℕ) (theBOOL : Bool) (theCharset : Option Bytes) :
    Parsing Parameter := do
  let len := wrap32 theLine.length
  let maxRange := location + length
  let aMutableData ← firstValue theLine len maxRange
  let c ← characterAtIndex theLine maxRange
  if c = 42 then
    let d ← characterAtIndex theLine (maxRange + 1)
    if d = 48 then
      let e ← characterAtIndex theLine (maxRange + 2)
      let rest ← continuations theLine len ((theLine.drop location).take length) (theLine.length + 1) 1 maxRange
      rfc2231Value unescape (e = 42) theBOOL (aMutableData ++ rest)
    else rfc2231Value unescape (d = 61) theBOOL aMutableData
  else if theBOOL then (decodedHeader F theCharset aMutableData).map .string else pure (.data aMutableData)

inductive Disposition
  | inline
  | attachment
  deriving DecidableEq

inductive Format
  | unknown
  | flowed
  deriving DecidableEq

structure Part where
  contentType : Option Str := none
  contentDisposition : Option Disposition := none
  filename : Option Parameter := none
  boundary : Option Parameter := none
  charset : Option Str := none
  format : Format := .unknown
  defaultCharset : Option Bytes := none

def lowercaseString (w : Str) : Str := w.map fun c => if 65 ≤ c ∧ c ≤ 90 then c + 32 else c

/-- `nil` compares like an equal string. -/
def dispositionOf (aString : Option Str) : Disposition :=
  if ∀ w ∈ aString, lowercaseString w = asciiUnits (ascii "inline") then .inline else .attachment

def Parameter.isEmpty : Parameter → Bool
  | .data aData => aData.isEmpty
  | .string aString => (aString.getD []).isEmpty

def Part.setFilename (thePart : Part) (theFilename : Parameter) : Part :=
  { thePart with
    filename := some (if theFilename.isEmpty then .string (some (asciiUnits (ascii "unknown"))) else theFilename) }

/-- Where a keyword is, upper or lower case. -/
def rangeOfKeyword (theLine : NSData) (keyword : CString) (theOptions : ℕ) : Parsing (Option ℕ) :=
  (inRange (rangeOfCString theLine keyword theOptions ⟨some 0, theLine.bytes.length⟩)).map NSRange.location

def filenameKeyword : CString := ⟨ascii "filename", by decide⟩

def boundaryKeyword : CString := ⟨ascii "boundary", by decide⟩

def charsetKeyword : CString := ⟨ascii "charset", by decide⟩

def formatKeyword : CString := ⟨ascii "format", by decide⟩

def nameKeyword : CString := ⟨ascii "name", by decide⟩

def subdataFromIndex (theLine : NSData) (theIndex : ℕ) : NSData where
  bytes := theLine.bytes.drop theIndex
  length_lt := by
    have h := theLine.length_lt
    rw [List.length_drop]
    omega

def parseContentDisposition (theLine : NSData) (thePart : Part) : Parsing Part :=
  if 21 < theLine.bytes.length then
    let aData := subdataFromIndex theLine 21
    match findCString [59] aData.bytes with
    | some (value, _) => do
      let thePart := { thePart with contentDisposition := some (dispositionOf (asciiText value)) }
      match ← rangeOfKeyword aData filenameKeyword 0 with
      | some location =>
        let value ← parameterValueUsingLine F unescape aData.bytes location 8 true thePart.defaultCharset
        pure (thePart.setFilename value)
      | none => pure thePart
    | none =>
      pure { thePart with contentDisposition := some (dispositionOf (asciiText (dataByTrimmingWhiteSpaces aData.bytes))) }
  else pure { thePart with contentDisposition := some .attachment }

def Parameter.asciiString : Parameter → Parsing (Option Str)
  | .data aData => .ok (asciiText aData)
  | .string (some _) => .error .selector
  | .string none => .ok none

def Parameter.isFlowed : Parameter → Parsing Bool
  | .data aData => .ok (aData.map lower = ascii "flowed")
  | .string (some _) => .error .selector
  | .string none => .ok true

/-- A parameter of the line, and what becomes of its value. -/
def withParameter (theLine : NSData) (keyword : CString) (theBOOL : Bool) (theCharset : Option Bytes) (thePart : Part)
    (set : Parameter → Parsing Part) : Parsing Part := do
  match ← rangeOfKeyword theLine keyword caseInsensitiveSearch with
  | some location =>
    let value ← parameterValueUsingLine F unescape theLine.bytes location keyword.bytes.length theBOOL theCharset
    set value
  | none => pure thePart

def typeOf (aData : Bytes) : Option Str :=
  let x := aData.idxOf 59
  let aData := if x < aData.length ∧ 0 < x then aData.take x else aData
  if 47 ∉ aData ∧ hasKeyword "text" aData = true then
    (asciiText aData).map fun w => lowercaseString (w ++ asciiUnits (ascii "/plain"))
  else (asciiText aData).map lowercaseString

def setBoundary (thePart : Part) (value : Parameter) : Parsing Part :=
  pure (if value = .string none then thePart else { thePart with boundary := some value })

def setCharset (thePart : Part) (value : Parameter) : Parsing Part :=
  value.asciiString.map fun aString => { thePart with charset := aString <|> thePart.charset }

def setFormat (thePart : Part) (value : Parameter) : Parsing Part :=
  value.isFlowed.map fun flowed => { thePart with format := if flowed then .flowed else .unknown }

def parseContentType (theLine : NSData) (thePart : Part) : Parsing Part :=
  let plain := { thePart with contentType := some (asciiUnits (ascii "text/plain")) }
  if theLine.bytes.length ≤ 14 then pure plain
  else
    let aData := dataByTrimmingWhiteSpaces (theLine.bytes.drop 13)
    if aData = [] then pure plain
    else do
      let thePart := { thePart with contentType := typeOf aData <|> thePart.contentType }
      let thePart ← withParameter F unescape theLine boundaryKeyword false none thePart (setBoundary thePart)
      let thePart ← withParameter F unescape theLine charsetKeyword false none thePart (setCharset thePart)
      let thePart := { thePart with format := .unknown }
      let thePart ← withParameter F unescape theLine formatKeyword false none thePart (setFormat thePart)
      withParameter F unescape theLine nameKeyword true thePart.defaultCharset thePart fun value =>
        pure (thePart.setFilename value)

end Parsers

end Xperimentum.Pantomime.ContentHeaders
