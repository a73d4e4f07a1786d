import Xperimentum.Pantomime.QuotedPrintable

/-! `CWMIMEUtility`: header text as encoded words and back. A string is its UTF-16 code units. -/

namespace Xperimentum.Pantomime.EncodedWords

abbrev Str := List UInt16

/-- What the methods take from the base library and the converters: the two character sets of the scanner, the
character set chosen for a string, and the conversions. -/
structure Foundation where
  whitespace : UInt16 → Bool
  skipped : UInt16 → Bool
  charset : Str → Bytes
  encode : Bytes → Str → Option Bytes
  decode : Bytes → Bytes → Option Str
  iso2022jp : Bytes → Option Str
  cString : Bytes → Str

def asciiUnits (b : Bytes) : Str := b.map UInt8.toUInt16

/-- Text of the default C string encoding. -/
def Foundation.literal (F : Foundation) (b : Bytes) : Str := if b.all (· < 128) then asciiUnits b else F.cString b

def is7bitSafe (w : Str) : Bool := w.all (· ≤ 126)

def encodeHeader (F : Foundation) (charset : Bytes) (text : Str) : Bytes :=
  if text = [] then [] else ((F.encode charset text).map (encodeQuotedPrintable 0 true 0)).getD []

/-- The words that the scanner finds, each with what stands in front of it; what is behind the last one is dropped. -/
def words (F : Foundation) : Bool → Str → Str → List Str
  | inWord, aString, [] => if inWord then [aString] else []
  | inWord, aString, c :: w =>
    if inWord then
      if F.whitespace c then aString :: words F false [c] w else words F true (aString ++ [c]) w
    else words F (!F.skipped c) (aString ++ [c]) w

structure Folding where
  lines : List Str := []
  current : Str := []

def addWord (F : Foundation) (mustUseEncoding : Bool) (charset : Bytes) (thePrefixLength : ℕ) (f : Folding)
    (aString : Str) : Folding :=
  let length := if mustUseEncoding then 18 + (encodeHeader F charset (f.current ++ aString)).length
    else f.current.length + aString.length
  let length := if f.lines = [] then length + thePrefixLength else length
  if 75 < length then ⟨f.lines ++ [f.current], aString⟩ else ⟨f.lines, f.current ++ aString⟩

def foldWord (F : Foundation) (w : Str) (thePrefixLength : ℕ) : List Str :=
  let f := (words F false [] w).foldl (addWord F (!is7bitSafe w) (F.charset w) thePrefixLength) {}
  f.lines ++ [f.current]

def encodeLine (F : Foundation) (mustUseEncoding : Bool) (charset : Bytes) (line : Str) : Bytes :=
  if mustUseEncoding then ascii "=?" ++ charset ++ ascii "?q?" ++ encodeHeader F charset line ++ ascii "?="
  else line.map UInt16.toUInt8

def encodeWord (F : Foundation) (theWord : Str) (thePrefixLength : ℕ) : Bytes :=
  if theWord = [] then []
  else [10, 32].intercalate
    ((foldWord F theWord thePrefixLength).map (encodeLine F (!is7bitSafe theWord) (F.charset theWord)))

/-- A line break in front of a blank is dropped. -/
def unfold : Bytes → Bytes
  | c :: d :: b => if c = 10 ∧ (d = 32 ∨ d = 9) then unfold (d :: b) else c :: unfold (d :: b)
  | b => b

/-- Of empty data, a byte is read and copied that is not there. -/
def unfoldLines (b : Bytes) : Option Bytes := if b = [] then none else some (unfold b)

/-- What follows `=?` in an encoded word: the character set, the encoding, the text, and what stands behind the word. -/
def parseWord : Bytes → Option (Bytes × UInt8 × Bytes × Bytes)
  | [] => none
  | x :: b =>
    match b.dropWhile (· ≠ 63) with
    | 63 :: encoding :: 63 :: b' =>
      match b'.dropWhile (· ≠ 63) with
      | 63 :: 61 :: rest => some (x :: b.takeWhile (· ≠ 63), encoding, b'.takeWhile (· ≠ 63), rest)
      | _ => none
    | _ => none

def decodeText (encoding : UInt8) (text : Bytes) : Option Bytes :=
  if lower encoding = 113 then decodeQuotedPrintable true text else decodeBase64 text

/-- The loop of `decodeHeader:charset:`. `span` is what has been read since the last word that was decoded, and it is
left out in front of the next one as long as there are only blanks in it. -/
def decodeSpans (F : Foundation) (theCharset : Option Bytes) : ℕ → Bytes → Bool → Bytes → Option Str
  | 0, _, _, _ => some []
  | n + 1, span, ignoreSpan, b =>
    let literal (span : Bytes) : Str :=
      (theCharset.bind fun charset => F.decode charset span).getD (F.literal span)
    match b with
    | 61 :: 63 :: b' =>
      let front := if span = [] ∨ ignoreSpan = true then [] else literal span
      match parseWord b' with
      | none => some (front ++ literal b)
      | some (charset, encoding, text, rest) =>
        if lower encoding = 113 ∨ lower encoding = 98 then
          (decodeText encoding text).bind fun data =>
            (decodeSpans F theCharset n [] true rest).map fun s =>
              front ++ (F.decode (theCharset.getD charset) data).getD [] ++ s
        else (decodeSpans F theCharset n (b.take (b.length - rest.length)) ignoreSpan rest).map (front ++ ·)
    | c :: d :: b' =>
      decodeSpans F theCharset n (span ++ [c]) (ignoreSpan && !(32 < c && c < 128)) (d :: b')
    | b => some (if span ++ b = [] then [] else literal (span ++ b))

/-- The strings of the ISO-2022-JP converter and of this method are `none` where there is no string. -/
def decodeHeader (F : Foundation) (theCharset : Option Bytes) (theData : Bytes) : Option Str :=
  if theData = [] then some []
  else if hasCPrefix theData (27 :: ascii "$B") then F.iso2022jp theData
  else decodeSpans F theCharset (theData.length + 1) [] false theData

end Xperimentum.Pantomime.EncodedWords
