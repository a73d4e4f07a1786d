import Mathlib.Data.List.DropRight
import Xperimentum.Pantomime.Data

/-! `format=flowed` text: wrapping, quoting and unwrapping. Where an exception leaves a method, or it reads behind a
buffer, there is no result. -/

namespace Xperimentum.Pantomime.FormatFlowed

def signature : Bytes := ascii "-- "

/-- The last blank, and zero if there is none behind the first character. -/
def lastBlank (w : Bytes) : ℕ := w.zipIdx.foldl (fun split c => if c.1 = 32 then c.2 else split) 0

/-- The length of the next part of a line that is too long. -/
def breakAt (limit depth : ℕ) (r : Bytes) : ℕ :=
  if r.length + depth + 1 < limit then r.length
  else
    let reach := min r.length (limit - 1 - depth)
    let blank := lastBlank (r.take reach)
    let split := if blank = 0 then reach + ((r.drop reach).takeWhile (· ≠ 32)).length else blank
    if split < r.length then split + 1 else split

def splitParts (limit depth : ℕ) : ℕ → Bytes → List Bytes
  | 0, _ => []
  | n + 1, r =>
    if r = [] then []
    else r.take (breakAt limit depth r) :: splitParts limit depth n (r.drop (breakAt limit depth r))

def parts (limit depth : ℕ) (aLine : Bytes) : List Bytes :=
  if aLine = signature ∨ depth + 1 + aLine.length ≤ limit then [aLine] else splitParts limit depth aLine.length aLine

def trimmed (depth : ℕ) (aLine : Bytes) : Bytes :=
  if aLine = signature then aLine
  else
    let j := (aLine.rdropWhile (· = 32)).length
    aLine.take (if depth ≠ 0 ∧ j < aLine.length then j + 1 else j)

def spaceStuffed (depth : ℕ) (part : Bytes) : Bytes :=
  if depth ≠ 0 ∨ part.head? = some 62 ∨ part.head? = some 32 ∨ hasCPrefix part (ascii "From") = true then 32 :: part
  else part

def quoteDepth (line : Bytes) : ℕ := (line.takeWhile (· = 62)).length

def wrapLine (limit : ℕ) (line : Bytes) : Bytes :=
  let depth := quoteDepth line
  let rest := line.drop depth
  let aLine := trimmed depth (if depth ≠ 0 ∧ rest.head? = some 32 then rest.tail else rest)
  (parts limit depth aLine).flatMap fun part => List.replicate depth 62 ++ spaceStuffed depth part ++ [10]

def effectiveLimit (theLimit : ℕ) : ℕ := if theLimit = 0 ∨ 998 < theLimit then 998 else theLimit

def wrapWithLimit (theLimit : ℕ) (text : Bytes) : Option Bytes :=
  if text = [] then some []
  else
    let aMutableData := (text.splitOn 10).flatMap (wrapLine (effectiveLimit theLimit))
    if aMutableData = [] then none else some aMutableData.dropLast

def quoteWithLevel (theLevel theLimit : ℕ) (text : Bytes) : Option Bytes :=
  if theLimit < theLevel then some []
  else (wrapWithLimit (theLimit - theLevel) text).map fun aData =>
    let lines := if aData = [] then [] else aData.splitOn 10
    (lines.flatMap fun aLine =>
      List.replicate theLevel 62 ++ (if aLine.head? = some 62 then aLine else 32 :: aLine) ++ [10]).dropLast

/-- `replaceBytesInRange:withBytes:` with the range of the whole buffer. -/
def overwrite (lines bytes : Bytes) : Option Bytes :=
  if lines.length ≤ bytes.length then some (bytes.take lines.length) else none

def requote (theQuoteLimit depth : ℕ) (lines : Bytes) : Option Bytes :=
  if depth = 0 then some lines else (quoteWithLevel depth theQuoteLimit lines).bind (overwrite lines)

/-- The text so far, the lines of the paragraph, and their quote depth, if it is defined. -/
structure Unwrapping where
  text : Bytes := []
  lines : Bytes := []
  depth : Option ℕ := none

def isFlowed (aLine : Bytes) : Bool :=
  aLine.getLast? = some 32 && !aLine.dropLast.all (· = 32) && aLine ≠ signature

def unwrapLine (theQuoteLimit : ℕ) (p : Unwrapping) (line : Bytes) : Option Unwrapping :=
  let lineDepth := quoteDepth line
  let depth := p.depth.getD lineDepth
  let rest := line.drop lineDepth
  let aLine := if rest.head? = some 32 then rest.tail else rest
  if isFlowed aLine then
    if depth = lineDepth then some { p with lines := p.lines ++ aLine, depth := some depth }
    else do
      let lines ← requote theQuoteLimit depth p.lines
      let next ← overwrite lines aLine
      some { text := p.text ++ lines ++ [10], lines := next, depth := some lineDepth }
  else if depth = lineDepth then do
    let lines := p.lines ++ aLine
    let lines ← if depth = 0 then some lines else quoteWithLevel depth theQuoteLimit lines
    some { text := p.text ++ lines ++ [10] }
  else do
    let lines ← requote theQuoteLimit depth p.lines
    let aLine ← if lineDepth = 0 then some aLine else quoteWithLevel lineDepth theQuoteLimit aLine
    some { text := p.text ++ lines ++ 10 :: aLine ++ [10] }

/-- Nothing follows the last line break. -/
def inputLines (text : Bytes) : List Bytes :=
  let lines := text.splitOn 10
  if lines.getLast? = some [] then lines.dropLast else lines

/-- Flowed lines at the end of the message have no fixed line break. -/
def finish (theQuoteLimit : ℕ) (p : Unwrapping) : Option Bytes :=
  if p.lines = [] then some p.text
  else (requote theQuoteLimit (p.depth.getD 0) p.lines).map fun lines => p.text ++ lines ++ [10]

def unwrapWithLimit (theQuoteLimit : ℕ) (text : Bytes) : Option Bytes :=
  ((inputLines text).foldlM (unwrapLine theQuoteLimit) {}).bind (finish theQuoteLimit)

end Xperimentum.Pantomime.FormatFlowed
