import Mathlib.Tactic

/-! How a POSIX shell reads a word: the quoting by backslashes, by apostrophes and by double quotes. -/

namespace Xperimentum.Lib.ShellWords

inductive Quoting
  | unquoted | apostrophes | doubleQuotes

/-- Characters with a meaning of their own outside of quotes, of white space, operators, expansions and patterns.
Hyphens and commas have one only between brackets and braces, which are special. -/
def special : List Char := "|&;<>()$` \t\n*?[]^!#~=%\x7b\x7d".toList

def isSpecial (c : UInt8) : Bool := c = 0 || 128 ≤ c || special.any fun s => s.toNat = c.toNat

/-- What a backslash takes the meaning of between double quotes. -/
def isEscapable (c : UInt8) : Bool := c = 36 || c = 96 || c = 34 || c = 92

/-- The rest of a word; no result is a text that is not a single word, has an expansion or continues a line. -/
@[grind =] def readWord : Quoting → List UInt8 → Option (List UInt8)
  | .unquoted, [] => some []
  | .unquoted, 39 :: text => readWord .apostrophes text
  | .unquoted, 34 :: text => readWord .doubleQuotes text
  | .unquoted, [92] => none
  | .unquoted, 92 :: c :: text => if c = 10 then none else (readWord .unquoted text).map (c :: ·)
  | .unquoted, c :: text => if isSpecial c then none else (readWord .unquoted text).map (c :: ·)
  | .apostrophes, [] => none
  | .apostrophes, 39 :: text => readWord .unquoted text
  | .apostrophes, c :: text => (readWord .apostrophes text).map (c :: ·)
  | .doubleQuotes, [] => none
  | .doubleQuotes, 34 :: text => readWord .unquoted text
  | .doubleQuotes, [92] => none
  | .doubleQuotes, 92 :: c :: text =>
    if c = 10 then none
    else if isEscapable c then (readWord .doubleQuotes text).map (c :: ·)
    else (readWord .doubleQuotes text).map (92 :: c :: ·)
  | .doubleQuotes, c :: text => if c = 36 ∨ c = 96 then none else (readWord .doubleQuotes text).map (c :: ·)

/-- The value of a text that is one word. -/
def wordValue (text : List UInt8) : Option (List UInt8) := if text = [] then none else readWord .unquoted text

end Xperimentum.Lib.ShellWords
