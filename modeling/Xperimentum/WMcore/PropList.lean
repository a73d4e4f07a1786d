import Mathlib.Tactic

/-! Property lists, the two printers of their text and its reader. A text is the bytes of a C string. -/

namespace Xperimentum.WMcore

abbrev Text := List UInt8

/-- The bytes of a data object, `none` where its pointer is NULL. -/
abbrev WMData := Option (List UInt8)

/-- A dictionary has keys of two types only. -/
inductive PLKey where
  | string (str : Text)
  | data (data : WMData)
  deriving DecidableEq

/-- The entries of a dictionary stand in the order in which its table is enumerated. -/
inductive PropList where
  | string (str : Text)
  | data (data : WMData)
  | array (array : List PropList)
  | dictionary (dict : List (PLKey × PropList))

def inrange (ch min max : UInt8) : Bool := min ≤ ch && ch ≤ max

def isalnum (ch : UInt8) : Bool := inrange ch 97 122 || inrange ch 65 90 || inrange ch 48 57

def isspace (ch : UInt8) : Bool := ch = 32 || inrange ch 9 13

def stringable (ch : UInt8) : Bool := isalnum ch || ch = 46 || ch = 95 || ch = 47 || ch = 43

def noquote (ch : UInt8) : Bool := isalnum ch || ch = 95 || ch = 46 || ch = 36

def charesc (ch : UInt8) : Bool := inrange ch 7 12 || ch = 34 || ch = 92

def numesc (ch : UInt8) : Bool := ch ≤ 6 || inrange ch 13 31 || 126 < ch

def ishexdigit (ch : UInt8) : Bool := inrange ch 97 102 || inrange ch 65 70 || inrange ch 48 57

def char2num (ch : UInt8) : UInt8 :=
  if inrange ch 48 57 then ch - 48 else if inrange ch 97 102 then ch - 0x57 else ch - 0x37

def num2char (num : UInt8) : UInt8 := if num < 10 then num + 48 else num + 0x57

def tolower (ch : UInt8) : UInt8 := if inrange ch 65 90 then ch + 32 else ch

section Equality

variable (caseSensitive : Bool)

def equalStrings (str other : Text) : Bool :=
  if caseSensitive then str = other else str.map tolower = other.map tolower

def isDataEqualToData : WMData → WMData → Bool
  | some bytes, some other => bytes = other
  | none, none => true
  | _, _ => false

def equalKeys : PLKey → PLKey → Bool
  | .string str, .string other => equalStrings caseSensitive str other
  | .data data, .data other => isDataEqualToData data other
  | _, _ => false

def hashGet {V : Type} (dict : List (PLKey × V)) (key : PLKey) : Option V :=
  (dict.find? fun entry => equalKeys caseSensitive key entry.1).map Prod.snd

def removeFromPLDictionary {V : Type} (dict : List (PLKey × V)) (key : PLKey) : List (PLKey × V) :=
  dict.eraseP fun entry => equalKeys caseSensitive key entry.1

def putInPLDictionary {V : Type} (dict : List (PLKey × V)) (key : PLKey) (value : V) : List (PLKey × V) :=
  removeFromPLDictionary caseSensitive dict key ++ [(key, value)]

mutual
def isPropListEqualTo : PropList → PropList → Bool
  | .string str, .string other => equalStrings caseSensitive str other
  | .data data, .data other => isDataEqualToData data other
  | .array array, .array other => equalItems array other
  | .dictionary dict, .dictionary other => dict.length = other.length && equalEntries dict other
  | _, _ => false

def equalItems : List PropList → List PropList → Bool
  | [], [] => true
  | item :: items, other :: others => isPropListEqualTo item other && equalItems items others
  | _, _ => false

def equalEntries : List (PLKey × PropList) → List (PLKey × PropList) → Bool
  | [], _ => true
  | (key, item) :: entries, other =>
    (match hashGet caseSensitive other key with
      | some found => isPropListEqualTo item found
      | none => false) && equalEntries entries other
end

end Equality

/-! The printers. -/

def hexBytes : ℕ → List UInt8 → Text
  | _, [] => []
  | i, b :: bs =>
    num2char (b >>> 4 &&& 15) :: num2char (b &&& 15) ::
      if i % 4 = 3 && !bs.isEmpty then 32 :: hexBytes (i + 1) bs else hexBytes (i + 1) bs

def dataDescription (data : WMData) : Text := 60 :: hexBytes 0 (data.getD []) ++ [62]

def escapeLetter (ch : UInt8) : UInt8 :=
  if ch = 7 then 97 else if ch = 8 then 98 else if ch = 9 then 116 else if ch = 10 then 110
  else if ch = 11 then 118 else if ch = 12 then 102 else ch

def escape (ch : UInt8) : Text :=
  if charesc ch then [92, escapeLetter ch]
  else if numesc ch then [92, (ch >>> 6 &&& 7) + 48, (ch >>> 3 &&& 7) + 48, (ch &&& 7) + 48]
  else [ch]

def stringDescription (str : Text) : Text :=
  if str = [] then [34, 34]
  else if str.all noquote then str.flatMap escape
  else 34 :: str.flatMap escape ++ [34]

def keyDescription : PLKey → Text
  | .string str => stringDescription str
  | .data data => dataDescription data

mutual
def description : PropList → Text
  | .string str => stringDescription str
  | .data data => dataDescription data
  | .array array => 40 :: itemsDescription array ++ [41]
  | .dictionary dict => 123 :: entriesDescription dict ++ [125]

def itemsDescription : List PropList → Text
  | [] => []
  | item :: items => description item ++ moreItemsDescription items

def moreItemsDescription : List PropList → Text
  | [] => []
  | item :: items => 44 :: 32 :: description item ++ moreItemsDescription items

def entriesDescription : List (PLKey × PropList) → Text
  | [] => []
  | (key, val) :: entries =>
    keyDescription key ++ (32 :: 61 :: 32 :: (description val ++ (59 :: entriesDescription entries)))
end

def spaces (n : ℕ) : Text := List.replicate n 32

mutual
def indentedDescription : PropList → ℕ → Text
  | .string str, _ => stringDescription str
  | .data data, _ => dataDescription data
  | .array array, level =>
    if 2 * (level + 1) + (description (.array array)).length ≤ 77 then description (.array array)
    else 40 :: 10 :: indentedItems array level ++ (10 :: spaces (2 * level) ++ [41])
  | .dictionary dict, level => 123 :: 10 :: indentedEntries dict level ++ (spaces (2 * level) ++ [125])

def indentedItems : List PropList → ℕ → Text
  | [], _ => []
  | item :: items, level =>
    spaces (2 * (level + 1)) ++ (indentedDescription item (level + 1) ++ moreIndentedItems items level)

def moreIndentedItems : List PropList → ℕ → Text
  | [], _ => []
  | item :: items, level =>
    44 :: 10 :: spaces (2 * (level + 1)) ++ (indentedDescription item (level + 1) ++ moreIndentedItems items level)

def indentedEntries : List (PLKey × PropList) → ℕ → Text
  | [], _ => []
  | (key, val) :: entries, level =>
    spaces (2 * (level + 1)) ++ (keyDescription key ++ (32 :: 61 :: 32 :: (indentedDescription val (level + 1) ++
      (59 :: 10 :: indentedEntries entries level))))
end

def getPropListDescription (plist : PropList) (indented : Bool) : Text :=
  if indented then indentedDescription plist 0 else description plist

/-! The reader. It takes the text that is left and gives what it read with what is left then. -/

def getNonSpaceChar (text : Text) : Option (UInt8 × Text) :=
  match text.dropWhile isspace with
  | [] => none
  | c :: rest => some (c, rest)

def isOctal (ch : UInt8) : Bool := inrange ch 48 55

def unescapeLetter (ch : UInt8) : UInt8 :=
  if ch = 97 then 7 else if ch = 98 then 8 else if ch = 116 then 9 else if ch = 114 then 13 else if ch = 110 then 10
  else if ch = 118 then 11 else if ch = 102 then 12 else ch

def octal (wch : UInt8) : ℕ → Text → UInt8 × Text
  | n + 1, ch :: src => if isOctal ch then octal (wch <<< 3 ||| ch &&& 7) n src else (wch, ch :: src)
  | _, src => (wch, src)

lemma length_octal (wch : UInt8) (n : ℕ) (src : Text) : (octal wch n src).2.length ≤ src.length := by
  induction n generalizing wch src with
  | zero => rfl
  | succ n ih =>
    cases src with
    | nil => rfl
    | cons ch src =>
      simp only [octal]
      split
      · exact (ih _ src).trans (Nat.le_succ _)
      · rfl

def unescapestr : Text → Text
  | [] => []
  | ch :: src =>
    if ch ≠ 92 then ch :: unescapestr src
    else
      match src with
      | [] => [92]
      | a :: src =>
        if isOctal a then (octal (a &&& 7) 2 src).1 :: unescapestr (octal (a &&& 7) 2 src).2
        else unescapeLetter a :: unescapestr src
  termination_by src => src.length
  decreasing_by
    · exact Nat.lt_succ_self _
    · exact Nat.lt_succ_of_le ((length_octal _ 2 src).trans (Nat.le_succ _))
    · exact Nat.lt_succ_of_le (Nat.le_succ _)

/-- What the string made of the bytes of a buffer holds. -/
def createPLString (str : Text) : Text := str.takeWhile (· ≠ 0)

def getPLString (text : Text) : Option (Text × Text) :=
  match text.takeWhile stringable with
  | [] => none
  | str => some (createPLString (unescapestr str), text.dropWhile stringable)

/-- The bytes up to the quote that ends the string, their escapes left as they are. -/
def quotedBytes : Text → Option (Text × Text)
  | [] => none
  | c :: rest =>
    if c = 34 then some ([], rest)
    else if c = 92 then
      match rest with
      | [] => none
      | c :: rest => (quotedBytes rest).map fun read => (92 :: c :: read.1, read.2)
    else (quotedBytes rest).map fun read => (c :: read.1, read.2)

def getPLQString (text : Text) : Option (Text × Text) :=
  (quotedBytes text).map fun read => (createPLString (unescapestr read.1), read.2)

def hexDigits : ℕ → Text → Option (List UInt8 × Text)
  | 0, _ => none
  | n + 1, text =>
    match getNonSpaceChar text with
    | none => none
    | some (c1, text) =>
      if c1 = 62 then some ([], text)
      else if ishexdigit c1 then
        match getNonSpaceChar text with
        | none => none
        | some (c2, text) =>
          if ishexdigit c2 then
            (hexDigits n text).map fun read => ((char2num c1 <<< 4 ||| char2num c2) :: read.1, read.2)
          else none
      else none

/-- No bytes are allocated for data that has none. -/
def createPLData (bytes : List UInt8) : WMData := if bytes = [] then none else some bytes

def getPLData (text : Text) : Option (WMData × Text) :=
  (hexDigits (text.length + 1) text).map fun read => (createPLData read.1, read.2)

section Reader

variable (caseSensitive : Bool)

def getKey (text : Text) : Option (PLKey × Text) :=
  match getNonSpaceChar text with
  | none => none
  | some (c, rest) =>
    if c = 60 then (getPLData rest).map fun read => (.data read.1, read.2)
    else if c = 34 then (getPLQString rest).map fun read => (.string read.1, read.2)
    else if stringable c then (getPLString (c :: rest)).map fun read => (.string read.1, read.2)
    else none

mutual
def getPropList : ℕ → Text → Option (PropList × Text)
  | 0, _ => none
  | n + 1, text =>
    match getNonSpaceChar text with
    | none => none
    | some (c, rest) =>
      if c = 123 then (getPLDictionary n [] rest).map fun read => (.dictionary read.1, read.2)
      else if c = 40 then (getPLArray n true [] rest).map fun read => (.array read.1, read.2)
      else if c = 60 then (getPLData rest).map fun read => (.data read.1, read.2)
      else if c = 34 then (getPLQString rest).map fun read => (.string read.1, read.2)
      else if stringable c then (getPLString (c :: rest)).map fun read => (.string read.1, read.2)
      else none

def getPLArray : ℕ → Bool → List PropList → Text → Option (List PropList × Text)
  | 0, _, _, _ => none
  | n + 1, first, array, text =>
    match getNonSpaceChar text with
    | none => none
    | some (c, rest) =>
      if c = 41 then some (array, rest)
      else if c ≠ 44 ∧ first = false then none
      else
        match getPropList n (if c = 44 then rest else c :: rest) with
        | none => none
        | some (obj, rest) => getPLArray n false (array ++ [obj]) rest

def getPLDictionary : ℕ → List (PLKey × PropList) → Text → Option (List (PLKey × PropList) × Text)
  | 0, _, _ => none
  | n + 1, dict, text =>
    match getNonSpaceChar text with
    | none => none
    | some (c, rest) =>
      if c = 125 then some (dict, rest)
      else
        match getKey (c :: rest) with
        | none => none
        | some (key, rest) =>
          match getNonSpaceChar rest with
          | some (61, rest) =>
            match getPropList n rest with
            | none => none
            | some (value, rest) =>
              match getNonSpaceChar rest with
              | some (59, rest) => getPLDictionary n (putInPLDictionary caseSensitive dict key value) rest
              | _ => none
          | _ => none
end

def readWhole (n : ℕ) (text : Text) : Option PropList :=
  match getPropList caseSensitive n text with
  | some (plist, rest) => if (getNonSpaceChar rest).isSome then none else some plist
  | none => none

def createPropListFromDescription (desc : Text) : Option PropList :=
  readWhole caseSensitive (desc.length + 1) (desc.takeWhile (· ≠ 0))

end Reader

end Xperimentum.WMcore
