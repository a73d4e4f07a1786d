import Mathlib.Tactic

/-! `ADVCFConverter`: the records that are read one after the other from the text of a vCard file. A range exception,
or any other, is no result. -/

namespace Xperimentum.Addresses.VCF

abbrev Str := List UInt16

def str (s : String) : Str := s.toList.map fun c => UInt16.ofNat c.toNat

/-- What the library does with the characters of a byte, C strings, dates and Base64. -/
structure Library (Date Data : Type) where
  charString : UInt8 → Str
  cString : Str → Option (List UInt8)
  stringWithUTF8String : List UInt8 → Option Str
  dateWithString : Str → String → Option Date
  base64Decode : Str → Data

def isSpace (c : UInt16) : Bool :=
  c = 0x20 || 9 ≤ c && c ≤ 13 || c = 0x85 || c = 0xa0 || c = 0x1680 || 0x2000 ≤ c && c ≤ 0x200b || c = 0x2028 ||
    c = 0x2029 || c = 0x202f || c = 0x205f || c = 0x3000

def trim (s : Str) : Str := ((s.dropWhile isSpace).reverse.dropWhile isSpace).reverse

def lower (c : UInt16) : UInt16 := if 65 ≤ c && c ≤ 90 then c + 32 else c

/-- A character that is not a hexadecimal digit raises an exception. -/
def hexLongValue (s : Str) : Option ℕ :=
  ((trim s).map lower).foldlM (fun val c =>
    if 48 ≤ c ∧ c ≤ 57 then some (16 * val + (c.toNat - 48))
    else if 97 ≤ c ∧ c ≤ 102 then some (16 * val + (c.toNat - 87))
    else none) 0

/-- The characters are deleted from a copy, at the places that they have in the string itself. -/
def withoutBackslashes (s : Str) : Option Str :=
  s.zipIdx.foldlM (fun copy (c, i) =>
    if c = 92 then if i < copy.length then some (copy.eraseIdx i) else none else some copy) s

section Decoding

variable {Date Data : Type} (lib : Library Date Data)

/-- The places left are those behind `i`. With one character only, the length less two is a very large number. -/
def decodeHex (s : Str) : ℕ → ℕ → Option Str
  | 0, _ => some []
  | n + 1, i =>
    match s[i]? with
    | none => some []
    | some c =>
      if c = 61 ∧ (s.length < 2 ∨ i < s.length - 2) then
        if s.length < i + 3 then none
        else
          match hexLongValue ((s.drop (i + 1)).take 2) with
          | some value => (decodeHex s n (i + 3)).map (lib.charString (UInt8.ofNat value) ++ ·)
          | none => (decodeHex s n (i + 1)).map (c :: ·)
      else (decodeHex s n (i + 1)).map (c :: ·)

/-- The string is `nil` where the bytes are not UTF-8. -/
def stringByQuotedPrintableDecoding (s : Str) : Option (Option Str) := do
  let unescaped ← withoutBackslashes s
  let decoded ← decodeHex lib unescaped unescaped.length 0
  let bytes ← lib.cString decoded
  return lib.stringWithUTF8String (bytes.takeWhile (· ≠ 0))

end Decoding

def components (separator : UInt16) (s : Str) : List Str := s.splitOn separator

/-- The lines that begin with a space or a tab are taken to the one in front. -/
def unfold : Str → List Str → Str × List Str
  | s, [] => (s, [])
  | s, line :: lines =>
    if line.head? = some 32 ∨ line.head? = some 9 then unfold (s ++ trim line) lines else (s, line :: lines)

section Records

variable {Date Data : Type} (lib : Library Date Data)

/-- A value of one `=` stands on the next line. -/
def continued (value : Str) : List Str → Option (Str × List Str)
  | [] => if value = [61] then none else some (value, [])
  | next :: rest => some (if value = [61] then (trim next, rest) else (value, next :: rest))

/-- The keys and the values of a line, if it has any, and the lines behind it. No values are `nil`. -/
def parseLine : List Str → Option (Option (List Str × List Str) × List Str)
  | [] => none
  | line :: lines =>
    if trim line = [] then some (none, lines)
    else
      let (s, rest) := unfold (trim line) lines
      match s.findIdx? (· = 58) with
      | none => some (none, rest)
      | some location =>
        (continued (s.drop (location + 1)) rest).bind fun next =>
          (stringByQuotedPrintableDecoding lib next.1).map fun decoded =>
            (some (components 59 ((s.take location).map lower), (decoded.map (components 59)).getD []), next.2)

inductive Value (Date Data : Type)
  | string (s : Str)
  | date (d : Date)
  | image (d : Data) (type : Str)
  | address (fields : List (String × Str))

/-- A property that is set, or gets one more value with a label. -/
inductive Update (Date Data : Type)
  | setValue (value : Value Date Data) (property : String)
  | addValue (value : Value Date Data) (label property : String)

def restOfStringStartingWith (start : Str) (k : List Str) : Option Str :=
  (k.find? fun s => start.isPrefixOf s).map (List.drop start.length)

/-- The values of a person's name, as many as there are. -/
def nameProperties : List String := ["LastName", "FirstName", "MiddleName", "Title", "Suffix"]

def addressKeys : List String := ["POBox", "ExtAddr", "Street", "City", "State", "ZIP", "Country"]

def phoneLabel (k : List Str) : String :=
  if str "fax" ∈ k then if str "home" ∈ k then "HomeFax" else "WorkFax"
  else if str "pager" ∈ k then "Pager"
  else if str "main" ∈ k then "MainPhone"
  else if str "cell" ∈ k then "MobilePhone"
  else if str "home" ∈ k then "HomePhone"
  else "WorkPhone"

/-- The name of a group in front of the key is taken off. -/
def withoutGroup (key : Str) : Str :=
  match key.findIdx? (· = 46) with
  | some location => key.drop (location + 1)
  | none => key

def integrateKeyBlock (k v : List Str) : Option (List (Update Date Data)) :=
  match k, v with
  | [], _ | _, [] => some []
  | first :: _, value :: _ =>
    let key := withoutGroup first
    let set (property : String) : Option (List (Update Date Data)) := some [.setValue (.string value) property]
    if key = str "n" then some ((v.zip nameProperties).map fun (value, property) => .setValue (.string value) property)
    else if key = str "org" then set "Organization"
    else if key = str "title" then set "JobTitle"
    else if key = str "url" then set "HomePage"
    else if key = str "fn" then set "FormattedName"
    else if key = str "bday" then
      match (lib.dateWithString value "%Y-%d-%m").or (lib.dateWithString value "%Y%d%m") with
      | some d => some [.setValue (.date d) "BirthDate"]
      | none => some []
    else if key = str "note" then set "Note"
    else if key = str "tel" then some [.addValue (.string value) (phoneLabel k) "Phone"]
    else if key = str "email" then
      some [.addValue (.string value) (if str "home" ∈ k then "HomeEmail" else "WorkEmail") "Email"]
    else if key = str "adr" then
      if v.length < 7 then none
      else some [.addValue (.address ((addressKeys.zip v).filter (·.2 ≠ [])))
        (if str "home" ∈ k then "HomeAddr" else "WorkAddr") "Address"]
    else if key = str "photo" then
      let encoding := restOfStringStartingWith (str "encoding=") k
      if encoding ≠ some (str "base64") ∧ encoding ≠ some (str "b") ∧ str "base64" ∉ k then some []
      else some [.setValue (.image (lib.base64Decode value)
        ((restOfStringStartingWith (str "type=") k).getD (str "jpg"))) "Image"]
    else some []

/-- What a line makes of a person, and whether it is the last one. -/
def integrateLine (block : Option (List Str × List Str)) (person : List (Update Date Data)) :
    Option (Bool × List (Update Date Data)) :=
  match block with
  | none => some (false, person)
  | some (keyblock, valueblock) =>
    if str "end" ∈ keyblock then some (true, person)
    else if str "begin" ∉ keyblock ∧ str "version" ∉ keyblock then
      (integrateKeyBlock lib keyblock valueblock).map fun updates => (false, person ++ updates)
    else some (false, person)

/-- The person of the lines up to the one with the key `end`, and the lengths of the lines read; the lines are counted
by the first argument. -/
def readLines : ℕ → List Str → List (Update Date Data) → Option (Option (List (Update Date Data)) × ℕ)
  | 0, _, _ => some (none, 0)
  | _ + 1, [], _ => some (none, 0)
  | n + 1, line :: lines, person =>
    (parseLine lib (line :: lines)).bind fun (block, rest) =>
      let length := (((line :: lines).take (lines.length + 1 - rest.length)).map fun s => s.length + 1).sum
      (integrateLine lib block person).bind fun (done, person) =>
        if done then some (some person, length)
        else (readLines n rest person).map fun (record, others) => (record, length + others)

/-- The next record of a text from the index on, and the index behind it. -/
def nextRecord (text : Str) (idx : ℕ) : Option (Option (List (Update Date Data)) × ℕ) :=
  if text.length < idx then none
  else
    let lines := components 10 (text.drop idx)
    (readLines lib lines.length lines []).map fun (record, length) => (record, idx + length)

/-- The records of so many calls. -/
def nextRecords (text : Str) : ℕ → ℕ → Option (List (Option (List (Update Date Data))))
  | 0, _ => some []
  | n + 1, idx =>
    (nextRecord lib text idx).bind fun (record, idx) => (nextRecords text n idx).map fun records => record :: records

end Records

section Exhausted

variable {Date Data : Type} {lib : Library Date Data}

lemma unfold_length (s : Str) (lines : List Str) : (unfold s lines).2.length ≤ lines.length := by
  induction lines generalizing s with
  | nil => exact le_rfl
  | cons line lines ih =>
    rw [unfold]
    split_ifs
    · exact (ih _).trans (Nat.le_succ _)
    · exact le_rfl

lemma continued_length {value value' : Str} {lines rest : List Str} (h : continued value lines = some (value', rest)) :
    rest.length ≤ lines.length := by
  cases lines with
  | nil =>
    rw [continued] at h
    split_ifs at h
    obtain ⟨-, rfl⟩ := Prod.mk.inj (Option.some.inj h)
    exact le_rfl
  | cons next lines =>
    rw [continued] at h
    split_ifs at h
    · obtain ⟨-, rfl⟩ := Prod.mk.inj (Option.some.inj h)
      exact Nat.le_succ _
    · obtain ⟨-, rfl⟩ := Prod.mk.inj (Option.some.inj h)
      exact le_rfl

/-- At least one line is read. -/
lemma parseLine_length {line : Str} {lines rest : List Str} {block : Option (List Str × List Str)}
    (h : parseLine lib (line :: lines) = some (block, rest)) : rest.length ≤ lines.length := by
  have hfold := unfold_length (trim line) lines
  rw [parseLine] at h
  split_ifs at h with htrim
  · obtain ⟨-, rfl⟩ := Prod.mk.inj (Option.some.inj h)
    exact le_rfl
  · generalize unfold (trim line) lines = unfolded at h hfold
    obtain ⟨s, rest'⟩ := unfolded
    simp only at h hfold
    split at h
    · obtain ⟨-, rfl⟩ := Prod.mk.inj (Option.some.inj h)
      exact hfold
    · obtain ⟨⟨value, rest''⟩, hvalue, h⟩ := Option.bind_eq_some_iff.mp h
      obtain ⟨decoded, -, h⟩ := Option.map_eq_some_iff.mp h
      obtain ⟨-, rfl⟩ := Prod.mk.inj h
      exact (continued_length hvalue).trans hfold

lemma readLines_positive {n : ℕ} {line : Str} {lines : List Str} {person : List (Update Date Data)}
    {record : Option (List (Update Date Data))} {length : ℕ}
    (h : readLines lib (n + 1) (line :: lines) person = some (record, length)) : 0 < length := by
  rw [readLines] at h
  obtain ⟨⟨block, rest⟩, hparse, h⟩ := Option.bind_eq_some_iff.mp h
  have hrest := parseLine_length hparse
  have hpos : 0 < (((line :: lines).take (lines.length + 1 - rest.length)).map fun s => s.length + 1).sum := by
    obtain ⟨k, hk⟩ : ∃ k, lines.length + 1 - rest.length = k + 1 := ⟨lines.length - rest.length, by omega⟩
    rw [hk, List.take_succ_cons, List.map_cons, List.sum_cons]
    omega
  obtain ⟨⟨done, person'⟩, -, h⟩ := Option.bind_eq_some_iff.mp h
  simp only at h
  split_ifs at h
  · obtain ⟨-, rfl⟩ := Prod.mk.inj (Option.some.inj h)
    exact hpos
  · obtain ⟨⟨record', others⟩, -, h⟩ := Option.map_eq_some_iff.mp h
    obtain ⟨-, rfl⟩ := Prod.mk.inj h
    omega

/-- The index grows with every call. -/
lemma nextRecord_lt {text : Str} {idx idx' : ℕ} {record : Option (List (Update Date Data))}
    (h : nextRecord lib text idx = some (record, idx')) : idx < idx' ∧ idx ≤ text.length := by
  rw [nextRecord] at h
  split_ifs at h with hidx
  obtain ⟨⟨record', length⟩, hread, heq⟩ := Option.map_eq_some_iff.mp h
  obtain ⟨-, rfl⟩ := Prod.mk.inj heq
  obtain ⟨line, lines, hlines⟩ : ∃ line lines, components 10 (text.drop idx) = line :: lines :=
    List.exists_cons_of_ne_nil (List.splitOn_ne_nil 10 _)
  rw [hlines] at hread
  have hpos := readLines_positive hread
  exact ⟨by omega, not_lt.mp hidx⟩

/-- A library whose C strings are ASCII, without dates and images. -/
def plainLibrary : Library Unit Unit where
  charString := fun c => [c.toUInt16]
  cString := fun s => if s.all (· < 128) then some (s.map UInt16.toUInt8) else none
  stringWithUTF8String := fun bytes => some (bytes.map UInt8.toUInt16)
  dateWithString := fun _ _ => none
  base64Decode := fun _ => ()

end Exhausted

end Xperimentum.Addresses.VCF
