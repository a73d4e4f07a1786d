import Xperimentum.Pantomime.EncodedWords
import Xperimentum.Pantomime.Numerals

/-! `CWUUFile`: the lines of an uuencoded file, its name and its permissions. -/

namespace Xperimentum.Pantomime.UUFile

open EncodedWords Lib.Byte

structure UUFile where
  name : Str
  data : Bytes
  filePosixPermissions : ℤ
  deriving DecidableEq

/-- `UUDECODE`. -/
def sextet (c : UInt8) : UInt8 := (c - 32) &&& 63

/-- The memory from the first group of a line on; only the low byte of each `int` is appended. The second part is the
places that are read. -/
def decodeGroups (line : ℕ → UInt8) : ℕ → ℕ → Bytes × List ℕ
  | 0, _ => ([], [])
  | 1, p => ([sextet (line p) <<< 2 ||| sextet (line (p + 1)) >>> 4], [p, p + 1])
  | 2, p => ([sextet (line p) <<< 2 ||| sextet (line (p + 1)) >>> 4,
      sextet (line (p + 1)) <<< 4 ||| sextet (line (p + 2)) >>> 2], [p, p + 1, p + 1, p + 2])
  | len + 3, p =>
    let rest := decodeGroups line len (p + 4)
    ([sextet (line p) <<< 2 ||| sextet (line (p + 1)) >>> 4,
      sextet (line (p + 1)) <<< 4 ||| sextet (line (p + 2)) >>> 2,
      sextet (line (p + 2)) <<< 6 ||| sextet (line (p + 3))] ++ rest.1,
      [p, p + 1, p + 1, p + 2, p + 2, p + 3] ++ rest.2)

def uudecodeline (line : ℕ → UInt8) : Bytes × List ℕ :=
  let groups := decodeGroups line (sextet (line 0)).toNat 1
  (groups.1, 0 :: groups.2)

/-- The digits at the start of a component. -/
def intValue (w : Str) : ℤ := atoi (w.map fun c => if c < 128 then c.toUInt8 else 0)

/-- The lines are C strings; nothing is returned where an exception is raised for a component that is missing. -/
def fileFromUUEncodedString (cString : Str → ℕ → UInt8) (theString : Str) : Option UUFile := do
  let allLines := theString.splitOn 10
  let aString ← allLines[0]?
  let theFilePermissions ← (aString.splitOn 32)[1]?
  let aFilename ← (aString.splitOn 32)[2]?
  let count := allLines.length - 1
  let aMutableData := ((allLines.take count).drop 1).flatMap fun l => (uudecodeline (cString l)).1
  pure ⟨aFilename, aMutableData, intValue theFilePermissions⟩

section Encoding

def uuchar (n : ℕ) : UInt8 := if n = 0 then 96 else UInt8.ofNat (n + 32)

def encodeGroup (a b c : UInt8) : Bytes :=
  [uuchar (a.toNat / 4), uuchar (a.toNat % 4 * 16 + b.toNat / 16), uuchar (b.toNat % 16 * 4 + c.toNat / 64),
    uuchar (c.toNat % 64)]

def encodeGroups : Bytes → Bytes
  | a :: b :: c :: rest => encodeGroup a b c ++ encodeGroups rest
  | [a, b] => encodeGroup a b 0
  | [a] => encodeGroup a 0 0
  | [] => []

def encodeLine (data : Bytes) : Bytes := uuchar data.length :: encodeGroups data

/-- Each line but the last has 45 bytes. -/
def encodeLines (data : Bytes) : List Bytes :=
  if h : data = [] then [] else encodeLine (data.take 45) :: encodeLines (data.drop 45)
termination_by data.length
decreasing_by
  have hpos := List.length_pos_of_ne_nil h
  rw [List.length_drop]
  omega

def octalDigit (d : ℕ) : UInt8 := UInt8.ofNat (48 + d)

/-- Three octal digits, or more where the mode has more. -/
def octal (mode : ℕ) : Bytes :=
  let digits := (Nat.digits 8 mode).map octalDigit
  List.replicate (3 - digits.length) 48 ++ digits.reverse

/-- The text from `begin` to `end`, as `rangeOfUUEncodedStringFromString:` finds it. -/
def uuencoded (name : Str) (mode : ℕ) (data : Bytes) : Str :=
  [10].intercalate ((asciiUnits (ascii "begin ") ++ asciiUnits (octal mode) ++ 32 :: name) ::
    (encodeLines data ++ [[96], ascii "end"]).map asciiUnits)

end Encoding

section Characters

lemma sextet_uuchar : ∀ n < 64, sextet (uuchar n) = UInt8.ofNat n := by decide +kernel

lemma first_byte : ∀ x < 64, ∀ y < 64, UInt8.ofNat x <<< 2 ||| UInt8.ofNat y >>> 4 = UInt8.ofNat (4 * x + y / 16) := by
  decide +kernel

lemma second_byte : ∀ y < 64, ∀ z < 64,
    UInt8.ofNat y <<< 4 ||| UInt8.ofNat z >>> 2 = UInt8.ofNat (y % 16 * 16 + z / 4) := by
  decide +kernel

lemma third_byte : ∀ z < 64, ∀ t < 64, UInt8.ofNat z <<< 6 ||| UInt8.ofNat t = UInt8.ofNat (z % 4 * 64 + t) := by
  decide +kernel

/-- A C string of ASCII characters only is the characters. -/
lemma map_asciiUnits {b : Bytes} (h : ∀ c ∈ b, c < 128) :
    ((asciiUnits b).map fun c => if c < 128 then c.toUInt8 else 0) = b := by
  have hone : ∀ c : UInt8, c < 128 → (if c.toUInt16 < 128 then c.toUInt16.toUInt8 else 0) = c :=
    forall_byte (by decide)
  rw [asciiUnits, List.map_map]
  exact (List.map_congr_left fun c hc => hone c (h c hc)).trans (List.map_id b)

end Characters

section Modes

lemma octalDigit_digit : ∀ d < 8, isDigit (octalDigit d) = true ∧ (octalDigit d).toNat - 48 = d := by decide

lemma decimal_zeros (k : ℕ) (b : Bytes) : decimal (List.replicate k 48 ++ b) = decimal b := by
  induction k with
  | zero => rfl
  | succ k ih => exact ih

lemma decimal_digits {digits : List ℕ} (h : ∀ d ∈ digits, d < 8) :
    decimal (digits.map octalDigit).reverse = Nat.ofDigits 10 digits := by
  induction digits with
  | nil => rfl
  | cons d digits ih =>
    rw [List.map_cons, List.reverse_cons, decimal_snoc, ih fun e he => h e (List.mem_cons_of_mem d he),
      (octalDigit_digit d (h d List.mem_cons_self)).2, Nat.ofDigits_cons, Nat.add_comm]

/-- Digits of base eight mean more in base ten, unless there is one only. -/
lemma ofDigits_ten_iff (mode : ℕ) : Nat.ofDigits 10 (Nat.digits 8 mode) = mode ↔ mode < 8 := by
  constructor
  · intro h
    by_contra hlarge
    have hcons : Nat.digits 8 mode = mode % 8 :: Nat.digits 8 (mode / 8) := Nat.digits_def' (by decide) (by omega)
    have hrest : Nat.ofDigits 8 (Nat.digits 8 (mode / 8)) ≤ Nat.ofDigits 10 (Nat.digits 8 (mode / 8)) :=
      Nat.ofDigits_monotone _ (by decide)
    rw [Nat.ofDigits_digits] at hrest
    rw [hcons, Nat.ofDigits_cons] at h
    omega
  · intro h
    interval_cases mode
    all_goals rfl

lemma octal_isDigit (mode : ℕ) : ∀ c ∈ octal mode, isDigit c = true := by
  intro c hc
  rcases List.mem_append.mp hc with hc | hc
  · rw [List.eq_of_mem_replicate hc]
    rfl
  · obtain ⟨d, hd, rfl⟩ := List.mem_map.mp (List.mem_reverse.mp hc)
    exact (octalDigit_digit d (Nat.digits_lt_base (by decide) hd)).1

lemma octal_decimal (mode : ℕ) : decimal (octal mode) = Nat.ofDigits 10 (Nat.digits 8 mode) := by
  rw [octal, decimal_zeros]
  exact decimal_digits fun d hd => Nat.digits_lt_base (by decide) hd

lemma octal_ne_nil (mode : ℕ) : octal mode ≠ [] := by
  intro h
  have hlength := congrArg List.length h
  rw [octal, List.length_append, List.length_replicate, List.length_reverse, List.length_nil] at hlength
  omega

lemma intValue_octal {mode : ℕ} (h : mode < 8 ^ 4) : intValue (asciiUnits (octal mode)) = mode ↔ mode < 8 := by
  have hascii : ∀ c ∈ octal mode, c < 128 := fun c hc =>
    UInt8.lt_iff_toNat_lt.mpr ((isDigit_bounds (octal_isDigit mode c hc)).2.trans_lt (by decide))
  have hlength : (Nat.digits 8 mode).length ≤ 4 := (Nat.digits_length_le_iff (by decide) mode).mpr h
  have hsmall : decimal (octal mode) < 2 ^ 31 := by
    refine (decimal_lt (octal_isDigit mode)).trans_le ?_
    have hoctal : (octal mode).length ≤ 4 := by
      rw [octal, List.length_append, List.length_replicate, List.length_reverse, List.length_map]
      omega
    exact (Nat.pow_le_pow_right (by decide) hoctal).trans (by decide)
  have hatoi := atoi_small [] (octal_isDigit mode) (octal_ne_nil mode) (fun c hc => by cases hc) hsmall
  rw [List.append_nil] at hatoi
  rw [intValue, map_asciiUnits hascii, hatoi, octal_decimal, Nat.cast_inj]
  exact ofDigits_ten_iff mode

end Modes

section Lines

/-- The memory has the bytes from a place on. -/
def Holds (line : ℕ → UInt8) : ℕ → Bytes → Prop
  | _, [] => True
  | p, c :: b => line p = c ∧ Holds line (p + 1) b

variable {line : ℕ → UInt8} {p : ℕ}

lemma decodeGroups_encodeGroups {data : Bytes} (h : Holds line p (encodeGroups data)) :
    (decodeGroups line data.length p).1 = data := by
  have hfirst (a b : UInt8) : sextet (uuchar (a.toNat / 4)) <<< 2 |||
      sextet (uuchar (a.toNat % 4 * 16 + b.toNat / 16)) >>> 4 = a := by
    have ha := a.toNat_lt
    have hb := b.toNat_lt
    rw [sextet_uuchar _ (by omega), sextet_uuchar _ (by omega), first_byte _ (by omega) _ (by omega),
      show 4 * (a.toNat / 4) + (a.toNat % 4 * 16 + b.toNat / 16) / 16 = a.toNat by omega, UInt8.ofNat_toNat]
  have hsecond (a b c : UInt8) : sextet (uuchar (a.toNat % 4 * 16 + b.toNat / 16)) <<< 4 |||
      sextet (uuchar (b.toNat % 16 * 4 + c.toNat / 64)) >>> 2 = b := by
    have hb := b.toNat_lt
    have hc := c.toNat_lt
    rw [sextet_uuchar _ (by omega), sextet_uuchar _ (by omega), second_byte _ (by omega) _ (by omega),
      show (a.toNat % 4 * 16 + b.toNat / 16) % 16 * 16 + (b.toNat % 16 * 4 + c.toNat / 64) / 4 = b.toNat by omega,
      UInt8.ofNat_toNat]
  have hthird (b c : UInt8) : sextet (uuchar (b.toNat % 16 * 4 + c.toNat / 64)) <<< 6 |||
      sextet (uuchar (c.toNat % 64)) = c := by
    have hc := c.toNat_lt
    rw [sextet_uuchar _ (by omega), sextet_uuchar _ (by omega), third_byte _ (by omega) _ (by omega),
      show (b.toNat % 16 * 4 + c.toNat / 64) % 4 * 64 + c.toNat % 64 = c.toNat by omega, UInt8.ofNat_toNat]
  induction data using encodeGroups.induct generalizing p with
  | case1 a b c rest ih =>
    obtain ⟨h0, h1, h2, h3, hrest⟩ := h
    simp only [List.length_cons, decodeGroups, h0, h1, h2, h3, hfirst, hsecond, hthird, ih hrest]
    rfl
  | case2 a b =>
    obtain ⟨h0, h1, h2, -⟩ := h
    simp only [List.length_cons, List.length_nil, decodeGroups, h0, h1, h2, hfirst, hsecond]
  | case3 a =>
    obtain ⟨h0, h1, -⟩ := h
    simp only [List.length_cons, List.length_nil, decodeGroups, h0, h1, hfirst]
  | case4 => rfl

lemma uudecodeline_encodeLine {data : Bytes} (hlength : data.length < 64) (h : Holds line 0 (encodeLine data)) :
    (uudecodeline line).1 = data := by
  obtain ⟨hcount, hgroups⟩ := h
  have htoNat : (UInt8.ofNat data.length).toNat = data.length := UInt8.toNat_ofNat_of_lt' (hlength.trans (by decide))
  rw [uudecodeline, hcount, sextet_uuchar _ hlength, htoNat]
  exact decodeGroups_encodeGroups hgroups

/-- How far behind the first place of a group the groups of that many bytes reach. -/
def groupReads : ℕ → ℕ
  | 0 => 0
  | 1 => 2
  | 2 => 3
  | len + 3 => groupReads len + 4

lemma decodeGroups_reads (line : ℕ → UInt8) (len p m : ℕ) :
    (∀ i ∈ (decodeGroups line len p).2, i < m) ↔ len = 0 ∨ p + groupReads len ≤ m := by
  fun_induction decodeGroups line len p with
  | case1 p => simp
  | case2 p =>
    simp only [List.forall_mem_cons, groupReads]
    simp
    omega
  | case3 p =>
    simp only [List.forall_mem_cons, groupReads]
    simp
    omega
  | case4 len p rest ih =>
    have hzero : len = 0 → groupReads len = 0 := by
      rintro rfl
      rfl
    simp only [rest, List.forall_mem_append, ih, List.forall_mem_cons, groupReads]
    simp
    omega

/-- A line with a length byte and all the bytes that its length asks for. -/
def Whole (line : Bytes) : Prop := ∃ c rest, line = c :: rest ∧ groupReads (sextet c).toNat ≤ rest.length

lemma uudecodeline_reads {b : Bytes} (h : Holds line 0 b) :
    (∀ i ∈ (uudecodeline line).2, i < b.length) ↔ Whole b := by
  cases b with
  | nil =>
    refine iff_of_false (fun hall => absurd (hall 0 List.mem_cons_self) (Nat.not_lt_zero 0)) ?_
    rintro ⟨c, rest, hnil, -⟩
    cases hnil
  | cons c b =>
    have hwhole : Whole (c :: b) ↔ groupReads (sextet c).toNat ≤ b.length := by
      refine ⟨?_, fun hle => ⟨c, b, rfl, hle⟩⟩
      rintro ⟨d, rest, hcons, hle⟩
      cases hcons
      exact hle
    rw [uudecodeline, List.forall_mem_cons, decodeGroups_reads, h.1, hwhole, List.length_cons]
    have hzero : (sextet c).toNat = 0 → groupReads (sextet c).toNat = 0 := fun h => by rw [h]; rfl
    omega

end Lines

section Files

variable {cString : Str → ℕ → UInt8}

lemma uuchar_plain : ∀ n < 64, uuchar n < 128 ∧ uuchar n ≠ 10 := by decide

lemma encodeGroups_plain (data : Bytes) : ∀ c ∈ encodeGroups data, c < 128 ∧ c ≠ 10 := by
  have hgroup (a b d : UInt8) : ∀ c ∈ encodeGroup a b d, c < 128 ∧ c ≠ 10 := by
    have ha := a.toNat_lt
    have hb := b.toNat_lt
    have hd := d.toNat_lt
    simp only [encodeGroup, List.forall_mem_cons]
    refine ⟨uuchar_plain _ (by omega), uuchar_plain _ (by omega), uuchar_plain _ (by omega), uuchar_plain _ (by omega), ?_⟩
    exact fun c hc => absurd hc List.not_mem_nil
  induction data using encodeGroups.induct with
  | case1 a b c rest ih => exact List.forall_mem_append.mpr ⟨hgroup a b c, ih⟩
  | case2 a b => exact hgroup a b 0
  | case3 a => exact hgroup a 0 0
  | case4 => exact fun c hc => absurd hc List.not_mem_nil

lemma encodeLine_plain {data : Bytes} (h : data.length < 64) : ∀ c ∈ encodeLine data, c < 128 ∧ c ≠ 10 :=
  List.forall_mem_cons.mpr ⟨uuchar_plain _ h, encodeGroups_plain data⟩

lemma encodeLines_plain (data : Bytes) : ∀ l ∈ encodeLines data, ∀ c ∈ l, c < 128 ∧ c ≠ 10 := by
  induction data using encodeLines.induct with
  | case1 =>
    rw [encodeLines, dif_pos rfl]
    exact fun l hl => absurd hl List.not_mem_nil
  | case2 data hne ih =>
    rw [encodeLines, dif_neg hne]
    refine List.forall_mem_cons.mpr ⟨encodeLine_plain ?_, ih⟩
    rw [List.length_take]
    omega

/-- A C string of ASCII characters has them in memory. -/
def AsciiCString (cString : Str → ℕ → UInt8) : Prop :=
  ∀ b : Bytes, (∀ c ∈ b, c < 128) → Holds (cString (asciiUnits b)) 0 b

lemma decode_encodeLines (hcString : AsciiCString cString) (data : Bytes) :
    (encodeLines data).flatMap (fun l => (uudecodeline (cString (asciiUnits l))).1) = data := by
  induction data using encodeLines.induct with
  | case1 =>
    rw [encodeLines, dif_pos rfl]
    rfl
  | case2 data hne ih =>
    have hlength : (data.take 45).length < 64 := by
      rw [List.length_take]
      omega
    rw [encodeLines, dif_neg hne, List.flatMap_cons, ih,
      uudecodeline_encodeLine hlength (hcString _ fun c hc => (encodeLine_plain hlength c hc).1), List.take_append_drop]

lemma not_mem_asciiUnits {b : Bytes} {c : UInt8} (h : c ∉ b) : c.toUInt16 ∉ asciiUnits b := by
  intro hc
  obtain ⟨d, hd, heq⟩ := List.mem_map.mp hc
  have hnat := congrArg UInt16.toNat heq
  rw [UInt8.toNat_toUInt16, UInt8.toNat_toUInt16] at hnat
  rw [UInt8.toNat_inj.mp hnat] at hd
  exact h hd

lemma octal_not_mem {mode : ℕ} {c : UInt8} (h : isDigit c = false) : c.toUInt16 ∉ asciiUnits (octal mode) :=
  not_mem_asciiUnits fun hc => by
    rw [octal_isDigit mode c hc] at h
    cases h

/-- The third component of the first line ends at a space of the name. -/
lemma name_component (name : Str) : ∃ aFilename rest, name.splitOn 32 = aFilename :: rest ∧
    (aFilename = name ↔ 32 ∉ name) := by
  by_cases h : (32 : UInt16) ∈ name
  · obtain ⟨l, r, rfl, hl⟩ := List.eq_append_cons_of_mem h
    refine ⟨l, r.splitOn 32, List.splitOn_append_cons_self_of_not_mem hl r, iff_of_false ?_ (not_not_intro h)⟩
    intro heq
    have hlength := congrArg List.length heq
    rw [List.length_append, List.length_cons] at hlength
    omega
  · exact ⟨name, [], List.splitOn_eq_singleton h, iff_of_true rfl h⟩

lemma header_components (name : Str) (mode : ℕ) :
    (asciiUnits (ascii "begin ") ++ asciiUnits (octal mode) ++ 32 :: name).splitOn 32 =
      asciiUnits (ascii "begin") :: asciiUnits (octal mode) :: name.splitOn 32 := by
  have hbegin : asciiUnits (ascii "begin ") ++ asciiUnits (octal mode) ++ 32 :: name =
      asciiUnits (ascii "begin") ++ 32 :: (asciiUnits (octal mode) ++ 32 :: name) := by
    rw [List.append_assoc]
    rfl
  have hspace : (32 : UInt16) ∉ asciiUnits (octal mode) := octal_not_mem (c := 32) rfl
  rw [hbegin, List.splitOn_append_cons_self_of_not_mem (by decide), List.splitOn_append_cons_self_of_not_mem hspace]

lemma uuencoded_lines {name : Str} (hname : (10 : UInt16) ∉ name) (mode : ℕ) (data : Bytes) :
    (uuencoded name mode data).splitOn 10 = (asciiUnits (ascii "begin ") ++ asciiUnits (octal mode) ++ 32 :: name) ::
      (encodeLines data ++ [[96], ascii "end"]).map asciiUnits := by
  refine List.splitOn_intercalate 10 ?_ (List.cons_ne_nil _ _)
  rw [List.forall_mem_cons]
  refine ⟨?_, ?_⟩
  · rw [List.mem_append, List.mem_append, not_or, not_or, List.mem_cons, not_or]
    exact ⟨⟨by decide, octal_not_mem (c := 10) rfl⟩, by decide, hname⟩
  · intro l hl
    obtain ⟨b, hb, rfl⟩ := List.mem_map.mp hl
    refine not_mem_asciiUnits (c := 10) ?_
    rcases List.mem_append.mp hb with hb | hb
    · exact fun hc => (encodeLines_plain data b hb 10 hc).2 rfl
    · have hlast : ∀ b ∈ ([[96], ascii "end"] : List Bytes), 10 ∉ b := by decide
      exact hlast b hb

lemma fileFromUUEncodedString_eq (hcString : AsciiCString cString) {name : Str} (hname : (10 : UInt16) ∉ name) (mode : ℕ)
    (data : Bytes) : ∃ aFilename, fileFromUUEncodedString cString (uuencoded name mode data) =
      some ⟨aFilename, data, intValue (asciiUnits (octal mode))⟩ ∧ (aFilename = name ↔ 32 ∉ name) := by
  obtain ⟨aFilename, rest, hsplit, hiff⟩ := name_component name
  refine ⟨aFilename, ?_, hiff⟩
  have hend : (uudecodeline (cString (asciiUnits [96]))).1 = [] :=
    uudecodeline_encodeLine (show ([] : Bytes).length < 64 by decide) (hcString [96] (forall_mem_of_all (by decide)))
  have hbody : ((((uuencoded name mode data).splitOn 10).take (((uuencoded name mode data).splitOn 10).length - 1)).drop
      1).flatMap (fun l => (uudecodeline (cString l)).1) = data := by
    have hdrop : (((uuencoded name mode data).splitOn 10).take (((uuencoded name mode data).splitOn 10).length - 1)).drop 1 =
        (encodeLines data ++ [[96]]).map asciiUnits := by
      have hsnoc : encodeLines data ++ [[96], ascii "end"] = (encodeLines data ++ [[96]]) ++ [ascii "end"] := by
        rw [List.append_assoc]
        rfl
      rw [uuencoded_lines hname, ← List.dropLast_eq_take, hsnoc, List.map_append, List.map_singleton, ← List.cons_append,
        List.dropLast_concat]
      rfl
    rw [hdrop, List.flatMap_map, List.flatMap_append, decode_encodeLines hcString, List.flatMap_singleton, hend,
      List.append_nil]
  rw [fileFromUUEncodedString]
  simp only [hbody]
  rw [uuencoded_lines hname]
  simp only [List.getElem?_cons_zero, Option.bind_eq_bind, Option.bind_some, header_components, hsplit]
  rfl

/-- What uuencoding makes of a file comes back where the mode has one octal digit and the name has no space; a line is
read within its bounds where it has the bytes of its length. -/
theorem fileFromUUEncodedString_iff (cString : Str → ℕ → UInt8) (hcString : AsciiCString cString) :
    (∀ (name : Str) (mode : ℕ) (data : Bytes), (10 : UInt16) ∉ name → mode < 8 ^ 4 →
      (fileFromUUEncodedString cString (uuencoded name mode data) = some ⟨name, data, mode⟩ ↔ 32 ∉ name ∧ mode < 8)) ∧
    ∀ (b : Bytes) (line : ℕ → UInt8), Holds line 0 b → ((∀ i ∈ (uudecodeline line).2, i < b.length) ↔ Whole b) := by
  refine ⟨fun name mode data hname hmode => ?_, fun b line h => uudecodeline_reads h⟩
  obtain ⟨aFilename, heq, hiff⟩ := fileFromUUEncodedString_eq hcString hname mode data
  rw [heq, Option.some_inj, UUFile.mk.injEq, ← hiff, ← intValue_octal hmode]
  exact and_congr_right fun _ => and_iff_right rfl

/-- The characters of a string, and null bytes behind them. -/
def lowBytes (w : Str) (i : ℕ) : UInt8 := (w.map UInt16.toUInt8).getD i 0

lemma holds_getD (b c : Bytes) : Holds (fun i => (b ++ c).getD i 0) b.length c := by
  induction c generalizing b with
  | nil => trivial
  | cons x c ih =>
    refine ⟨?_, ?_⟩
    · simp
    · have hnext := ih (b ++ [x])
      rw [List.append_assoc, List.length_append, List.length_singleton] at hnext
      exact hnext

lemma lowBytes_ascii : AsciiCString lowBytes := by
  intro b _
  have hsame : (asciiUnits b).map UInt16.toUInt8 = b := by
    rw [asciiUnits, List.map_map]
    exact (List.map_congr_left fun c _ => UInt8.toUInt8_toUInt16 c).trans (List.map_id b)
  have h := holds_getD [] b
  rw [List.nil_append] at h
  unfold lowBytes
  rw [hsame]
  exact h

theorem fileFromUUEncodedString_lowBytes :
    (fileFromUUEncodedString lowBytes (uuencoded (asciiUnits (ascii "notes.txt")) 6 [104, 105]) =
        some ⟨asciiUnits (ascii "notes.txt"), [104, 105], (6 : ℕ)⟩ ↔
      32 ∉ asciiUnits (ascii "notes.txt") ∧ 6 < 8) ∧
    ((∀ i ∈ (uudecodeline fun i => (ascii "\"a").getD i 0).2, i < (ascii "\"a").length) ↔ Whole (ascii "\"a")) := by
  have hiff := fileFromUUEncodedString_iff lowBytes lowBytes_ascii
  exact ⟨hiff.1 _ 6 [104, 105] (by decide) (by decide), hiff.2 _ _ ⟨rfl, rfl, trivial⟩⟩

/-- The mode `644`, and an empty line. -/
theorem not_fileFromUUEncodedString :
    (¬∀ (name : Str) (mode : ℕ) (data : Bytes), (10 : UInt16) ∉ name → mode < 8 ^ 4 →
      fileFromUUEncodedString lowBytes (uuencoded name mode data) = some ⟨name, data, mode⟩) ∧
    ¬∀ (b : Bytes) (line : ℕ → UInt8), Holds line 0 b → ∀ i ∈ (uudecodeline line).2, i < b.length := by
  refine ⟨fun h => ?_, fun h => absurd (h [] (fun _ => 0) trivial 0 List.mem_cons_self) (Nat.not_lt_zero 0)⟩
  have hmode := h (asciiUnits (ascii "notes.txt")) 420 [] (by decide) (by decide)
  obtain ⟨aFilename, heq, -⟩ := fileFromUUEncodedString_eq lowBytes_ascii
    (show (10 : UInt16) ∉ asciiUnits (ascii "notes.txt") by decide) 420 []
  rw [heq, Option.some_inj, UUFile.mk.injEq, intValue_octal (by decide)] at hmode
  exact absurd hmode.2.2 (by decide)

end Files

end Xperimentum.Pantomime.UUFile
