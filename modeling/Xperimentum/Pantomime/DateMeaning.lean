import Xperimentum.Pantomime.DateHeader
import Xperimentum.Pantomime.Numerals

/-! A `date-time` of a Date header as it is written, the date that it denotes, and where `parseDate:inMessage:` keeps it. -/

namespace Xperimentum.Pantomime.DateHeader

open Lib.Byte Lib.Int32

structure Number where
  digits : Bytes
  ne_nil : digits ≠ []
  isDigits : ∀ c ∈ digits, isDigit c = true

def Number.value (n : Number) : ℕ := decimal n.digits

structure TwoDigit extends Number where
  two : digits.length = 2

structure Gap where
  space : Bytes
  ne_nil : space ≠ []
  isSpaces : ∀ c ∈ space, isSpace c = true

def dayName : List String := ["mon", "tue", "wed", "thu", "fri", "sat", "sun"]

/-- A day of the week, with the comma and the white space behind it. -/
structure DayOfWeek where
  name : Bytes
  isName : name.map lower ∈ dayName.map ascii
  space : Bytes
  isSpaces : ∀ c ∈ space, isSpace c = true

structure Month where
  name : Bytes
  number : Fin 12
  isName : name.map lower = ascii (monthName.get number)

inductive Zone
  | offset (sign : UInt8) (isSign : sign = 43 ∨ sign = 45) (hours mins : TwoDigit) (hmins : mins.value < 60)
  | named (name : Bytes) (entry : String × ℤ) (isEntry : entry ∈ timezoneInfo) (isName : name.map lower = ascii entry.1)

def Zone.text : Zone → Bytes
  | .offset sign _ hours mins _ => sign :: (hours.digits ++ mins.digits)
  | .named name _ _ _ => name

/-- Seconds east of GMT. -/
def Zone.seconds : Zone → ℤ
  | .offset sign _ hours mins _ => (if sign = 45 then -1 else 1) * (hours.value * 3600 + mins.value * 60)
  | .named _ entry _ _ => entry.2

/-- What is behind the zone starts with white space or with a comment. -/
structure DateTime where
  start : Bytes
  isStart : ∀ c ∈ start, isSpace c = true
  dayOfWeek : Option DayOfWeek
  day : Number
  isDay : day.digits.length ≤ 2 ∧ 1 ≤ day.value ∧ day.value ≤ 31
  gap₁ : Gap
  month : Month
  gap₂ : Gap
  year : Number
  isYear : 4 ≤ year.digits.length ∧ 1900 ≤ year.value
  gap₃ : Gap
  hour : TwoDigit
  isHour : hour.value < 24
  minute : TwoDigit
  isMinute : minute.value < 60
  second : Option TwoDigit
  isSecond : ∀ s ∈ second, s.value ≤ 60
  gap₄ : Gap
  zone : Zone
  rest : Bytes
  isRest : ∀ c ∈ rest.head?, isSpace c = true ∨ c = 40

namespace DateTime

variable (d : DateTime)

def timeOfDay : Bytes :=
  d.hour.digits ++ 58 :: (d.minute.digits ++ (d.second.map fun s => 58 :: s.digits).getD [])

def fromMonth : Bytes :=
  d.gap₁.space ++ (d.month.name ++ (d.gap₂.space ++ (d.year.digits ++ (d.gap₃.space ++ (d.timeOfDay ++
    (d.gap₄.space ++ (d.zone.text ++ d.rest)))))))

def text : Bytes :=
  (d.dayOfWeek.map fun w => w.name ++ 44 :: w.space).getD [] ++ (d.day.digits ++ d.fromMonth)

def line : Bytes := ascii "Date:" ++ (d.start ++ d.text)

def date : Date where
  year := d.year.value
  month := d.month.number + 1
  day := d.day.value
  hour := d.hour.value
  minute := d.minute.value
  second := (d.second.map fun s => (s.value : ℤ)).getD 0
  timeZone := d.zone.seconds

/-- The zone with what is right behind it. -/
def zoneWord : Bytes := d.zone.text ++ d.rest.takeWhile fun c => !isSeparator c

end DateTime

section Numbers

variable {t : Bytes} {c : UInt8}

lemma Number.value_lt (n : Number) : n.value < 10 ^ n.digits.length := decimal_lt n.isDigits

lemma TwoDigit.value_lt (n : TwoDigit) : n.value < 100 := by
  have h := n.toNumber.value_lt
  rw [n.two] at h
  exact h

lemma Number.atoi_digits (n : Number) : atoi n.digits = wrap32 (min (2 ^ 63 - 1) n.value) := by
  have h := Pantomime.atoi_digits [] n.isDigits n.ne_nil fun c hc => by cases hc
  rwa [List.append_nil] at h

lemma scanInt_digits (rest : Bytes) (h : ∀ c ∈ t, isDigit c = true) (hne : t ≠ []) (hrest : ∀ c ∈ rest.head?, isDigit c = false)
    (hsmall : decimal t < 2 ^ 31) : scanInt (t ++ rest) = some ((decimal t : ℤ), rest) := by
  have hatoi := atoi_small rest h hne hrest hsmall
  have htake := takeWhile_digits rest h hrest
  obtain ⟨c, t, rfl⟩ := List.exists_cons_of_ne_nil hne
  have hc := h c List.mem_cons_self
  have hspace : (c :: t ++ rest).dropWhile isSpace = c :: t ++ rest :=
    List.dropWhile_cons_of_neg (by rw [not_space_of_digit hc]; decide)
  have hminus : c ≠ 45 := by
    rintro rfl
    cases hc
  have hplus : c ≠ 43 := by
    rintro rfl
    cases hc
  simp only [scanInt, hspace]
  split
  · rename_i heq
    exact absurd (List.cons.inj heq).1 hminus
  · rename_i heq
    exact absurd (List.cons.inj heq).1 hplus
  · rw [htake.1, htake.2, if_neg (List.cons_ne_nil c t), hatoi]

end Numbers

section Names

variable {name : Bytes} {s : String}

lemma alpha_of_lower (c : UInt8) : isAlpha (lower c) = true → isAlpha c = true :=
  forall_byte (P := fun c => isAlpha (lower c) = true → isAlpha c = true) (by decide) c

lemma not_separator_of_alpha (c : UInt8) : isAlpha c = true → isSeparator c = false :=
  forall_byte (P := fun c => isAlpha c = true → isSeparator c = false) (by decide) c

lemma name_alpha (hs : ∀ c ∈ ascii s, isAlpha c = true) (h : name.map lower = ascii s) : ∀ c ∈ name, isAlpha c = true := by
  intro c hc
  apply alpha_of_lower
  apply hs
  rw [← h]
  exact List.mem_map_of_mem hc

lemma name_isWord (hne : ascii s ≠ []) (hs : ∀ c ∈ ascii s, isAlpha c = true) (h : name.map lower = ascii s) : IsWord name := by
  refine ⟨?_, fun c hc => not_separator_of_alpha c (name_alpha hs h c hc)⟩
  rintro rfl
  exact hne h.symm

lemma month_alpha (m : Fin 12) : ∀ c ∈ ascii (monthName.get m), isAlpha c = true := by
  have hall : ∀ m : Fin 12, (ascii (monthName.get m)).all isAlpha = true := by decide
  exact List.all_eq_true.mp (hall m)

lemma month_length (m : Fin 12) : (ascii (monthName.get m)).length = 3 := by
  revert m
  decide

lemma zone_alpha (entry : String × ℤ) (h : entry ∈ timezoneInfo) :
    ascii entry.1 ≠ [] ∧ ∀ c ∈ ascii entry.1, isAlpha c = true := by
  have hall : ∀ entry ∈ timezoneInfo, ascii entry.1 ≠ [] ∧ (ascii entry.1).all isAlpha = true := by decide
  exact (hall entry h).imp_right List.all_eq_true.mp

lemma day_alpha (s : String) (h : s ∈ dayName) : (ascii s).length = 3 ∧ ∀ c ∈ ascii s, isAlpha c = true := by
  have hall : ∀ s ∈ dayName, (ascii s).length = 3 ∧ (ascii s).all isAlpha = true := by decide
  exact (hall s h).imp_right List.all_eq_true.mp

lemma Month.length (m : Month) : m.name.length = 3 := by
  have h := congrArg List.length m.isName
  rwa [List.length_map, month_length] at h

lemma Month.isWord (m : Month) : IsWord m.name := by
  refine name_isWord ?_ (month_alpha m.number) m.isName
  have h := month_length m.number
  intro hnil
  rw [hnil] at h
  cases h

lemma Month.alpha (m : Month) : ∀ c ∈ m.name, isAlpha c = true := name_alpha (month_alpha m.number) m.isName

lemma Month.monthOf_name (m : Month) : monthOf m.name = some ((m.number : ℤ) + 1) := by
  have htake : m.name.take 3 = m.name := List.take_of_length_le m.length.le
  have hall : ∀ k : Fin 12, ((monthName.zipIdx.filter fun m => decide (ascii (monthName.get k) = ascii m.1)).getLast?).map
      (fun m => (m.2 : ℤ) + 1) = some ((k : ℤ) + 1) := by
    decide
  rw [monthOf, htake, m.isName]
  exact hall m.number

lemma monthOf_digit {c : UInt8} {w : Bytes} (hc : isDigit c = true) : monthOf (c :: w) = none := by
  have hlower : isDigit (lower c) = true := by
    revert hc
    exact forall_byte (P := fun c => isDigit c = true → isDigit (lower c) = true) (by decide) c
  have hall : ∀ m ∈ monthName.zipIdx, (ascii m.1).head?.any isDigit = false := by decide
  have hnil : (monthName.zipIdx.filter fun m => decide (((c :: w).take 3).map lower = ascii m.1)) = [] := by
    refine List.filter_eq_nil_iff.mpr fun m hm h => ?_
    have hfirst := hall m hm
    rw [← of_decide_eq_true h, List.take_succ_cons, List.map_cons, List.head?_cons, Option.any_some] at hfirst
    rw [hfirst] at hlower
    cases hlower
  rw [monthOf, hnil]
  rfl

end Names

section Words

variable {d : DateTime} {g : Garbage} {w s b : Bytes} {word : Buffer}

lemma not_separator_of_digit (c : UInt8) : isDigit c = true → isSeparator c = false :=
  forall_byte (P := fun c => isDigit c = true → isSeparator c = false) (by decide) c

lemma isWord_digits (hne : w ≠ []) (h : ∀ c ∈ w, isDigit c = true) : IsWord w :=
  ⟨hne, fun c hc => not_separator_of_digit c (h c hc)⟩

lemma separator_of_space {c : UInt8} (h : isSpace c = true) : isSeparator c = true := by
  rw [isSeparator, h]
  rfl

lemma words_gap (hw : IsWord w) (gap : Gap) (b : Bytes) : words (w ++ (gap.space ++ b)) = w :: words b := by
  obtain ⟨c, space, hspace⟩ := List.exists_cons_of_ne_nil gap.ne_nil
  have hsep : ∀ e ∈ c :: space, isSeparator e = true := by
    intro e he
    rw [← hspace] at he
    exact separator_of_space (gap.isSpaces e he)
  rw [hspace, words_word hw fun e he => hsep e (by
    rw [List.cons_append, List.head?_cons, Option.mem_def, Option.some.injEq] at he
    rw [← he]
    exact List.mem_cons_self)]
  exact congrArg (w :: ·) (words_separators (fun e he => hsep e (List.mem_cons_of_mem c he)) b)

namespace DateTime

lemma timeOfDay_isWord (d : DateTime) : IsWord d.timeOfDay := by
  refine ⟨fun h => ?_, fun c hc => ?_⟩
  · have hlength := congrArg List.length h
    rw [timeOfDay, List.length_append, List.length_cons] at hlength
    exact absurd hlength (by simp)
  · have hcolon : isSeparator 58 = false := by decide
    rw [timeOfDay] at hc
    rcases List.mem_append.mp hc with hc | hc
    · exact not_separator_of_digit c (d.hour.isDigits c hc)
    · rcases List.mem_cons.mp hc with rfl | hc
      · exact hcolon
      · rcases List.mem_append.mp hc with hc | hc
        · exact not_separator_of_digit c (d.minute.isDigits c hc)
        · cases hsecond : d.second with
          | none =>
            rw [hsecond] at hc
            cases hc
          | some s =>
            rw [hsecond] at hc
            rcases List.mem_cons.mp hc with rfl | hc
            · exact hcolon
            · exact not_separator_of_digit c (s.isDigits c hc)

lemma zone_isWord (z : Zone) : IsWord z.text := by
  cases z with
  | offset sign isSign hours mins _ =>
    refine ⟨List.cons_ne_nil _ _, fun c hc => ?_⟩
    rcases List.mem_cons.mp hc with rfl | hc
    · rcases isSign with rfl | rfl
      · decide
      · decide
    · rcases List.mem_append.mp hc with hc | hc
      · exact not_separator_of_digit c (hours.isDigits c hc)
      · exact not_separator_of_digit c (mins.isDigits c hc)
  | named name entry isEntry isName =>
    obtain ⟨hne, halpha⟩ := zone_alpha entry isEntry
    exact name_isWord hne halpha isName

lemma zoneWord_isWord (d : DateTime) : IsWord d.zoneWord := by
  have hzone := zone_isWord d.zone
  refine ⟨fun h => hzone.ne_nil (List.append_eq_nil_iff.mp h).1, fun c hc => ?_⟩
  rcases List.mem_append.mp hc with hc | hc
  · exact hzone.inner c hc
  · simpa using List.mem_takeWhile_imp hc

lemma words_zone (d : DateTime) : ∃ more, words (d.zone.text ++ d.rest) = d.zoneWord :: more := by
  have hsplit := List.takeWhile_append_dropWhile (p := fun c => !isSeparator c) (l := d.rest)
  have hlast := List.head?_dropWhile_not (fun c => !isSeparator c) d.rest
  refine ⟨words (d.rest.dropWhile fun c => !isSeparator c).tail, ?_⟩
  rw [← words_word d.zoneWord_isWord fun c hc => ?_, zoneWord, List.append_assoc, hsplit]
  rw [Option.mem_def.mp hc] at hlast
  simpa using hlast

lemma gap_separators (gap : Gap) (b : Bytes) : words (gap.space ++ b) = words b :=
  words_separators (fun c hc => separator_of_space (gap.isSpaces c hc)) b

lemma words_fromMonth (d : DateTime) : ∃ more, words d.fromMonth =
    d.month.name :: d.year.digits :: d.timeOfDay :: d.zoneWord :: more := by
  obtain ⟨more, hmore⟩ := d.words_zone
  refine ⟨more, ?_⟩
  rw [fromMonth, gap_separators, words_gap d.month.isWord, words_gap (isWord_digits d.year.ne_nil d.year.isDigits),
    words_gap d.timeOfDay_isWord, hmore]

lemma words_day (d : DateTime) (hw : IsWord w) : words (w ++ d.fromMonth) = w :: words d.fromMonth := by
  rw [fromMonth, words_gap hw, gap_separators]

end DateTime

end Words

section Reading

variable {d : DateTime} {g : Garbage} {w s : Bytes} {word : Buffer}

lemma ne_zero_of_digit {c : UInt8} (h : isDigit c = true) : c ≠ 0 := by
  rintro rfl
  cases h

lemma ne_zero_of_alpha {c : UInt8} (h : isAlpha c = true) : c ≠ 0 := by
  rintro rfl
  cases h

/-- What is made of a zone. -/
def Zone.read : Zone → ℤ
  | .offset sign _ hours mins _ => (if sign = 45 then -1 else 1) * (hours.value * 3600 + mins.value)
  | .named _ _ _ _ => 0

lemma TwoDigit.exists_digits (n : TwoDigit) : ∃ a b, n.digits = [a, b] ∧ isDigit a = true ∧ isDigit b = true ∧
    (n.value : ℤ) = ((a.toNat : ℤ) - 48) * 10 + ((b.toNat : ℤ) - 48) := by
  obtain ⟨a, b, hab⟩ := List.length_eq_two.mp n.two
  have ha : isDigit a = true := n.isDigits a (by simp [hab])
  have hb : isDigit b = true := n.isDigits b (by simp [hab])
  refine ⟨a, b, hab, ha, hb, ?_⟩
  have hvalue : n.value = 10 * (a.toNat - 48) + (b.toNat - 48) := by
    rw [Number.value, hab, decimal]
    simp
  have ha' := isDigit_bounds ha
  have hb' := isDigit_bounds hb
  omega

lemma offsetOf_digits {a b e f : UInt8} (ha : isDigit a = true) (hb : isDigit b = true) (he : isDigit e = true) (t : Bytes) :
    offsetOf (a :: b :: e :: f :: t) = some (((a.toNat : ℤ) - 48) * 36000 + ((b.toNat : ℤ) - 48) * 3600 +
      ((e.toNat : ℤ) - 48) * 10 + ((f.toNat : ℤ) - 48)) := by
  have htwo : (cString (a :: b :: e :: f :: t)).length ≠ 2 := by
    simp [cString, ne_zero_of_digit ha, ne_zero_of_digit hb, ne_zero_of_digit he]
  change (if isDigit a = true then _ else _) = _
  rw [if_pos ha, if_neg htwo]
  rfl

lemma zone_read (hword : word.bytes = d.zoneWord ++ 0 :: s) : zone word = some d.zone.read := by
  rw [zone_eq d.zoneWord_isWord hword, DateTime.zoneWord]
  cases hzone : d.zone with
  | offset c isSign hours mins _ =>
    obtain ⟨h₁, h₂, hh, hh₁, hh₂, hhours⟩ := hours.exists_digits
    obtain ⟨m₁, m₂, hm, hm₁, -, hmins⟩ := mins.exists_digits
    have hunsigned : unsigned ((Zone.offset c isSign hours mins ‹_›).text ++ d.rest.takeWhile fun c => !isSeparator c) =
        h₁ :: h₂ :: m₁ :: m₂ :: d.rest.takeWhile fun c => !isSeparator c := by
      rw [Zone.text, hh, hm, unsigned, if_pos]
      · rfl
      · rcases isSign with rfl | rfl
        · exact .inr rfl
        · exact .inl rfl
    rw [hunsigned, List.cons_append, List.cons_append, List.cons_append, List.cons_append, offsetOf_digits hh₁ hh₂ hm₁,
      Option.map_some, Zone.read, hhours, hmins]
    have hsign : sign ((Zone.offset c isSign hours mins ‹_›).text ++ d.rest.takeWhile fun c => !isSeparator c) =
        if c = 45 then -1 else 1 := by
      rcases isSign with rfl | rfl
      · rfl
      · rfl
    rw [hsign]
    apply congrArg some
    ring
  | named name entry isEntry isName =>
    obtain ⟨hne, halpha⟩ := zone_alpha entry isEntry
    obtain ⟨c, t, rfl⟩ := List.exists_cons_of_ne_nil (name_isWord hne halpha isName).ne_nil
    have hc : isAlpha c = true := name_alpha halpha isName c List.mem_cons_self
    have hdigit : isDigit c = false :=
      forall_byte (P := fun c => isAlpha c = true → isDigit c = false) (by decide) c hc
    have hminus : c ≠ 45 := by
      rintro rfl
      cases hc
    have hplus : c ≠ 43 := by
      rintro rfl
      cases hc
    have hhead (e : UInt8) (he : c ≠ e) (u : Bytes) : (c :: t ++ u).head? ≠ some e :=
      fun h => he (Option.some.inj h)
    rw [Zone.text, sign, if_neg (hhead 45 hminus _), if_neg (hhead 43 hplus _), unsigned,
      if_neg (not_or.mpr ⟨hhead 45 hminus _, hhead 43 hplus _⟩), Zone.read]
    have hoffset : offsetOf (c :: t ++ (d.rest.takeWhile fun c => !isSeparator c) ++ 0 :: s) =
        some (zoneOffset (cString (c :: t ++ (d.rest.takeWhile fun c => !isSeparator c) ++ 0 :: s))) := by
      change (if isDigit c = true then _ else _) = _
      rw [if_neg (by rw [hdigit]; decide)]
      rfl
    rw [hoffset]
    exact congrArg some (zero_mul _)

lemma cString_word (h : ∀ c ∈ w, c ≠ 0) (hword : word.bytes = w ++ 0 :: s) : cString word.bytes = w := by
  rw [hword, cString_nul]
  exact List.takeWhile_eq_self_iff.mpr fun c hc => decide_eq_true (h c hc)

lemma scanTime_eq (d : DateTime) (g : Garbage) : scanTime g d.timeOfDay =
    ((d.hour.value : ℤ), (d.minute.value : ℤ), (d.second.map fun s => (s.value : ℤ)).getD g.secs) := by
  have hsmall (n : TwoDigit) : decimal n.digits < 2 ^ 31 := n.value_lt.trans (by decide)
  have hhour := scanInt_digits (58 :: (d.minute.digits ++ (d.second.map fun s => 58 :: s.digits).getD []))
    d.hour.isDigits d.hour.ne_nil (fun c hc => by cases hc; decide) (hsmall d.hour)
  rw [scanTime, DateTime.timeOfDay, hhour]
  cases hsecond : d.second with
  | none =>
    have hminute := scanInt_digits [] d.minute.isDigits d.minute.ne_nil (fun c hc => by cases hc)
      (hsmall d.minute)
    simp only [Option.map_none, Option.getD_none, hminute]
    rfl
  | some n =>
    have hminute := scanInt_digits (58 :: n.digits) d.minute.isDigits d.minute.ne_nil
      (fun c hc => by cases hc; decide) (hsmall d.minute)
    have hlast := scanInt_digits [] n.isDigits n.ne_nil (fun c hc => by cases hc) (hsmall n)
    rw [List.append_nil] at hlast
    simp only [Option.map_some, Option.getD_some, hminute, hlast]
    rfl

/-- The date that is stored, for a day that may have been read wrongly. -/
def DateTime.stored (d : DateTime) (g : Garbage) (day : ℤ) : Date where
  year := fullYear (atoi d.year.digits)
  month := d.month.number + 1
  day := day
  hour := d.hour.value
  minute := d.minute.value
  second := (d.second.map fun s => (s.value : ℤ)).getD g.secs
  timeZone := d.zone.read

/-- The words fit the buffer. -/
def DateTime.Fits (d : DateTime) : Prop := d.year.digits.length < 256 ∧ d.zoneWord.length < 256

lemma timeOfDay_length (d : DateTime) : d.timeOfDay.length < 256 := by
  rw [DateTime.timeOfDay, List.length_append, List.length_cons, List.length_append, d.hour.two, d.minute.two]
  cases d.second with
  | none => decide
  | some s =>
    rw [Option.map_some, Option.getD_some, List.length_cons, s.two]
    decide

lemma timeOfDay_ne_zero (d : DateTime) : ∀ c ∈ d.timeOfDay, c ≠ 0 := by
  intro c hc
  rw [DateTime.timeOfDay] at hc
  rcases List.mem_append.mp hc with hc | hc
  · exact ne_zero_of_digit (d.hour.isDigits c hc)
  · rcases List.mem_cons.mp hc with rfl | hc
    · decide
    · rcases List.mem_append.mp hc with hc | hc
      · exact ne_zero_of_digit (d.minute.isDigits c hc)
      · cases hsecond : d.second with
        | none =>
          rw [hsecond] at hc
          cases hc
        | some s =>
          rw [hsecond] at hc
          rcases List.mem_cons.mp hc with rfl | hc
          · decide
          · exact ne_zero_of_digit (s.isDigits c hc)

lemma parseZone_read {bytes : Bytes} {i : ℕ} {more : List Bytes} (h : words (bytes.drop i) = d.zoneWord :: more)
    (hfits : d.zoneWord.length < 256) : parseZone bytes i word = some d.zone.read :=
  withWord_eq h hfits fun _ _ hword _ => zone_read hword

lemma Number.cString_word (n : Number) (hword : word.bytes = n.digits ++ 0 :: s) : cString word.bytes = n.digits :=
  DateHeader.cString_word (fun c hc => ne_zero_of_digit (n.isDigits c hc)) hword

section From

variable {bytes : Bytes} {i : ℕ} {more : List Bytes}
  (h : words (bytes.drop i) = d.month.name :: d.year.digits :: d.timeOfDay :: d.zoneWord :: more)
include h

lemma parseFrom_month {o : Option (Option Date)} (ho : ∀ j word',
    words (bytes.drop j) = d.year.digits :: d.timeOfDay :: d.zoneWord :: more →
    (withWord none bytes j word' fun i word₁ => withWord none bytes i word₁ fun i word₂ =>
      (parseZone bytes i word₂).map fun tz => some ⟨fullYear (atoi (cString word₁.bytes)), d.month.number + 1,
        atoi (cString word.bytes), (scanTime g (cString word₂.bytes)).1, (scanTime g (cString word₂.bytes)).2.1,
        (scanTime g (cString word₂.bytes)).2.2, tz⟩) = o) : parseFrom g bytes i word = o := by
  rw [parseFrom]
  refine withWord_eq h (by rw [d.month.length]; decide) fun j word' hword hws => ?_
  rw [cString_word (fun c hc => ne_zero_of_alpha (d.month.alpha c hc)) hword, d.month.monthOf_name]
  exact ho j word' hws

lemma parseFrom_stored (hfits : d.Fits) :
    parseFrom g bytes i word = some (some (d.stored g (atoi (cString word.bytes)))) := by
  refine parseFrom_month h fun j word₁ hws => ?_
  refine withWord_eq hws hfits.1 fun k word₂ hword₂ hws => ?_
  refine withWord_eq hws (timeOfDay_length d) fun l word₃ hword₃ hws => ?_
  rw [parseZone_read hws hfits.2, d.year.cString_word hword₂, cString_word (timeOfDay_ne_zero d) hword₃, scanTime_eq]
  rfl

lemma parseFrom_long (hlong : ¬d.Fits) : parseFrom g bytes i word = none := by
  refine parseFrom_month h fun j word₁ hws => ?_
  by_cases hyear : d.year.digits.length < 256
  · refine withWord_eq hws hyear fun k word₂ _ hws => ?_
    refine withWord_eq hws (timeOfDay_length d) fun l word₃ _ hws => ?_
    rw [parseZone, withWord_long hws fun hzone => hlong ⟨hyear, hzone⟩]
    rfl
  · exact withWord_long hws hyear

end From

lemma words_ne_nil {b : Bytes} (h : words b ≠ []) : b ≠ [] := by
  rintro rfl
  exact h rfl

section Line

variable {theLine t w : Bytes} {n : Option Bytes} {ws : List Bytes} {o : Option (Option Date)}

lemma line_length (h : words (theLine.drop 6) ≠ []) : 6 < theLine.length := by
  have hpos := List.length_pos_of_ne_nil (words_ne_nil h)
  rw [List.length_drop] at hpos
  omega

lemma head_word {s : Bytes} (hw : w ≠ []) (hword : word.bytes = w ++ 0 :: s) : word.bytes.head? = w.head? := by
  rw [hword, List.head?_append_of_ne_nil w hw]

lemma parseDate_skip (hwords : words (theLine.drop 6) = w :: ws) (hlength : w.length < 256)
    (halpha : ∃ c ∈ w.head?, isAlpha c = true)
    (ho : ∀ j word', words ((theLine.drop 6).drop j) = ws →
      withWord none (theLine.drop 6) j word' (parseFrom g (theLine.drop 6)) = o) : parseDate g theLine = o := by
  obtain ⟨hw, -⟩ := withWord_cons (none : Option Date) (fun _ _ => none) g.word hwords
  rw [parseDate, if_pos (line_length (by rw [hwords]; exact List.cons_ne_nil w ws))]
  refine withWord_eq hwords hlength fun j word' hword hws => ?_
  rw [head_word hw.ne_nil hword, if_pos halpha]
  exact ho j word' hws

lemma parseDate_from (hwords : words (theLine.drop 6) = n.toList ++ t :: ws)
    (hn : ∀ w ∈ n, w.length < 256 ∧ ∃ c ∈ w.head?, isAlpha c = true) (ht : t.length < 256)
    (halpha : ¬∃ c ∈ t.head?, isAlpha c = true)
    (ho : ∀ j word' s, word'.bytes = t ++ 0 :: s → words ((theLine.drop 6).drop j) = ws →
      parseFrom g (theLine.drop 6) j word' = o) : parseDate g theLine = o := by
  cases n with
  | none =>
    obtain ⟨hw, -⟩ := withWord_cons (none : Option Date) (fun _ _ => none) g.word hwords
    rw [parseDate, if_pos (line_length (by rw [hwords]; exact List.cons_ne_nil t ws))]
    refine withWord_eq hwords ht fun j word' hword hws => ?_
    rw [head_word hw.ne_nil hword, if_neg halpha]
    exact ho j word' _ hword hws
  | some w =>
    refine parseDate_skip hwords (hn w rfl).1 (hn w rfl).2 fun j word' hws => ?_
    exact withWord_eq hws ht fun k word₂ hword₂ hws => ho k word₂ _ hword₂ hws

end Line

end Reading

section Meaning

variable (d : DateTime)

/-- Whole hours, or a name for the time of Greenwich. -/
def Zone.Whole : Zone → Prop
  | .offset _ _ _ mins _ => mins.value = 0
  | .named _ entry _ _ => entry.2 = 0

/-- The first byte behind the name of the header is not one that the day needs. -/
def DateTime.Starts : Prop := d.start ≠ [] ∨ d.dayOfWeek ≠ none ∨ ∃ c, d.day.digits = [48, c]

/-- Where the date is the one that the header gives. -/
structure DateTime.Kept : Prop where
  starts : d.Starts
  second : d.second ≠ none
  whole : d.zone.Whole
  year : d.year.value < 2 ^ 31
  fits : d.Fits

lemma read_eq_seconds (z : Zone) : z.read = z.seconds ↔ z.Whole := by
  cases z with
  | offset c isSign hours mins _ =>
    rw [Zone.read, Zone.seconds, Zone.Whole]
    split_ifs
    · omega
    · omega
  | named name entry isEntry isName => exact eq_comm

lemma fullYear_eq (n : Number) (h : 1900 ≤ n.value) : fullYear (atoi n.digits) = n.value ↔ n.value < 2 ^ 31 := by
  rw [n.atoi_digits]
  by_cases hsmall : n.value < 2 ^ 31
  · refine iff_of_true ?_ hsmall
    rw [min_eq_right (by omega), wrap32_of_mem (by omega) (by omega), fullYear, if_neg (by omega)]
    exact if_neg (by omega)
  · refine iff_of_false ?_ hsmall
    have hupper := wrap32_upper (min (2 ^ 63 - 1) (n.value : ℤ))
    rw [fullYear]
    split_ifs <;> omega

lemma stored_eq (h : ∀ g, d.stored g d.day.value = d.date) : d.second ≠ none ∧ d.zone.Whole ∧ d.year.value < 2 ^ 31 := by
  refine ⟨?_, ?_, ?_⟩
  · intro hnone
    have hsecond := congrArg Date.second (h ⟨zeros.word, 0, 0, 1⟩)
    rw [DateTime.stored, DateTime.date, hnone] at hsecond
    cases hsecond
  · exact (read_eq_seconds d.zone).mp (congrArg Date.timeZone (h zeros))
  · exact (fullYear_eq d.year d.isYear.2).mp (congrArg Date.year (h zeros))

lemma stored_of_kept (h : d.Kept) (g : Garbage) : d.stored g d.day.value = d.date := by
  have hsecond := h.second
  have hzone := (read_eq_seconds d.zone).mpr h.whole
  have hyear := (fullYear_eq d.year d.isYear.2).mpr h.year
  rw [DateTime.stored, DateTime.date, hzone, hyear]
  cases hs : d.second with
  | none => exact absurd hs hsecond
  | some s => rfl

lemma line_drop : d.line.drop 6 = (d.start ++ d.text).tail := by
  rw [← List.drop_one]
  rfl

lemma DayOfWeek.alpha (w : DayOfWeek) : w.name.length = 3 ∧ ∀ c ∈ w.name, isAlpha c = true := by
  obtain ⟨s, hs, heq⟩ := List.mem_map.mp w.isName
  obtain ⟨hlength, halpha⟩ := day_alpha s hs
  have hmap := congrArg List.length heq
  rw [List.length_map] at hmap
  exact ⟨by rw [← hmap, hlength], name_alpha halpha heq.symm⟩

lemma words_dayOfWeek {w : Bytes} (hw : IsWord w) (day : DayOfWeek) :
    words (w ++ (44 :: day.space) ++ (d.day.digits ++ d.fromMonth)) = w :: d.day.digits :: words d.fromMonth := by
  have hcomma : ∀ c ∈ ((44 :: day.space) ++ (d.day.digits ++ d.fromMonth)).head?, isSeparator c = true := by
    intro c hc
    cases hc
    decide
  rw [List.append_assoc, words_word hw hcomma]
  change w :: words (day.space ++ _) = _
  rw [words_separators fun c hc => separator_of_space (day.isSpaces c hc),
    d.words_day (isWord_digits d.day.ne_nil d.day.isDigits)]

/-- The word that is skipped, and that of the day. -/
lemma words_line (h : d.Starts) : ∃ n t, words (d.line.drop 6) = Option.toList n ++ t :: words d.fromMonth ∧
    (∀ w ∈ n, w.length < 256 ∧ ∃ c ∈ w.head?, isAlpha c = true) ∧ t ≠ [] ∧ t.length ≤ 2 ∧
    (∀ c ∈ t, isDigit c = true) ∧ decimal t = d.day.value := by
  have hday : d.day.digits ≠ [] ∧ d.day.digits.length ≤ 2 ∧ (∀ c ∈ d.day.digits, isDigit c = true) ∧
      decimal d.day.digits = d.day.value := ⟨d.day.ne_nil, d.isDay.1, d.day.isDigits, rfl⟩
  have hname {w : Bytes} (hlength : w.length < 256) (hne : w ≠ []) (halpha : ∀ c ∈ w, isAlpha c = true) :
      IsWord w ∧ ∀ v ∈ some w, v.length < 256 ∧ ∃ c ∈ v.head?, isAlpha c = true := by
    refine ⟨⟨hne, fun c hc => not_separator_of_alpha c (halpha c hc)⟩, ?_⟩
    rintro v ⟨⟩
    obtain ⟨c, u, rfl⟩ := List.exists_cons_of_ne_nil hne
    exact ⟨hlength, c, rfl, halpha c List.mem_cons_self⟩
  rw [line_drop]
  cases hstart : d.start with
  | cons c start =>
    have hspaces : ∀ e ∈ start, isSeparator e = true := fun e he =>
      separator_of_space (d.isStart e (by rw [hstart]; exact List.mem_cons_of_mem c he))
    change ∃ n t, words (start ++ d.text) = _ ∧ _
    rw [words_separators hspaces, DateTime.text]
    cases hdow : d.dayOfWeek with
    | none => exact ⟨none, d.day.digits, d.words_day (isWord_digits d.day.ne_nil d.day.isDigits), (fun w hw => by cases hw), hday⟩
    | some w =>
      obtain ⟨hlength, halpha⟩ := w.alpha
      obtain ⟨hw, hn⟩ := hname (by omega) (List.ne_nil_of_length_pos (by omega)) halpha
      exact ⟨some w.name, d.day.digits, words_dayOfWeek d hw w, hn, hday⟩
  | nil =>
    rw [DateTime.text, List.nil_append]
    cases hdow : d.dayOfWeek with
    | none =>
      rcases h with h | h | ⟨c, hc⟩
      · exact absurd hstart h
      · exact absurd hdow h
      · have hdigit : isDigit c = true := d.day.isDigits c (by rw [hc]; simp)
        have hdigits : ∀ e ∈ [c], isDigit e = true := List.forall_mem_singleton.mpr hdigit
        refine ⟨none, [c], ?_, (fun w hw => by cases hw), List.cons_ne_nil c [], Nat.le_succ 1, hdigits, ?_⟩
        · rw [hc]
          exact d.words_day (isWord_digits (List.cons_ne_nil c []) hdigits)
        · rw [Number.value, hc]
          rfl
    | some w =>
      obtain ⟨hlength, halpha⟩ := w.alpha
      obtain ⟨c, t, hct⟩ := List.exists_cons_of_ne_nil (List.ne_nil_of_length_pos (by omega : 0 < w.name.length))
      have ht : t.length = 2 := by
        rw [hct] at hlength
        exact Nat.succ.inj hlength
      obtain ⟨hw, hn⟩ := hname (by omega) (List.ne_nil_of_length_pos (by omega))
        fun e (he : e ∈ t) => halpha e (by rw [hct]; exact List.mem_cons_of_mem c he)
      refine ⟨some t, d.day.digits, ?_, hn, hday⟩
      rw [Option.map_some, Option.getD_some, hct]
      exact words_dayOfWeek d hw w

lemma parseDate_day {t : Bytes} {n : Option Bytes} {g : Garbage}
    (hwords : words (d.line.drop 6) = n.toList ++ t :: words d.fromMonth)
    (hn : ∀ w ∈ n, w.length < 256 ∧ ∃ c ∈ w.head?, isAlpha c = true) (hne : t ≠ []) (ht : t.length ≤ 2)
    (hdigits : ∀ c ∈ t, isDigit c = true) :
    (d.Fits → parseDate g d.line = some (some (d.stored g (decimal t)))) ∧ (¬d.Fits → parseDate g d.line = none) := by
  obtain ⟨more, hmore⟩ := d.words_fromMonth
  have halpha : ¬∃ c ∈ t.head?, isAlpha c = true := by
    rintro ⟨c, hc, h⟩
    have hdigit := hdigits c (List.mem_of_mem_head? hc)
    have hnot := forall_byte (P := fun c => isDigit c = true → isAlpha c = false) (by decide) c hdigit
    rw [hnot] at h
    cases h
  have hday {word : Buffer} {s : Bytes} (hword : word.bytes = t ++ 0 :: s) : atoi (cString word.bytes) = decimal t := by
    have hlt := (decimal_lt hdigits).trans_le (Nat.pow_le_pow_right (by decide) ht)
    have hatoi := atoi_small [] hdigits hne (fun c hc => by cases hc) (hlt.trans (by decide))
    rw [List.append_nil] at hatoi
    rw [cString_word (fun c hc => ne_zero_of_digit (hdigits c hc)) hword, hatoi]
  rw [hmore] at hwords
  refine ⟨fun hfits => ?_, fun hlong => ?_⟩
  · refine parseDate_from hwords hn (by omega) halpha fun j word' s hword hws => ?_
    rw [parseFrom_stored hws hfits, hday hword]
  · exact parseDate_from hwords hn (by omega) halpha fun j word' s hword hws => parseFrom_long hws hlong

lemma timeOfDay_monthOf : monthOf (cString d.timeOfDay) = none := by
  obtain ⟨a, b, hab, ha, -, -⟩ := d.hour.exists_digits
  have hself : cString d.timeOfDay = d.timeOfDay :=
    List.takeWhile_eq_self_iff.mpr fun c hc => decide_eq_true (timeOfDay_ne_zero d c hc)
  rw [hself, DateTime.timeOfDay, hab]
  exact monthOf_digit ha

/-- The month is taken for the day of the week, and the time for the month. -/
lemma parseDate_shifted {g : Garbage} (h : words (d.line.drop 6) = words d.fromMonth) (o : Date) :
    parseDate g d.line ≠ some (some o) := by
  obtain ⟨more, hmore⟩ := d.words_fromMonth
  rw [hmore] at h
  obtain ⟨c, t, hct⟩ := List.exists_cons_of_ne_nil d.month.isWord.ne_nil
  have hmonth : ∃ c ∈ d.month.name.head?, isAlpha c = true := by
    have halpha := d.month.alpha c (by rw [hct]; exact List.mem_cons_self)
    rw [hct]
    exact ⟨c, rfl, halpha⟩
  have hshort : d.month.name.length < 256 := by
    rw [d.month.length]
    decide
  by_cases hyear : d.year.digits.length < 256
  · have hnone : parseDate g d.line = some none := by
      refine parseDate_skip h hshort hmonth fun j word' hws => withWord_eq hws hyear fun k word₂ _ hws => ?_
      rw [parseFrom]
      refine withWord_eq hws (timeOfDay_length d) fun l word₃ hword₃ hws => ?_
      rw [hword₃, cString_nul, timeOfDay_monthOf]
    rw [hnone]
    intro h
    cases h
  · have hnone : parseDate g d.line = none :=
      parseDate_skip h hshort hmonth fun j word' hws => withWord_long hws hyear
    rw [hnone]
    intro h
    cases h

lemma starts_of_date (h : parseDate zeros d.line = some (some d.date)) : d.Starts := by
  by_contra hstarts
  rw [DateTime.Starts, not_or, not_or, not_not, not_not] at hstarts
  obtain ⟨hstart, hdow, hday⟩ := hstarts
  have hdrop : d.line.drop 6 = (d.day.digits ++ d.fromMonth).tail := by
    rw [line_drop, hstart, DateTime.text, hdow]
    rfl
  have hne := d.day.ne_nil
  have hlength := d.isDay.1
  have hvalue : d.day.value = decimal d.day.digits := rfl
  have hdigits := d.day.isDigits
  rcases hd : d.day.digits with _ | ⟨a, _ | ⟨b, _ | ⟨e, t⟩⟩⟩
  · exact hne hd
  · rw [hd] at hdrop
    exact parseDate_shifted d (congrArg words hdrop) d.date h
  · rw [hd] at hdrop hdigits hvalue
    have hb : ∀ c ∈ [b], isDigit c = true := fun c hc => hdigits c (List.mem_cons_of_mem a hc)
    have hwords : words (d.line.drop 6) = (none : Option Bytes).toList ++ [b] :: words d.fromMonth := by
      rw [hdrop]
      exact d.words_day (isWord_digits (List.cons_ne_nil b []) hb)
    obtain ⟨hfits, hlong⟩ := parseDate_day d (g := zeros) hwords (fun w hw => by cases hw) (List.cons_ne_nil b [])
      (Nat.le_succ 1) hb
    by_cases hf : d.Fits
    · have hsome := hfits hf
      rw [h] at hsome
      have heq : (d.day.value : ℤ) = decimal [b] := congrArg Date.day (Option.some.inj (Option.some.inj hsome))
      have ha := isDigit_bounds (hdigits a List.mem_cons_self)
      have ha48 : a.toNat = 48 := by
        rw [hvalue] at heq
        simp only [decimal, List.foldl_cons, List.foldl_nil] at heq
        omega
      have ha' : a = 48 := UInt8.toNat_inj.mp ha48
      exact hday ⟨b, by rw [hd, ha']⟩
    · have hnone := hlong hf
      rw [h] at hnone
      cases hnone
  · rw [hd] at hlength
    simp at hlength

/-- Five hours and thirty minutes ahead. -/
def indian : DateTime where
  start := [32]
  isStart := List.all_eq_true.mp (by decide)
  dayOfWeek := none
  day := ⟨ascii "02", by decide, List.all_eq_true.mp (by decide)⟩
  isDay := by decide
  gap₁ := ⟨[32], by decide, List.all_eq_true.mp (by decide)⟩
  month := ⟨ascii "Jan", 0, by decide⟩
  gap₂ := ⟨[32], by decide, List.all_eq_true.mp (by decide)⟩
  year := ⟨ascii "2002", by decide, List.all_eq_true.mp (by decide)⟩
  isYear := by decide
  gap₃ := ⟨[32], by decide, List.all_eq_true.mp (by decide)⟩
  hour := ⟨⟨ascii "09", by decide, List.all_eq_true.mp (by decide)⟩, by decide⟩
  isHour := by decide
  minute := ⟨⟨ascii "07", by decide, List.all_eq_true.mp (by decide)⟩, by decide⟩
  isMinute := by decide
  second := some ⟨⟨ascii "19", by decide, List.all_eq_true.mp (by decide)⟩, by decide⟩
  isSecond := by decide
  gap₄ := ⟨[32], by decide, List.all_eq_true.mp (by decide)⟩
  zone := .offset 43 (.inl rfl) ⟨⟨ascii "05", by decide, List.all_eq_true.mp (by decide)⟩, by decide⟩
    ⟨⟨ascii "30", by decide, List.all_eq_true.mp (by decide)⟩, by decide⟩ (by decide)
  rest := []
  isRest := nofun

end Meaning

end Xperimentum.Pantomime.DateHeader
