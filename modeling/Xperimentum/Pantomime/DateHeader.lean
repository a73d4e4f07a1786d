import Mathlib.Data.List.TakeWhile
import Xperimentum.Lib.Partial
import Xperimentum.Pantomime.Data

/-! `parseDate:inMessage:`. Where a byte outside of the line or of the buffer for a word is read or written, there is no
result; otherwise there may be no date. -/

namespace Xperimentum.Pantomime.DateHeader

open Lib.Int32 Lib.Partial

/-- The buffer for a word. -/
structure Buffer where
  bytes : Bytes
  size : bytes.length = 256

/-- The values that variables and the buffer have before they are written. -/
structure Garbage where
  word : Buffer
  hours : ℤ
  mins : ℤ
  secs : ℤ

/-- The arguments of `dateWithYear:month:day:hour:minute:second:timeZone:`. -/
structure Date where
  year : ℤ
  month : ℤ
  day : ℤ
  hour : ℤ
  minute : ℤ
  second : ℤ
  timeZone : ℤ
  deriving DecidableEq

def monthName : List String := ["jan", "feb", "mar", "apr", "may", "jun", "jul", "aug", "sep", "oct", "nov", "dec"]

def timezoneInfo : List (String × ℤ) :=
  [("ut", 0), ("gmt", 0), ("est", -5 * 3600), ("edt", -4 * 3600), ("cst", -6 * 3600), ("cdt", -5 * 3600),
    ("mst", -7 * 3600), ("mdt", -6 * 3600), ("pst", -8 * 3600), ("pdt", -7 * 3600), ("z", 0), ("wet", 0 * 3600),
    ("met", 1 * 3600), ("eet", 2 * 3600), ("bst", 1 * 3600), ("ast", -4 * 3600), ("adt", -3 * 3600), ("nst", -3 * 1800),
    ("ndt", -2 * 1800), ("yst", -9 * 3600), ("ydt", -8 * 3600), ("hst", -10 * 3600), ("jst", 9 * 3600), ("sst", 8 * 3600),
    ("nzst", 12 * 3600), ("nzdt", 13 * 3600), ("wst", 8 * 3600), ("wdt", 9 * 3600), ("dst", 1 * 3600), ("dt", 1 * 3600),
    ("st", 1 * 3600)]

def isSeparator (c : UInt8) : Bool := isSpace c || c = 44

/-- A word and its NUL are written to the buffer. -/
def Buffer.store (word : Buffer) (w : Bytes) : Option Buffer :=
  if h : w.length < 256 then
    some ⟨w ++ 0 :: word.bytes.drop (w.length + 1), by
      rw [List.length_append, List.length_cons, List.length_drop, word.size]
      omega⟩
  else none

/-- The loop that skips white space and commas reads up to a byte that is neither. -/
def nextWord (buf : Bytes) (start : ℕ) (word : Buffer) : Option (ℤ × Buffer) :=
  match (buf.drop start).dropWhile isSeparator with
  | [] => none
  | c :: p =>
    if buf.length ≤ start then some (-1, word)
    else
      let w := (c :: p).takeWhile fun c => !isSeparator c
      (word.store w).map fun word => ((buf.length - (c :: p).length + w.length : ℤ) - start, word)

def cString (b : Bytes) : Bytes := b.takeWhile (· ≠ 0)

/-- The last month that the first three letters are those of. -/
def monthOf (word : Bytes) : Option ℤ :=
  ((monthName.zipIdx.filter fun m => decide ((word.take 3).map lower = ascii m.1)).getLast?).map fun m => (m.2 : ℤ) + 1

def fullYear (year : ℤ) : ℤ :=
  let year := if year < 70 then year + 2000 else year
  if year < 100 then year + 1900 else year

/-- `%d` of `sscanf`. -/
def scanInt (b : Bytes) : Option (ℤ × Bytes) :=
  let b := b.dropWhile isSpace
  let digits := match b with
    | 45 :: b => b
    | 43 :: b => b
    | b => b
  if digits.takeWhile isDigit = [] then none else some (atoi b, digits.dropWhile isDigit)

/-- `sscanf` with `%d:%d:%d`: what is not read keeps its value. -/
def scanTime (g : Garbage) (word : Bytes) : ℤ × ℤ × ℤ :=
  match scanInt word with
  | none => (g.hours, g.mins, g.secs)
  | some (hours, 58 :: b) =>
    match scanInt b with
    | none => (hours, g.mins, g.secs)
    | some (mins, 58 :: b) =>
      match scanInt b with
      | none => (hours, mins, g.secs)
      | some (secs, _) => (hours, mins, secs)
    | some (mins, _) => (hours, mins, g.secs)
  | some (hours, _) => (hours, g.mins, g.secs)

/-- The last name of the table that begins with the word. -/
def zoneOffset (p : Bytes) : ℤ :=
  (((timezoneInfo.filter fun z => (p.map lower).isPrefixOf (ascii z.1)).getLast?).map Prod.snd).getD 0

/-- Of a zone with two digits, a byte in front of the buffer is read. -/
def offsetOf (p : Bytes) : Option ℤ := do
  let d₀ ← p[0]?
  if isDigit d₀ then
    if (cString p).length = 2 then none
    else do
      let d₁ ← p[1]?
      let d₂ ← p[2]?
      let d₃ ← p[3]?
      pure (((d₀.toNat : ℤ) - 48) * 36000 + ((d₁.toNat : ℤ) - 48) * 3600 + ((d₂.toNat : ℤ) - 48) * 10 +
        ((d₃.toNat : ℤ) - 48))
  else pure (zoneOffset (cString p))

def zone (word : Buffer) : Option ℤ := do
  let c ← word.bytes[0]?
  let s : ℤ := if c = 45 then -1 else if c = 43 then 1 else 0
  let p := if c = 45 ∨ c = 43 then word.bytes.drop 1 else word.bytes
  (offsetOf p).map (s * ·)

/-- The next word, and what there is without one. -/
def withWord {β : Type} (missing : β) (bytes : Bytes) (i : ℕ) (word : Buffer) (next : ℕ → Buffer → Option β) : Option β := do
  let (len, word) ← nextWord bytes i word
  if len ≤ 0 then pure missing else next (i + len.toNat + 1) word

def parseZone (bytes : Bytes) (i : ℕ) (word : Buffer) : Option ℤ := withWord 0 bytes i word fun _ word => zone word

def parseFrom (g : Garbage) (bytes : Bytes) (i : ℕ) (word : Buffer) : Option (Option Date) :=
  let day := atoi (cString word.bytes)
  withWord none bytes i word fun i word =>
    match monthOf (cString word.bytes) with
    | none => some none
    | some month =>
      withWord none bytes i word fun i word =>
        let year := fullYear (atoi (cString word.bytes))
        withWord none bytes i word fun i word =>
          let time := scanTime g (cString word.bytes)
          (parseZone bytes i word).map fun tz => some ⟨year, month, day, time.1, time.2.1, time.2.2, tz⟩

def parseDate (g : Garbage) (theLine : Bytes) : Option (Option Date) :=
  if 6 < theLine.length then
    let bytes := theLine.drop 6
    withWord none bytes 0 g.word fun i word =>
      if ∃ c ∈ word.bytes.head?, isAlpha c = true then withWord none bytes i word (parseFrom g bytes)
      else parseFrom g bytes i word
  else some none

section Words

variable {buf seps w rest : Bytes} {start : ℕ} {word : Buffer} {g : Garbage}

/-- What is between the separators. -/
def words (b : Bytes) : List Bytes := (b.splitOnP isSeparator).filter (· ≠ [])

structure IsWord (w : Bytes) : Prop where
  ne_nil : w ≠ []
  inner : ∀ c ∈ w, isSeparator c = false

lemma words_separators {seps : Bytes} (h : ∀ c ∈ seps, isSeparator c = true) (b : Bytes) : words (seps ++ b) = words b := by
  induction seps with
  | nil => rfl
  | cons c seps ih =>
    have hc : isSeparator c = true := h c List.mem_cons_self
    have hrest := ih fun d hd => h d (List.mem_cons_of_mem c hd)
    rw [List.cons_append, words, List.splitOnP_cons_eq_if_modifyHead, if_pos hc]
    exact hrest

lemma words_word (hw : IsWord w) (hrest : ∀ c ∈ rest.head?, isSeparator c = true) : words (w ++ rest) = w :: words rest.tail := by
  have hne : decide (w ≠ []) = true := decide_eq_true hw.ne_nil
  cases rest with
  | nil =>
    have hsplit : w.splitOnP isSeparator = [w] := List.splitOnP_eq_singleton hw.inner
    rw [List.append_nil, words, hsplit, List.filter_cons, if_pos hne]
    rfl
  | cons c rest =>
    have hsplit := List.splitOnP_append_cons_of_forall_mem hw.inner c (hrest c rfl) rest
    rw [words, hsplit, List.filter_cons, if_pos hne]
    rfl

/-- A line is separators, then a word and what is behind it, unless it has separators only. -/
lemma exists_word (b : Bytes) : (∀ c ∈ b, isSeparator c = true) ∨
    ∃ seps w rest, b = seps ++ (w ++ rest) ∧ (∀ c ∈ seps, isSeparator c = true) ∧ IsWord w ∧
      ∀ c ∈ rest.head?, isSeparator c = true := by
  induction b with
  | nil => exact .inl fun c hc => by cases hc
  | cons c b ih =>
    by_cases hc : isSeparator c = true
    · rcases ih with hall | ⟨seps, w, rest, rfl, hseps, hw, hrest⟩
      · exact .inl (List.forall_mem_cons.mpr ⟨hc, hall⟩)
      · exact .inr ⟨c :: seps, w, rest, rfl, List.forall_mem_cons.mpr ⟨hc, hseps⟩, hw, hrest⟩
    · have hsplit := List.takeWhile_append_dropWhile (p := fun c => !isSeparator c) (l := c :: b)
      refine .inr ⟨[], (c :: b).takeWhile fun c => !isSeparator c, (c :: b).dropWhile fun c => !isSeparator c,
        hsplit.symm, (fun d hd => by cases hd), ⟨?_, fun d hd => ?_⟩, fun d hd => ?_⟩
      · rw [List.takeWhile_cons_of_pos (by simpa using hc)]
        exact List.cons_ne_nil _ _
      · simpa using List.mem_takeWhile_imp hd
      · have hlast := List.head?_dropWhile_not (fun c => !isSeparator c) (c :: b)
        rw [Option.mem_def.mp hd] at hlast
        simpa using hlast

lemma nextWord_separators (h : ∀ c ∈ buf.drop start, isSeparator c = true) : nextWord buf start word = none := by
  have hdrop : (buf.drop start).dropWhile isSeparator = [] := by
    have h' : (buf.drop start ++ []).dropWhile isSeparator = List.dropWhile isSeparator [] := List.dropWhile_append_of_pos h
    rwa [List.append_nil, List.dropWhile_nil] at h'
  rw [nextWord, hdrop]

lemma takeWhile_word (hw : IsWord w) (hrest : ∀ c ∈ rest.head?, isSeparator c = true) :
    (w ++ rest).takeWhile (fun c => !isSeparator c) = w := by
  rw [List.takeWhile_append_of_pos fun c hc => by rw [hw.inner c hc]; rfl]
  cases rest with
  | nil => simp
  | cons c rest =>
    have hc : isSeparator c = true := hrest c rfl
    simp [hc]

lemma nextWord_word (hbuf : buf.drop start = seps ++ (w ++ rest)) (hseps : ∀ c ∈ seps, isSeparator c = true) (hw : IsWord w)
    (hrest : ∀ c ∈ rest.head?, isSeparator c = true) :
    nextWord buf start word = (word.store w).map fun word => (((seps.length + w.length : ℕ) : ℤ), word) := by
  obtain ⟨c, v, rfl⟩ := List.exists_cons_of_ne_nil hw.ne_nil
  have hdrop : (buf.drop start).dropWhile isSeparator = c :: (v ++ rest) := by
    have hc : isSeparator c = false := hw.inner c List.mem_cons_self
    rw [hbuf, List.dropWhile_append_of_pos hseps, List.cons_append]
    exact List.dropWhile_cons_of_neg (by simp [hc])
  have hlength := congrArg List.length hbuf
  rw [List.length_drop] at hlength
  simp only [List.length_append, List.length_cons] at hlength
  have hstart : ¬buf.length ≤ start := by omega
  have hword := takeWhile_word hw hrest
  rw [List.cons_append] at hword
  rw [nextWord, hdrop]
  dsimp only
  rw [if_neg hstart, hword]
  refine congrArg (Option.map · _) (funext fun word => Prod.ext ?_ rfl)
  simp only [List.length_append, List.length_cons]
  push_cast
  omega

lemma store_eq (word : Buffer) (h : w.length < 256) : ∃ word', word.store w = some word' ∧
    word'.bytes = w ++ 0 :: word.bytes.drop (w.length + 1) := ⟨_, dif_pos h, rfl⟩

lemma store_long (h : ¬w.length < 256) : word.store w = none := dif_neg h

lemma withWord_nil {β : Type} {missing : β} {next : ℕ → Buffer → Option β} {bytes : Bytes} {i : ℕ}
    (h : words (bytes.drop i) = []) : withWord missing bytes i word next = none := by
  rcases exists_word (bytes.drop i) with hall | ⟨seps, w, rest, hbuf, hseps, hw, hrest⟩
  · rw [withWord, nextWord_separators hall]
    rfl
  · rw [hbuf, words_separators hseps, words_word hw hrest] at h
    cases h

lemma withWord_cons {β : Type} (missing : β) (next : ℕ → Buffer → Option β) (word : Buffer) {bytes : Bytes} {i : ℕ}
    {ws : List Bytes} (h : words (bytes.drop i) = w :: ws) :
    IsWord w ∧ (¬w.length < 256 → withWord missing bytes i word next = none) ∧
      (w.length < 256 → ∃ j word', withWord missing bytes i word next = next j word' ∧
        word'.bytes = w ++ 0 :: word.bytes.drop (w.length + 1) ∧ words (bytes.drop j) = ws) := by
  rcases exists_word (bytes.drop i) with hall | ⟨seps, v, rest, hbuf, hseps, hv, hrest⟩
  · have hnone : words (bytes.drop i) = [] := by
      have h' := words_separators hall []
      rw [List.append_nil] at h'
      exact h'
    rw [hnone] at h
    cases h
  · have hwords : words (bytes.drop i) = v :: words rest.tail := by
      rw [hbuf, words_separators hseps, words_word hv hrest]
    rw [hwords] at h
    obtain ⟨rfl, rfl⟩ := List.cons.inj h
    have hdrop : bytes.drop (i + (seps.length + v.length) + 1) = rest.tail := by
      rw [add_assoc, ← List.drop_drop, hbuf, ← List.append_assoc, ← List.drop_drop, ← List.length_append, List.drop_left,
        List.drop_one]
    rw [withWord, nextWord_word hbuf hseps hv hrest]
    refine ⟨hv, fun hlong => ?_, fun hfits => ?_⟩
    · rw [store_long hlong]
      rfl
    · obtain ⟨word', hstore, hbytes⟩ := store_eq word hfits
      have hpos : ¬((seps.length + v.length : ℕ) : ℤ) ≤ 0 := by
        have hne := List.length_pos_of_ne_nil hv.ne_nil
        omega
      refine ⟨i + (seps.length + v.length) + 1, word', ?_, hbytes, by rw [hdrop]⟩
      rw [hstore]
      change (if ((seps.length + v.length : ℕ) : ℤ) ≤ 0 then pure missing
        else next (i + ((seps.length + v.length : ℕ) : ℤ).toNat + 1) word') = _
      rw [if_neg hpos, Int.toNat_natCast]

lemma withWord_long {β : Type} {missing : β} {next : ℕ → Buffer → Option β} {bytes : Bytes} {i : ℕ} {ws : List Bytes}
    (h : words (bytes.drop i) = w :: ws) (hlong : ¬w.length < 256) : withWord missing bytes i word next = none :=
  (withWord_cons missing next word h).2.1 hlong

lemma withWord_eq {β : Type} {missing : β} {next : ℕ → Buffer → Option β} {bytes : Bytes} {i : ℕ} {ws : List Bytes}
    {o : Option β} (h : words (bytes.drop i) = w :: ws) (hfits : w.length < 256)
    (hnext : ∀ j word', word'.bytes = w ++ 0 :: word.bytes.drop (w.length + 1) → words (bytes.drop j) = ws →
      next j word' = o) : withWord missing bytes i word next = o := by
  obtain ⟨j, word', heq, hbytes, hrest⟩ := (withWord_cons missing next word h).2.2 hfits
  rw [heq, hnext j word' hbytes hrest]

lemma withWord_safe {β : Type} {missing : β} {next : ℕ → Buffer → Option β} {Q : Bytes → List Bytes → Prop} (bytes : Bytes)
    (i : ℕ)
    (hnext : ∀ w j word', IsWord w → word'.bytes = w ++ 0 :: word.bytes.drop (w.length + 1) →
      (Ensures (next j word') (fun _ => True) ↔ Q w (words (bytes.drop j)))) :
    Ensures (withWord missing bytes i word next) (fun _ => True) ↔
      ∃ w ws, words (bytes.drop i) = w :: ws ∧ w.length < 256 ∧ Q w ws := by
  cases hwords : words (bytes.drop i) with
  | nil =>
    rw [withWord_nil hwords]
    refine iff_of_false ?_ ?_
    · rintro ⟨o, ho, -⟩
      cases ho
    · rintro ⟨w, ws, h, -⟩
      cases h
  | cons w ws =>
    obtain ⟨hw, hlong, hfits⟩ := withWord_cons missing next word hwords
    by_cases hlt : w.length < 256
    · obtain ⟨j, word', heq, hbytes, hrest⟩ := hfits hlt
      rw [heq, hnext w j word' hw hbytes, hrest]
      constructor
      · exact fun hq => ⟨w, ws, rfl, hlt, hq⟩
      · rintro ⟨w', ws', heq', -, hq⟩
        obtain ⟨rfl, rfl⟩ := List.cons.inj heq'
        exact hq
    · rw [hlong hlt]
      refine iff_of_false ?_ ?_
      · rintro ⟨o, ho, -⟩
        cases ho
      · rintro ⟨w', ws', heq', hlt', -⟩
        obtain ⟨rfl, -⟩ := List.cons.inj heq'
        exact hlt hlt'

end Words

section Bounds

variable {w : Bytes} {word : Buffer} {g : Garbage}

/-- A zone without its sign. -/
def unsigned (w : Bytes) : Bytes := if w.head? = some 45 ∨ w.head? = some 43 then w.tail else w

/-- A zone that has two digits for its hours and nothing else. -/
def TwoDigits (w : Bytes) : Prop :=
  (∃ c ∈ (unsigned w).head?, isDigit c = true) ∧ (cString (unsigned w)).length = 2

/-- The words from the month on. -/
def SafeFrom (ws : List Bytes) : Prop :=
  ∃ m ws', ws = m :: ws' ∧ m.length < 256 ∧
    (monthOf (cString m) = none ∨ ∃ year time zone rest, ws' = year :: time :: zone :: rest ∧ year.length < 256 ∧
      time.length < 256 ∧ zone.length < 256 ∧ ¬TwoDigits zone)

/-- As many words as are read, each with less than 256 bytes, and no zone of two digits. -/
def InBounds (theLine : Bytes) : Prop :=
  6 < theLine.length → ∃ w ws, words (theLine.drop 6) = w :: ws ∧ w.length < 256 ∧
    if ∃ c ∈ w.head?, isAlpha c = true then ∃ d ws', ws = d :: ws' ∧ d.length < 256 ∧ SafeFrom ws' else SafeFrom ws

lemma cString_nul (w s : Bytes) : cString (w ++ 0 :: s) = cString w := by
  induction w with
  | nil => rfl
  | cons c w ih =>
    rw [cString, cString] at ih
    rw [List.cons_append, cString, cString, List.takeWhile_cons, List.takeWhile_cons, ih]

/-- The sign of a zone, and zero if it has none. -/
def sign (w : Bytes) : ℤ := if w.head? = some 45 then -1 else if w.head? = some 43 then 1 else 0

lemma zone_eq (hw : IsWord w) {s : Bytes} (hword : word.bytes = w ++ 0 :: s) :
    zone word = (offsetOf (unsigned w ++ 0 :: s)).map (sign w * ·) := by
  obtain ⟨c, v, rfl⟩ := List.exists_cons_of_ne_nil hw.ne_nil
  have hp : (if c = 45 ∨ c = 43 then word.bytes.drop 1 else word.bytes) = unsigned (c :: v) ++ 0 :: s := by
    rw [hword, unsigned]
    simp only [List.head?_cons, Option.some.injEq, List.tail_cons]
    split_ifs <;> rfl
  have hc : word.bytes[0]? = some c := by
    rw [hword]
    rfl
  rw [zone, hc, sign]
  change (offsetOf (if c = 45 ∨ c = 43 then word.bytes.drop 1 else word.bytes)).map _ = _
  rw [hp]
  simp only [List.head?_cons, Option.some.injEq]

lemma offsetOf_safe {p s : Bytes} (hs : 3 ≤ p.length + s.length) :
    Ensures (offsetOf (p ++ 0 :: s)) (fun _ => True) ↔
      ¬((∃ c ∈ p.head?, isDigit c = true) ∧ (cString p).length = 2) := by
  have hread (k : ℕ) (hk : k < 4) : ∃ d, (p ++ 0 :: s)[k]? = some d := by
    have hlt : k < (p ++ 0 :: s).length := by
      rw [List.length_append, List.length_cons]
      omega
    exact ⟨_, List.getElem?_eq_getElem hlt⟩
  obtain ⟨d₁, h₁⟩ := hread 1 (by decide)
  obtain ⟨d₂, h₂⟩ := hread 2 (by decide)
  obtain ⟨d₃, h₃⟩ := hread 3 (by decide)
  rw [offsetOf, cString_nul, h₁, h₂, h₃]
  cases p with
  | nil =>
    refine iff_of_true ⟨_, rfl, trivial⟩ ?_
    rintro ⟨⟨c, hc, -⟩, -⟩
    cases hc
  | cons d p =>
    have hhead : (∃ c ∈ (d :: p).head?, isDigit c = true) ↔ isDigit d = true := by
      simp only [List.head?_cons, Option.mem_def, Option.some.injEq, exists_eq_left']
    rw [hhead]
    change Ensures (if isDigit d = true then _ else _) _ ↔ _
    by_cases hd : isDigit d = true
    · rw [if_pos hd]
      by_cases htwo : (cString (d :: p)).length = 2
      · rw [if_pos htwo]
        refine iff_of_false ?_ fun h => h ⟨hd, htwo⟩
        rintro ⟨o, ho, -⟩
        cases ho
      · rw [if_neg htwo]
        exact iff_of_true ⟨_, rfl, trivial⟩ fun h => htwo h.2
    · rw [if_neg hd]
      exact iff_of_true ⟨_, rfl, trivial⟩ fun h => hd h.1

lemma ensures_map_iff {β γ : Type} {o : Option β} {f : β → γ} :
    Ensures (o.map f) (fun _ => True) ↔ Ensures o fun _ => True := by
  cases o with
  | none => exact iff_of_false (fun ⟨_, h, _⟩ => by cases h) fun ⟨_, h, _⟩ => by cases h
  | some b => exact iff_of_true ⟨_, rfl, trivial⟩ ⟨_, rfl, trivial⟩

lemma zone_safe (hw : IsWord w) {s : Bytes} (hword : word.bytes = w ++ 0 :: s) :
    Ensures (zone word) (fun _ => True) ↔ ¬TwoDigits w := by
  have hsize := congrArg List.length hword
  have hunsigned : w.length ≤ (unsigned w).length + 1 := by
    rw [unsigned]
    split_ifs
    · rw [List.length_tail]
      omega
    · omega
  rw [word.size, List.length_append, List.length_cons] at hsize
  rw [zone_eq hw hword, ensures_map_iff, offsetOf_safe (by omega)]
  rfl

lemma parseFrom_safe (bytes : Bytes) (i : ℕ) (word : Buffer) :
    Ensures (parseFrom g bytes i word) (fun _ => True) ↔ SafeFrom (words (bytes.drop i)) := by
  rw [parseFrom]
  refine (withWord_safe (Q := fun m ws => monthOf (cString m) = none ∨ ∃ year time zone rest, ws = year :: time :: zone :: rest ∧
    year.length < 256 ∧ time.length < 256 ∧ zone.length < 256 ∧ ¬TwoDigits zone) bytes i fun m j word' hm hword' => ?_)
  rw [hword', cString_nul]
  cases hmonth : monthOf (cString m) with
  | none => exact iff_of_true ⟨_, rfl, trivial⟩ (.inl rfl)
  | some month =>
    refine (withWord_safe (Q := fun year ws => ∃ time zone rest, ws = time :: zone :: rest ∧ time.length < 256 ∧
      zone.length < 256 ∧ ¬TwoDigits zone) bytes j fun year k word₂ _ _ => ?_).trans ?_
    · refine (withWord_safe (Q := fun time ws => ∃ zone rest, ws = zone :: rest ∧ zone.length < 256 ∧ ¬TwoDigits zone)
        bytes k fun time l word₃ _ _ => ?_).trans ?_
      · rw [ensures_map_iff, parseZone]
        refine (withWord_safe (Q := fun zone ws => ¬TwoDigits zone) bytes l fun z _ word₄ hz hword₄ => ?_)
        exact zone_safe hz hword₄
      · constructor
        · rintro ⟨time, ws, hws, htime, z, rest, rfl, hz⟩
          exact ⟨time, z, rest, hws, htime, hz⟩
        · rintro ⟨time, z, rest, hws, htime, hz⟩
          exact ⟨time, _, hws, htime, z, rest, rfl, hz⟩
    · constructor
      · rintro ⟨year, ws, hws, hyear, time, z, rest, rfl, htime⟩
        exact .inr ⟨year, time, z, rest, hws, hyear, htime⟩
      · rintro (hnone | ⟨year, time, z, rest, hws, hyear, htime⟩)
        · cases hnone
        · exact ⟨year, _, hws, hyear, time, z, rest, rfl, htime⟩

/-- All that is read is in the line, and what is written in the buffer, just where there are enough words, none of them too
long for the buffer, and the zone is not one of two digits. -/
theorem parseDate_bounds (g : Garbage) (theLine : Bytes) :
    Ensures (parseDate g theLine) (fun _ => True) ↔ InBounds theLine := by
  rw [parseDate]
  by_cases hlength : 6 < theLine.length
  · rw [if_pos hlength]
    refine (withWord_safe (Q := fun w ws => if ∃ c ∈ w.head?, isAlpha c = true then
      ∃ d ws', ws = d :: ws' ∧ d.length < 256 ∧ SafeFrom ws' else SafeFrom ws) (theLine.drop 6) 0
      fun w j word' hw hword' => ?_).trans ?_
    · have hhead : word'.bytes.head? = w.head? := by
        obtain ⟨c, v, rfl⟩ := List.exists_cons_of_ne_nil hw.ne_nil
        rw [hword']
        rfl
      rw [hhead]
      split_ifs
      · exact withWord_safe (Q := fun d ws => SafeFrom ws) _ j fun d k word₂ _ _ => parseFrom_safe _ k word₂
      · exact parseFrom_safe _ j word'
    · exact ⟨fun h _ => h, fun h => h hlength⟩
  · rw [if_neg hlength]
    exact iff_of_true ⟨_, rfl, trivial⟩ fun h => absurd h hlength

def zeros : Garbage := ⟨⟨List.replicate 256 0, List.length_replicate⟩, 0, 0, 0⟩

/-- The month is looked for behind the line. -/
theorem not_parseDate_bounds : ¬∀ g theLine, Ensures (parseDate g theLine) fun _ => True := by
  intro h
  obtain ⟨o, ho, -⟩ := h zeros (ascii "Date: 11-Jan-02")
  have hnone : parseDate zeros (ascii "Date: 11-Jan-02") = none := by decide
  rw [hnone] at ho
  cases ho

end Bounds

end Xperimentum.Pantomime.DateHeader
