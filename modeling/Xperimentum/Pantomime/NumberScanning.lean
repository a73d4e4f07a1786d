import Mathlib.Data.List.TakeWhile
import Mathlib.Tactic
import Xperimentum.Pantomime.Data
import Xperimentum.Pantomime.EncodedWords

/-! `scanUnsignedInt:` of the scanner, and the `SEARCH` responses that are read with it. -/

namespace Xperimentum.Pantomime.NumberScanning

open EncodedWords (Str)

def isDigit (c : UInt16) : Bool := 48 ≤ c && c ≤ 57

/-- The white space of the ASCII characters. -/
def isSpace (c : UInt16) : Bool := c = 32 || 9 ≤ c && c ≤ 13

section Code

variable (s : Str)

/-- The first loop, with the characters that it may still look at. -/
@[grind =] def skipToDigit : ℕ → ℕ → ℕ
  | 0, l1 => l1
  | n + 1, l1 => if (s[l1]?).any isDigit then l1 else skipToDigit n (l1 + 1)

@[grind =] def skipDigits : ℕ → ℕ → ℕ
  | 0, l2 => l2
  | n + 1, l2 => if (s[l2]?).any isDigit then skipDigits n (l2 + 1) else l2

/-- The loop from the last digit down. An index before the first character is a very large one, and the loop ends
with an exception, or never. -/
@[grind =] def accumulate (l1 : ℕ) : ℕ → ℕ → ℕ → ℕ → Option ℕ
  | 0, _, _, _ => none
  | n + 1, l2, v, d =>
    if l1 ≤ l2 then
      match s[l2]? with
      | none => none
      | some c => accumulate l1 n ((l2 + (2 ^ 32 - 1)) % 2 ^ 32) ((v + (c.toNat - 48) * d) % 2 ^ 32) (10 * d % 2 ^ 32)
    else some v

/-- The scanner raises an exception for a location behind the end. -/
def setScanLocation (l : ℕ) : Option ℕ := if l ≤ s.length then some l else none

/-- The number, where one is found, and the new location. Locations and the length are `unsigned int`s. -/
def scanUnsignedInt (scanLocation : ℕ) : Option (Option ℕ × ℕ) :=
  let len := s.length % 2 ^ 32
  let l := scanLocation % 2 ^ 32
  let l1 := skipToDigit s (len - l) l
  let l2 := if l1 < len then skipDigits s (len - l1) l1 else l
  if l2 ≤ l1 then (setScanLocation s ((l1 + 1) % 2 ^ 32)).map fun location => (none, location)
  else do
    let location ← setScanLocation s (if (l2 + 1) % 2 ^ 32 > len then len else (l2 + 1) % 2 ^ 32)
    let v ← accumulate s l1 (s.length + 2) (l2 - 1) 0 1
    return (some v, location)

/-- White space in front does not count. -/
def isAtEnd (scanLocation : ℕ) : Bool := (s.drop scanLocation).all isSpace

/-- The variable for the value keeps what it has where no number is found. -/
@[grind =] def scanAll : ℕ → ℕ → ℕ → Option (List ℕ)
  | 0, _, _ => none
  | n + 1, value, scanLocation =>
    if isAtEnd s scanLocation then some []
    else do
      let (found, location) ← scanUnsignedInt s scanLocation
      let values ← scanAll n (found.getD value) location
      return found.getD value :: values

end Code

/-- Data that is not ASCII gives no string, and the scanner is at its end at once. -/
def uniqueIdentifiersFromData (uninitialised : ℕ) (theData : Bytes) : Option (List ℕ) :=
  let rest := theData.drop 8
  if rest = [] then some []
  else
    let s : Str := (asciiString rest).map UInt8.toUInt16
    scanAll s (s.length + 1) uninitialised 0

section Meaning

def number (digits : Str) : ℕ := digits.foldl (fun n c => 10 * n + (c.toNat - 48)) 0

/-- The first maximal run of digits, and what stands behind it. -/
def firstRun (u : Str) : Str × Str :=
  let t := u.dropWhile fun c => !isDigit c
  (t.takeWhile isDigit, t.dropWhile isDigit)

/-- The numbers of the maximal runs of digits, with as many runs as there are characters at most. -/
@[grind =] def numbersOf : ℕ → Str → List ℕ
  | 0, _ => []
  | n + 1, u => if u.any isDigit then number (firstRun u).1 % 2 ^ 32 :: numbersOf n (firstRun u).2 else []

def numbers (u : Str) : List ℕ := numbersOf u.length u

def Meets (s : Str) (scanLocation : ℕ) : Prop :=
  ∃ r, scanUnsignedInt s scanLocation = some r ∧ scanLocation < r.2 ∧ r.2 ≤ s.length ∧
    r.1 = if (s.drop scanLocation).any isDigit then some (number (firstRun (s.drop scanLocation)).1 % 2 ^ 32) else none

/-- A digit follows, and it is not the first character of the string. -/
def DigitBehindStart (s : Str) (scanLocation : ℕ) : Prop :=
  (s.drop scanLocation).any isDigit ∧ ¬(scanLocation = 0 ∧ s.head?.any isDigit)

instance (s : Str) (scanLocation : ℕ) : Decidable (DigitBehindStart s scanLocation) :=
  inferInstanceAs (Decidable (_ ∧ _))

/-- Nothing but white space follows the character behind the last digit, or there is nothing else at all. -/
def blank (u : Str) : Bool :=
  ((u.reverse.takeWhile fun c => !isDigit c).reverse.drop (if u.any isDigit then 1 else 0)).all isSpace

/-- The rest of a response line does not start with a digit and has only white space behind its last number and the
character that ends it; a line that is not ASCII has no digit. -/
def Scannable (rest : Bytes) : Prop :=
  let u : Str := rest.map UInt8.toUInt16
  if rest.all (· < 128) then ¬u.head?.any isDigit ∧ blank u else ¬u.any isDigit

instance (rest : Bytes) : Decidable (Scannable rest) :=
  inferInstanceAs (Decidable (if rest.all (· < 128) then
    ¬(rest.map UInt8.toUInt16).head?.any isDigit ∧ blank (rest.map UInt8.toUInt16)
    else ¬(rest.map UInt8.toUInt16).any isDigit))

end Meaning

section Loops

variable {a run v : Str}

lemma skipToDigit_run (ha : ∀ c ∈ a, isDigit c = false) (pre post : Str) (n : ℕ) :
    skipToDigit (pre ++ a ++ post) (a.length + n) pre.length =
      skipToDigit (pre ++ a ++ post) n (pre.length + a.length) := by
  induction a generalizing pre with
  | nil => simp
  | cons c a ih =>
    have hrest := ih (fun d hd => ha d (List.mem_cons_of_mem c hd)) (pre ++ [c])
    have hc : ((pre ++ c :: a ++ post)[pre.length]?).any isDigit = false := by simp [ha c List.mem_cons_self]
    rw [show (c :: a).length + n = a.length + n + 1 by simp; omega, skipToDigit, hc]
    simp only [List.append_assoc, List.length_append,
      List.cons_append, List.nil_append, List.length_cons, List.length_nil, Nat.zero_add, Bool.false_eq_true,
      ↓reduceIte] at hrest ⊢
    rw [hrest, Nat.add_assoc, Nat.add_comm 1]

lemma skipDigits_run (hrun : ∀ c ∈ run, isDigit c = true) (pre post : Str) (n : ℕ) :
    skipDigits (pre ++ run ++ post) (run.length + n) pre.length =
      skipDigits (pre ++ run ++ post) n (pre.length + run.length) := by
  induction run generalizing pre with
  | nil => simp
  | cons c run ih =>
    have hrest := ih (fun d hd => hrun d (List.mem_cons_of_mem c hd)) (pre ++ [c])
    have hc : ((pre ++ c :: run ++ post)[pre.length]?).any isDigit = true := by simp [hrun c List.mem_cons_self]
    rw [show (c :: run).length + n = run.length + n + 1 by simp; omega, skipDigits, hc]
    simp only [List.append_assoc, List.length_append,
      List.cons_append, List.nil_append, List.length_cons, List.length_nil, Nat.zero_add, ↓reduceIte] at hrest ⊢
    rw [hrest, Nat.add_assoc, Nat.add_comm 1]

lemma number_snoc (t : Str) (c : UInt16) : number (t ++ [c]) = 10 * number t + (c.toNat - 48) := by
  simp [number]

/-- The digits from the last one down, added up with their weights. -/
lemma accumulate_run (pre post : Str) (hpre : pre ≠ []) (hlen : pre.length + run.length < 2 ^ 32) (hne : run ≠ [])
    {n : ℕ} (hn : run.length < n) (v d : ℕ) :
    accumulate (pre ++ run ++ post) pre.length n (pre.length + run.length - 1) (v % 2 ^ 32) (d % 2 ^ 32) =
      some ((v + d * number run) % 2 ^ 32) := by
  have hpos := List.length_pos_of_ne_nil hpre
  induction run using List.reverseRecOn generalizing n post v d with
  | nil => exact absurd rfl hne
  | append_singleton run c ih =>
    obtain ⟨n, rfl⟩ : ∃ m, n = m + 1 := ⟨n - 1, by omega⟩
    simp only [List.length_append, List.length_singleton] at hlen hn ⊢
    have hget : (pre ++ (run ++ [c]) ++ post)[pre.length + (run.length + 1) - 1]? = some c := by
      rw [List.getElem?_append_left (by simp), ← List.append_assoc, Nat.add_sub_assoc (by omega),
        Nat.add_sub_cancel, ← List.length_append, List.getElem?_concat_length]
    have hlast : (pre.length + (run.length + 1) - 1 + (2 ^ 32 - 1)) % 2 ^ 32 = pre.length + run.length - 1 := by
      rw [show pre.length + (run.length + 1) - 1 + (2 ^ 32 - 1) = pre.length + run.length - 1 + 2 ^ 32 by omega,
        Nat.add_mod_right, Nat.mod_eq_of_lt (by omega)]
    have hv : (v % 2 ^ 32 + (c.toNat - 48) * (d % 2 ^ 32)) % 2 ^ 32 = (v + (c.toNat - 48) * d) % 2 ^ 32 :=
      Nat.ModEq.add (Nat.mod_modEq v _) (Nat.ModEq.mul_left _ (Nat.mod_modEq d _))
    have hd : 10 * (d % 2 ^ 32) % 2 ^ 32 = 10 * d % 2 ^ 32 := Nat.ModEq.mul_left 10 (Nat.mod_modEq d _)
    rw [accumulate, if_pos (by omega), hget]
    simp only
    rw [hlast, hv, hd, number_snoc]
    by_cases hnil : run = []
    · subst hnil
      obtain ⟨n, rfl⟩ : ∃ m, n = m + 1 := ⟨n - 1, by omega⟩
      rw [accumulate, if_neg (by simp; omega)]
      simp [number, Nat.mul_comm]
    · have hrest := ih (c :: post) (by omega) hnil (by omega : run.length < n) (v + (c.toNat - 48) * d) (10 * d)
      rw [show pre ++ (run ++ [c]) ++ post = pre ++ run ++ c :: post by simp, hrest,
        show v + (c.toNat - 48) * d + 10 * d * number run = v + d * (10 * number run + (c.toNat - 48)) by ring]

/-- A run at the start of the string: the index goes below zero. -/
lemma accumulate_start (post : Str) (hlen : (run ++ post).length < 2 ^ 32) (n v d : ℕ) (hne : run ≠ []) :
    accumulate (run ++ post) 0 n (run.length - 1) v d = none := by
  induction run using List.reverseRecOn generalizing n post v d with
  | nil => exact absurd rfl hne
  | append_singleton run c ih =>
    cases n with
    | zero => rfl
    | succ n =>
      have hget : (run ++ [c] ++ post)[(run ++ [c]).length - 1]? = some c := by
        rw [List.getElem?_append_left (by simp), List.length_append, List.length_singleton, Nat.add_sub_cancel,
          List.getElem?_concat_length]
      rw [accumulate, if_pos (Nat.zero_le _), hget]
      simp only [List.length_append, List.length_singleton] at hlen ⊢
      by_cases hnil : run = []
      · subst hnil
        cases n with
        | zero => rfl
        | succ n =>
          have hout : (([] : Str) ++ [c] ++ post)[(([] : Str).length + 1 - 1 + (2 ^ 32 - 1)) % 2 ^ 32]? = none := by
            rw [List.getElem?_eq_none_iff]
            simp only [List.length_append, List.length_singleton, List.length_nil]
            simp only [List.length_nil] at hlen
            omega
          rw [accumulate, if_pos (Nat.zero_le _), hout]
      · have hpos := List.length_pos_of_ne_nil hnil
        have hlast : (run.length + 1 - 1 + (2 ^ 32 - 1)) % 2 ^ 32 = run.length - 1 := by
          rw [show run.length + 1 - 1 + (2 ^ 32 - 1) = run.length - 1 + 2 ^ 32 by omega, Nat.add_mod_right,
            Nat.mod_eq_of_lt (by omega)]
        rw [hlast, List.append_assoc, List.singleton_append]
        exact ih (c :: post) (by simp; omega) n _ _ hnil

lemma skipToDigit_at {s : Str} {l : ℕ} (h : (s[l]?).any isDigit = true) (n : ℕ) : skipToDigit s n l = l := by
  cases n with
  | zero => rfl
  | succ n => rw [skipToDigit, if_pos h]

lemma skipDigits_at {s : Str} {l : ℕ} (h : (s[l]?).any isDigit = false) (n : ℕ) : skipDigits s n l = l := by
  cases n with
  | zero => rfl
  | succ n => rw [skipDigits, h, if_neg Bool.false_ne_true]

/-- Without a digit the location would be behind the end. -/
lemma scan_absent (pre : Str) (ha : ∀ c ∈ a, isDigit c = false) (hlen : (pre ++ a).length < 2 ^ 32 - 1) :
    scanUnsignedInt (pre ++ a) pre.length = none := by
  have hskip := skipToDigit_run ha pre [] 0
  rw [List.append_nil, Nat.add_zero, skipToDigit] at hskip
  rw [List.length_append] at hlen
  simp only [scanUnsignedInt, List.length_append]
  rw [Nat.mod_eq_of_lt (by omega : pre.length + a.length < 2 ^ 32), Nat.mod_eq_of_lt (by omega : pre.length < 2 ^ 32),
    Nat.add_sub_cancel_left, hskip, if_neg (lt_irrefl _), if_pos (Nat.le_add_right _ _),
    Nat.mod_eq_of_lt (by omega), setScanLocation, List.length_append, if_neg (by omega), Option.map_none]

lemma scan_found (pre : Str) {post : Str} (ha : ∀ c ∈ a, isDigit c = false) (hrun : ∀ c ∈ run, isDigit c = true)
    (hne : run ≠ []) (hpost : post.head?.any isDigit = false) (hlen : (pre ++ a ++ run ++ post).length < 2 ^ 32 - 1) :
    scanUnsignedInt (pre ++ a ++ run ++ post) pre.length =
      if pre ++ a = [] then none
      else some (some (number run % 2 ^ 32), (pre ++ a ++ run ++ post.take 1).length) := by
  obtain ⟨c, run', hcons⟩ := List.exists_cons_of_ne_nil hne
  have hrunpos := List.length_pos_of_ne_nil hne
  have hfirst : ((pre ++ a ++ run ++ post)[(pre ++ a).length]?).any isDigit = true := by
    simp [hcons, hrun c (hcons ▸ List.mem_cons_self)]
  have hbehind : ((pre ++ a ++ run ++ post)[(pre ++ a ++ run).length]?).any isDigit = false := by
    rw [List.getElem?_append_right le_rfl, Nat.sub_self, ← List.head?_eq_getElem?]
    exact hpost
  have hskip : ∀ n, skipToDigit (pre ++ a ++ run ++ post) (a.length + n) pre.length = (pre ++ a).length := by
    intro n
    have hrun := skipToDigit_run ha pre (run ++ post) n
    rw [← List.append_assoc, ← List.length_append, skipToDigit_at hfirst] at hrun
    exact hrun
  have hdigits : ∀ n, skipDigits (pre ++ a ++ run ++ post) (run.length + n) (pre ++ a).length =
      (pre ++ a ++ run).length := by
    intro n
    rw [skipDigits_run hrun, ← List.length_append, skipDigits_at hbehind]
  have htotal : (pre ++ a ++ run ++ post).length = pre.length + (a.length + (run.length + post.length)) := by
    simp only [List.length_append, Nat.add_assoc]
  have hmod : (pre ++ a ++ run ++ post).length % 2 ^ 32 = (pre ++ a ++ run ++ post).length := Nat.mod_eq_of_lt (by omega)
  have hl1 : (pre ++ a).length = pre.length + a.length := List.length_append
  have hl2 : (pre ++ a ++ run).length = pre.length + a.length + run.length := by simp only [List.length_append]
  simp only [scanUnsignedInt]
  rw [hmod, Nat.mod_eq_of_lt (by omega : pre.length < 2 ^ 32),
    show (pre ++ a ++ run ++ post).length - pre.length = a.length + (run.length + post.length) by omega, hskip,
    show (pre ++ a ++ run ++ post).length - (pre ++ a).length = run.length + post.length by omega, hdigits,
    if_pos (by omega : (pre ++ a).length < (pre ++ a ++ run ++ post).length),
    if_neg (by omega : ¬(pre ++ a ++ run).length ≤ (pre ++ a).length),
    Nat.mod_eq_of_lt (by omega : (pre ++ a ++ run).length + 1 < 2 ^ 32)]
  have hlocation : (if (pre ++ a ++ run).length + 1 > (pre ++ a ++ run ++ post).length
      then (pre ++ a ++ run ++ post).length else (pre ++ a ++ run).length + 1) =
      (pre ++ a ++ run ++ post.take 1).length := by
    cases post with
    | nil => simp
    | cons d post =>
      simp
      omega
  have hset : setScanLocation (pre ++ a ++ run ++ post) (pre ++ a ++ run ++ post.take 1).length =
      some (pre ++ a ++ run ++ post.take 1).length := by
    refine if_pos ?_
    simp only [List.length_append, List.length_take]
    omega
  rw [hlocation, hset]
  split_ifs with hstart
  · rw [hstart] at hlen ⊢
    have hnone := accumulate_start post (by simpa using hlen.trans (by norm_num))
      (([] : Str) ++ run ++ post).length.succ.succ 0 1 hne
    simp only [List.nil_append, List.length_nil, Option.bind_eq_bind, Option.bind_some] at hnone ⊢
    rw [hnone, Option.bind_none]
  · have hsome := accumulate_run (pre ++ a) post hstart (by omega) hne
      (by omega : run.length < (pre ++ a ++ run ++ post).length + 2) 0 1
    rw [Nat.zero_mod, Nat.zero_add, Nat.one_mul, show 1 % 2 ^ 32 = 1 from rfl] at hsome
    rw [show (pre ++ a ++ run).length - 1 = (pre ++ a).length + run.length - 1 by omega]
    simp only [Option.bind_eq_bind, Option.bind_some, hsome]
    rfl

end Loops

section Lines

variable {u a run post : Str}

lemma firstRun_spec (h : u.any isDigit = true) :
    u = u.takeWhile (fun c => !isDigit c) ++ (firstRun u).1 ++ (firstRun u).2 ∧ (firstRun u).1 ≠ [] ∧
      (firstRun u).2.head?.any isDigit = false := by
  refine ⟨?_, ?_, ?_⟩
  · rw [firstRun, List.append_assoc, List.takeWhile_append_dropWhile, List.takeWhile_append_dropWhile]
  · obtain ⟨c, hc, hdigit⟩ := List.any_eq_true.mp h
    cases hd : u.dropWhile fun c => !isDigit c with
    | nil =>
      have hno := List.dropWhile_eq_nil_iff.mp hd c hc
      rw [hdigit] at hno
      cases hno
    | cons d t =>
      have hhead := List.head?_dropWhile_not (fun c => !isDigit c) u
      rw [hd] at hhead
      have hdigit : isDigit d = true := by simpa using hhead
      simp [firstRun, hd, hdigit]
  · have hhead := List.head?_dropWhile_not isDigit (u.dropWhile fun c => !isDigit c)
    rw [firstRun]
    cases hd : ((u.dropWhile fun c => !isDigit c).dropWhile isDigit).head? with
    | none => rfl
    | some c =>
      rw [hd] at hhead
      exact hhead

lemma firstRun_digits (u : Str) : ∀ c ∈ (firstRun u).1, isDigit c = true := fun _ hc => List.mem_takeWhile_imp hc

lemma before_digits (u : Str) : ∀ c ∈ u.takeWhile (fun c => !isDigit c), isDigit c = false := by
  intro c hc
  simpa using List.mem_takeWhile_imp hc

lemma firstRun_length (h : u.any isDigit = true) : (firstRun u).2.length < u.length := by
  obtain ⟨hu, hne, -⟩ := firstRun_spec h
  have hlen := congrArg List.length hu
  have hpos := List.length_pos_of_ne_nil hne
  simp only [List.length_append] at hlen
  omega

lemma numbersOf_eq {n : ℕ} (hn : u.length ≤ n) : numbersOf n u = numbers u := by
  induction n using Nat.strong_induction_on generalizing u with
  | h n ih =>
    cases n with
    | zero =>
      obtain rfl := List.length_eq_zero_iff.mp (Nat.le_zero.mp hn)
      rfl
    | succ n =>
      cases u with
      | nil => rfl
      | cons c u =>
        rw [numbers, List.length_cons, numbersOf, numbersOf]
        split_ifs with h
        · have hless := firstRun_length h
          rw [List.length_cons] at hless hn
          rw [ih n (Nat.lt_succ_self n) (by omega), ← ih u.length (by omega) (by omega)]
        · rfl

lemma numbers_run (h : u.any isDigit = true) :
    numbers u = number (firstRun u).1 % 2 ^ 32 :: numbers (firstRun u).2 := by
  have hless := firstRun_length h
  rw [numbers]
  obtain ⟨n, hn⟩ : ∃ n, u.length = n + 1 := ⟨u.length - 1, by omega⟩
  rw [hn, numbersOf, if_pos h, numbersOf_eq (by omega)]

lemma numbers_absent (h : u.any isDigit = false) : numbers u = [] := by
  rw [numbers]
  cases hn : u.length with
  | zero => rfl
  | succ n => rw [numbersOf, h, if_neg Bool.false_ne_true]

/-- The character behind a number is not part of another one. -/
lemma numbers_drop (hpost : post.head?.any isDigit = false) : numbers (post.drop 1) = numbers post := by
  cases post with
  | nil => rfl
  | cons c post =>
    have hc : isDigit c = false := by simpa using hpost
    rw [List.drop_one, List.tail_cons]
    by_cases h : post.any isDigit = true
    · have hany : (c :: post).any isDigit = true := by rw [List.any_cons, h, Bool.or_true]
      have hrun : firstRun (c :: post) = firstRun post := by simp [firstRun, hc]
      rw [numbers_run h, numbers_run hany, hrun]
    · rw [Bool.not_eq_true] at h
      rw [numbers_absent h, numbers_absent (by rw [List.any_cons, hc, h]; rfl)]

lemma not_isDigit_of_isSpace {c : UInt16} (h : isSpace c = true) : isDigit c = false := by
  simp only [isSpace, isDigit, Bool.or_eq_true, decide_eq_true_eq, Bool.and_eq_true, UInt16.le_iff_toNat_le,
    UInt16.reduceToNat, Bool.and_eq_false_iff, decide_eq_false_iff_not] at h ⊢
  rcases h with rfl | h
  · exact .inl (by decide)
  · omega

lemma takeWhile_all {t : Str} (h : t.any isDigit = false) : (t.takeWhile fun c => !isDigit c) = t :=
  List.takeWhile_eq_self_iff.mpr fun c hc => by simpa using List.any_eq_false.mp h c hc

lemma blank_absent (h : u.any isDigit = false) : blank u = u.all isSpace := by
  rw [blank, h, takeWhile_all (by rw [List.any_reverse, h]), List.reverse_reverse]
  rfl

lemma blank_of_spaces (h : u.all isSpace = true) : blank u = true ∧ u.any isDigit = false := by
  have hno : u.any isDigit = false :=
    List.any_eq_false.mpr fun c hc => by simp [not_isDigit_of_isSpace (List.all_eq_true.mp h c hc)]
  exact ⟨by rw [blank_absent hno, h], hno⟩

lemma blank_run (hrun : ∀ c ∈ run, isDigit c = true) (hne : run ≠ []) (hpost : post.head?.any isDigit = false) :
    blank (a ++ run ++ post) = blank (post.drop 1) := by
  have hany : (a ++ run ++ post).any isDigit = true := by
    obtain ⟨c, run, rfl⟩ := List.exists_cons_of_ne_nil hne
    simp [hrun c List.mem_cons_self]
  by_cases h : post.any isDigit = true
  · cases post with
    | nil => cases h
    | cons c post =>
      have hc : isDigit c = false := by simpa using hpost
      have hrest : post.any isDigit = true := by simpa [hc] using h
      have hstop : ∀ t : Str, (post.reverse ++ t).takeWhile (fun c => !isDigit c) =
          post.reverse.takeWhile fun c => !isDigit c := by
        intro t
        rw [List.takeWhile_append, if_neg]
        intro hlen
        have hall := List.takeWhile_eq_self_iff.mp ((List.takeWhile_prefix _).eq_of_length hlen)
        obtain ⟨d, hd, hdigit⟩ := List.any_eq_true.mp hrest
        have hno := hall d (List.mem_reverse.mpr hd)
        rw [hdigit] at hno
        cases hno
      simp only [blank, hany, List.drop_one, List.tail_cons, hrest]
      rw [List.reverse_append, List.reverse_cons, List.append_assoc, hstop]
  · rw [Bool.not_eq_true] at h
    have hdrop : (post.drop 1).any isDigit = false := by
      rw [List.any_eq_false] at h ⊢
      exact fun c hc => h c (List.mem_of_mem_drop hc)
    have hstop : (a ++ run ++ post).reverse.takeWhile (fun c => !isDigit c) = post.reverse := by
      obtain ⟨c, run, rfl⟩ : ∃ c t, run = t ++ [c] :=
        ⟨run.getLast hne, run.dropLast, (List.dropLast_concat_getLast hne).symm⟩
      have hc := hrun c (by simp)
      rw [List.reverse_append, List.takeWhile_append_of_pos]
      · simp [hc]
      · intro d hd
        simpa using List.any_eq_false.mp h d (List.mem_reverse.mp hd)
    rw [blank_absent hdrop, blank, hstop, hany, List.reverse_reverse]
    rfl

lemma start_iff (pre post : Str) (ha : ∀ c ∈ a, isDigit c = false) (hrun : ∀ c ∈ run, isDigit c = true) (hne : run ≠ []) :
    (pre = [] ∧ (a ++ run ++ post).head?.any isDigit = true) ↔ pre ++ a = [] := by
  rw [List.append_eq_nil_iff]
  refine and_congr_right fun _ => ?_
  cases a with
  | nil =>
    obtain ⟨c, run, rfl⟩ := List.exists_cons_of_ne_nil hne
    simp [hrun c List.mem_cons_self]
  | cons c a => simp [ha c List.mem_cons_self]

/-- The whole loop, from any location. -/
lemma scanAll_eq (pre u : Str) (hlen : (pre ++ u).length < 2 ^ 32 - 1) {n : ℕ} (hn : u.length < n) (value : ℕ) :
    scanAll (pre ++ u) n value pre.length =
      if blank u = true ∧ ¬(pre = [] ∧ u.head?.any isDigit = true) then some (numbers u) else none := by
  induction n generalizing pre u value with
  | zero => omega
  | succ n ih =>
    simp only [scanAll, isAtEnd, List.drop_left]
    by_cases hspace : u.all isSpace = true
    · obtain ⟨hblank, hno⟩ := blank_of_spaces hspace
      have hhead : u.head?.any isDigit = false := by
        cases u with
        | nil => rfl
        | cons c u => exact (Bool.or_eq_false_iff.mp hno).1
      rw [if_pos hspace, if_pos ⟨hblank, by simp [hhead]⟩, numbers_absent hno]
    rw [if_neg hspace]
    by_cases h : u.any isDigit = true
    · obtain ⟨hu, hne, hpost⟩ := firstRun_spec h
      have hdigits := firstRun_digits u
      have hbefore := before_digits u
      have hless := firstRun_length h
      have hnumbers := numbers_run h
      generalize hbeforeEq : u.takeWhile (fun c => !isDigit c) = a at *
      generalize (firstRun u).1 = run at *
      generalize (firstRun u).2 = post at *
      subst hu
      have hscan := scan_found pre hbefore hdigits hne hpost (by simpa only [List.append_assoc] using hlen)
      simp only [← List.append_assoc] at hlen ⊢
      rw [hscan, blank_run hdigits hne hpost]
      have hstart := start_iff pre post hbefore hdigits hne
      simp only [hstart]
      by_cases hnil : pre ++ a = []
      · rw [if_pos hnil, if_neg (by simp [hnil])]
        rfl
      · have hrest := ih (pre ++ a ++ run ++ post.take 1) (post.drop 1)
          (by rwa [List.append_assoc _ (post.take 1), List.take_append_drop])
          (by rw [List.length_drop]; omega) (number run % 2 ^ 32)
        rw [List.append_assoc _ (post.take 1), List.take_append_drop] at hrest
        have hne' : pre ++ a ++ run ++ post.take 1 ≠ [] := by simp [hne]
        rw [if_neg hnil]
        change (scanAll (pre ++ a ++ run ++ post) n (number run % 2 ^ 32)
          (pre ++ a ++ run ++ post.take 1).length).bind (fun values => some (number run % 2 ^ 32 :: values)) = _
        rw [hrest]
        by_cases hb : blank (post.drop 1) = true
        · rw [if_pos ⟨hb, fun h => hne' h.1⟩, if_pos ⟨hb, hnil⟩, Option.bind_some, numbers_drop hpost, hnumbers]
        · rw [if_neg fun h => hb h.1, if_neg fun h => hb h.1, Option.bind_none]
    · rw [Bool.not_eq_true] at h
      have hscan := scan_absent pre (fun c hc => by simpa using List.any_eq_false.mp h c hc) hlen
      rw [hscan, blank_absent h, if_neg (by simp [hspace])]
      rfl

end Lines

lemma meets_iff (s : Str) (scanLocation : ℕ) (hloc : scanLocation ≤ s.length) (hlen : s.length < 2 ^ 32 - 1) :
    Meets s scanLocation ↔ DigitBehindStart s scanLocation := by
  obtain ⟨pre, u, rfl, rfl⟩ : ∃ pre u, s = pre ++ u ∧ scanLocation = pre.length :=
    ⟨s.take scanLocation, s.drop scanLocation, (List.take_append_drop _ s).symm, by simp [hloc]⟩
  have hhead : (pre.length = 0 ∧ (pre ++ u).head?.any isDigit = true) ↔ pre = [] ∧ u.head?.any isDigit = true := by
    rw [List.length_eq_zero_iff]
    refine and_congr_right ?_
    rintro rfl
    rfl
  simp only [Meets, DigitBehindStart, List.drop_left, hhead]
  by_cases h : u.any isDigit = true
  · obtain ⟨hu, hne, hpost⟩ := firstRun_spec h
    have hdigits := firstRun_digits u
    have hbefore := before_digits u
    generalize u.takeWhile (fun c => !isDigit c) = a at *
    generalize (firstRun u).1 = run at *
    generalize (firstRun u).2 = post at *
    have hwhole : pre ++ u = pre ++ a ++ run ++ post := by rw [hu]; simp only [List.append_assoc]
    have hscan := scan_found pre hbefore hdigits hne hpost (hwhole ▸ hlen)
    have hstart := start_iff pre post hbefore hdigits hne
    rw [← hu] at hstart
    have hpos := List.length_pos_of_ne_nil hne
    rw [hwhole, hscan, hstart, h]
    by_cases hnil : pre ++ a = []
    · simp [hnil]
    · simp only [if_neg hnil, hnil, not_false_eq_true, and_true, iff_true, Option.some.injEq, exists_eq_left',
        ↓reduceIte]
      simp only [List.length_append, List.length_take]
      omega
  · rw [Bool.not_eq_true] at h
    have hscan := scan_absent pre (fun c hc => by simpa using List.any_eq_false.mp h c hc) hlen
    simp [hscan, h]

lemma identifiers_iff (uninitialised : ℕ) (theData : Bytes) (hlen : theData.length < 2 ^ 32 - 1) :
    uniqueIdentifiersFromData uninitialised theData = some (numbers ((theData.drop 8).map UInt8.toUInt16)) ↔
      Scannable (theData.drop 8) := by
  have hshort : (theData.drop 8).length < 2 ^ 32 - 1 := lt_of_le_of_lt (by simp) hlen
  simp only [uniqueIdentifiersFromData, Scannable, asciiString]
  generalize theData.drop 8 = rest at *
  by_cases hempty : rest = []
  · subst hempty
    simp [numbers, numbersOf, blank]
  rw [if_neg hempty]
  by_cases hascii : rest.all (· < 128) = true
  · rw [if_pos hascii, if_pos hascii]
    have hall := scanAll_eq [] (rest.map UInt8.toUInt16) (by simpa using hshort) (Nat.lt_succ_self _) uninitialised
    simp only [List.nil_append, List.length_nil, true_and] at hall
    rw [hall]
    split_ifs with h
    · exact iff_of_true rfl h.symm
    · exact iff_of_false (fun h => by cases h) fun hs => h hs.symm
  · rw [if_neg hascii, if_neg hascii]
    change some [] = some _ ↔ _
    rw [Option.some.injEq, eq_comm]
    by_cases h : (rest.map UInt8.toUInt16).any isDigit = true
    · simp [h, numbers_run h]
    · rw [Bool.not_eq_true] at h
      simp [h, numbers_absent h]

/-- A scan does what it says exactly when a digit follows that is not the first character of the string, and the
numbers of a response line are found exactly when its rest is scannable. -/
theorem scanning_iff (s : Str) (scanLocation : ℕ) (hloc : scanLocation ≤ s.length) (hlen : s.length < 2 ^ 32 - 1)
    (uninitialised : ℕ) (theData : Bytes) (hdata : theData.length < 2 ^ 32 - 1) :
    (Meets s scanLocation ↔ DigitBehindStart s scanLocation) ∧
      (uniqueIdentifiersFromData uninitialised theData = some (numbers ((theData.drop 8).map UInt8.toUInt16)) ↔
        Scannable (theData.drop 8)) :=
  ⟨meets_iff s scanLocation hloc hlen, identifiers_iff uninitialised theData hdata⟩

theorem scanning_response : Meets ((ascii " 12 4").map UInt8.toUInt16) 0 ∧
    uniqueIdentifiersFromData 0 (ascii "* SEARCH 12 4") = some (numbers ((ascii " 12 4").map UInt8.toUInt16)) :=
  have h := scanning_iff ((ascii " 12 4").map UInt8.toUInt16) 0 (by decide) (by decide) 0 (ascii "* SEARCH 12 4")
    (by decide)
  ⟨h.1.mpr (by decide), h.2.mpr (by decide)⟩

/-- The loop over the digits does not stop at the first character, and without a digit the location is behind the
end. -/
theorem scanning_fails : ¬Meets ((ascii "7").map UInt8.toUInt16) 0 ∧ ¬Meets ((ascii "a").map UInt8.toUInt16) 0 ∧
    uniqueIdentifiersFromData 0 (ascii "* SEARCH 12 none") = none := by
  have hone : scanUnsignedInt ((ascii "7").map UInt8.toUInt16) 0 = none := by decide
  have hno : scanUnsignedInt ((ascii "a").map UInt8.toUInt16) 0 = none := by decide
  refine ⟨?_, ?_, by decide⟩
  · rintro ⟨r, hr, -⟩
    rw [hone] at hr
    cases hr
  · rintro ⟨r, hr, -⟩
    rw [hno] at hr
    cases hr

end Xperimentum.Pantomime.NumberScanning
