import Mathlib.Tactic
import Xperimentum.Lib.Int32

/-! Bytes as `NSData` holds them: lines, character classes and searches. -/

namespace Xperimentum.Pantomime

open Xperimentum.Lib.Int32

abbrev Bytes := List UInt8

def ascii (s : String) : Bytes := s.toList.map fun c => UInt8.ofNat c.toNat

def crlf : Bytes := [13, 10]

/-- The byte in front of the buffer, which the source reads for a `\n` at its start, is taken not to be `\r`. -/
@[grind =] def splitLines : Bytes → Option (Bytes × Bytes)
  | a :: b :: rest =>
    if a = 13 ∧ b = 10 then some ([], rest) else (splitLines (b :: rest)).map fun line => (a :: line.1, line.2)
  | _ => none

def isDigit (c : UInt8) : Bool := 48 ≤ c && c ≤ 57

def isAlpha (c : UInt8) : Bool := 65 ≤ c && c ≤ 90 || 97 ≤ c && c ≤ 122

def isSpace (c : UInt8) : Bool := c = 32 || 9 ≤ c && c ≤ 13

def decimal (digits : Bytes) : ℕ := digits.foldl (fun n c => 10 * n + (c.toNat - 48)) 0

/-- The digits are read as a `long`, which stops at its bounds, and narrowed. -/
def atoi (b : Bytes) : ℤ :=
  match b.dropWhile isSpace with
  | 45 :: b => wrap32 (max (-2 ^ 63) (-decimal (b.takeWhile isDigit)))
  | 43 :: b => wrap32 (min (2 ^ 63 - 1) (decimal (b.takeWhile isDigit)))
  | b => wrap32 (min (2 ^ 63 - 1) (decimal (b.takeWhile isDigit)))

def lower (c : UInt8) : UInt8 := if 65 ≤ c && c ≤ 90 then c + 32 else c

/-- `strncasecmp` of a keyword with as many bytes of the buffer. -/
def hasKeyword (keyword : String) (buf : Bytes) : Bool :=
  (buf.take keyword.length).map lower = (ascii keyword).map lower

/-- Non-ASCII data gives `nil`, which is appended like an empty string. -/
def asciiString (aData : Bytes) : Bytes := if aData.all (· < 128) then aData else []

def hasCPrefix (aData : Bytes) (theCString : Bytes) : Bool := theCString.isPrefixOf aData

/-- What stands before and behind the first occurrence of a C string. -/
@[grind =] def findCString (theCString : Bytes) : Bytes → Option (Bytes × Bytes)
  | [] => none
  | c :: s =>
    if theCString.isPrefixOf (c :: s) then some ([], (c :: s).drop theCString.length)
    else (findCString theCString s).map fun found => (c :: found.1, found.2)

@[grind =] def replaceCRLFWithLF : Bytes → Bytes
  | 13 :: 10 :: s => 10 :: replaceCRLFWithLF s
  | c :: s => c :: replaceCRLFWithLF s
  | [] => []

@[grind =] def replaceLFWithCRLF : Bytes → Bytes
  | 13 :: 10 :: s => 13 :: 10 :: replaceLFWithCRLF s
  | 10 :: s => 13 :: 10 :: replaceLFWithCRLF s
  | c :: s => c :: replaceLFWithCRLF s
  | [] => []

/-- The bytes up to the first CRLF, and the lines behind it. -/
@[grind =] def lines : Bytes → Bytes × List Bytes
  | 13 :: 10 :: s => ([], (lines s).1 :: (lines s).2)
  | c :: s => (c :: (lines s).1, (lines s).2)
  | [] => ([], [])

@[grind =] def joinLines : Bytes → List Bytes → Bytes
  | l, [] => l
  | l, l' :: ls => l ++ 13 :: 10 :: joinLines l' ls

lemma findCString_some {q m x y : Bytes} (h : findCString q m = some (x, y)) : m = x ++ q ++ y := by
  induction m generalizing x with
  | nil => cases h
  | cons c m ih =>
    rw [findCString] at h
    split_ifs at h with hpre
    · obtain ⟨rfl, rfl⟩ := Prod.mk.inj (Option.some.inj h)
      obtain ⟨t, ht⟩ := List.isPrefixOf_iff_prefix.mp hpre
      rw [← ht, List.drop_left, List.nil_append]
    · obtain ⟨⟨x', y'⟩, hfound, heq⟩ := Option.map_eq_some_iff.mp h
      obtain ⟨rfl, rfl⟩ := Prod.mk.inj heq
      rw [ih hfound]
      rfl

lemma findCString_first {q m x y x' y' : Bytes} (h : findCString q m = some (x, y)) (hm : m = x' ++ q ++ y') :
    x.length ≤ x'.length := by
  induction m generalizing x x' with
  | nil => cases h
  | cons c m ih =>
    rw [findCString] at h
    split_ifs at h with hpre
    · obtain ⟨rfl, -⟩ := Prod.mk.inj (Option.some.inj h)
      exact Nat.zero_le _
    · obtain ⟨⟨z, y''⟩, hfound, heq⟩ := Option.map_eq_some_iff.mp h
      obtain ⟨rfl, rfl⟩ := Prod.mk.inj heq
      cases x' with
      | nil => exact absurd (List.isPrefixOf_iff_prefix.mpr ⟨y', by rw [hm]; rfl⟩) hpre
      | cons d x' => exact Nat.succ_le_succ (ih hfound (List.cons.inj hm).2)

section Lines

variable {a b l r : Bytes}

lemma splitLines_cons (c d : UInt8) (h : ¬(c = 13 ∧ d = 10)) (b : Bytes) :
    splitLines (c :: d :: b) = (splitLines (d :: b)).map fun line => (c :: line.1, line.2) := by
  simp only [splitLines, if_neg h]

lemma splitLines_line (hl : splitLines l = none) (rest : Bytes) :
    splitLines (l ++ 13 :: 10 :: rest) = some (l, rest) := by
  induction l with
  | nil => rfl
  | cons x l ih =>
    cases l with
    | nil =>
      have hne : ¬(x = 13 ∧ (13 : UInt8) = 10) := by
        rintro ⟨-, h⟩
        exact absurd h (by decide)
      simp only [List.cons_append, List.nil_append, splitLines, if_neg hne]
      rfl
    | cons y l =>
      simp only [splitLines] at hl
      split_ifs at hl with hxy
      have hrest := ih (Option.map_eq_none_iff.mp hl)
      rw [List.cons_append] at hrest
      simp only [List.cons_append, splitLines, if_neg hxy, hrest]
      rfl

lemma splitLines_some (h : splitLines b = some (l, r)) : b = l ++ 13 :: 10 :: r ∧ splitLines l = none := by
  induction b generalizing l r with
  | nil => cases h
  | cons x b ih =>
    cases b with
    | nil => cases h
    | cons y b =>
      simp only [splitLines] at h
      split_ifs at h with hxy
      · obtain ⟨rfl, rfl⟩ := Prod.mk.inj (Option.some.inj h)
        rw [hxy.1, hxy.2]
        exact ⟨rfl, rfl⟩
      · obtain ⟨⟨l', r'⟩, hrest, heq⟩ := Option.map_eq_some_iff.mp h
        obtain ⟨rfl, rfl⟩ := Prod.mk.inj heq
        obtain ⟨hb, hl⟩ := ih hrest
        refine ⟨by rw [hb]; rfl, ?_⟩
        cases l' with
        | nil => rfl
        | cons z l' =>
          obtain ⟨rfl, -⟩ := List.cons.inj hb
          simp only [splitLines, if_neg hxy, hl, Option.map_none]

lemma splitLines_left (h : splitLines (a ++ b) = none) : splitLines a = none := by
  cases ha : splitLines a with
  | none => rfl
  | some line =>
    obtain ⟨rfl, hl⟩ := splitLines_some ha
    have hsome := splitLines_line hl (line.2 ++ b)
    rw [← List.cons_append, ← List.cons_append, ← List.append_assoc, h] at hsome
    cases hsome

lemma splitLines_append (ha : splitLines a = none) (hb : splitLines b = none)
    (hcut : ¬(a.getLast? = some 13 ∧ b.head? = some 10)) : splitLines (a ++ b) = none := by
  induction a with
  | nil => exact hb
  | cons x a ih =>
    cases a with
    | nil =>
      cases b with
      | nil => rfl
      | cons y b =>
        have hxy : ¬(x = 13 ∧ y = 10) := by
          rintro ⟨rfl, rfl⟩
          exact hcut ⟨rfl, rfl⟩
        simp only [List.cons_append, List.nil_append, splitLines, if_neg hxy, hb, Option.map_none]
    | cons y a =>
      simp only [splitLines] at ha
      split_ifs at ha with hxy
      rw [List.getLast?_cons_cons] at hcut
      have hrest := ih (Option.map_eq_none_iff.mp ha) hcut
      rw [List.cons_append] at hrest
      simp only [List.cons_append, splitLines, if_neg hxy, hrest, Option.map_none]

lemma splitLines_tail {c : UInt8} (h : splitLines (c :: l) = none) : splitLines l = none := by
  cases l with
  | nil => rfl
  | cons d l =>
    simp only [splitLines] at h
    split_ifs at h
    exact Option.map_eq_none_iff.mp h

lemma splitLines_right (h : splitLines (a ++ b) = none) : splitLines b = none := by
  induction a with
  | nil => exact h
  | cons c a ih => exact ih (splitLines_tail h)

lemma splitLines_lf (h : splitLines l = none) : splitLines (10 :: l) = none := by
  cases l with
  | nil => rfl
  | cons d l => rw [splitLines_cons 10 d (fun hc => absurd hc.1 (by decide)), h, Option.map_none]

lemma lines_cons {c : UInt8} (h : ∀ s, c = 13 → l ≠ 10 :: s) : lines (c :: l) = (c :: (lines l).1, (lines l).2) := by
  rw [lines]
  rintro s rfl rfl
  exact h s rfl rfl

lemma joinLines_append (l : Bytes) (ls : List Bytes) (x : Bytes) (xs : List Bytes) :
    joinLines l (ls ++ x :: xs) = joinLines l ls ++ 13 :: 10 :: joinLines x xs := by
  induction ls generalizing l with
  | nil => rfl
  | cons y ls ih => simp only [List.cons_append, joinLines, ih, List.append_assoc]

lemma length_le_joinLines (l : Bytes) (ls : List Bytes) : l.length ≤ (joinLines l ls).length := by
  cases ls <;> simp [joinLines]

lemma joinLines_cons (c : UInt8) (l : Bytes) (ls : List Bytes) : joinLines (c :: l) ls = c :: joinLines l ls := by
  cases ls <;> rfl

lemma joinLines_lines (b : Bytes) : joinLines (lines b).1 (lines b).2 = b := by
  induction b using lines.induct with
  | case1 s ih => rw [lines, joinLines, ih, List.nil_append]
  | case2 c s hne ih =>
    rw [lines, joinLines_cons, ih]
    exact hne
  | case3 => rfl

lemma lines_free (b : Bytes) : splitLines (lines b).1 = none ∧ ∀ l ∈ (lines b).2, splitLines l = none := by
  induction b using lines.induct with
  | case1 s ih =>
    rw [lines]
    refine ⟨rfl, fun l hl => ?_⟩
    rcases List.mem_cons.mp hl with rfl | hl
    · exact ih.1
    · exact ih.2 l hl
  | case2 c s hne ih =>
    have hs := joinLines_lines s
    rw [lines]
    · refine ⟨?_, ih.2⟩
      cases hl : (lines s).1 with
      | nil => rfl
      | cons d l =>
        rw [hl, joinLines_cons] at hs
        have hcd : ¬(c = 13 ∧ d = 10) := by
          rintro ⟨rfl, rfl⟩
          exact hne _ rfl hs.symm
        rw [splitLines_cons c d hcd, ← hl, ih.1, Option.map_none]
    · exact hne
  | case3 => exact ⟨rfl, by simp [lines]⟩

lemma lines_line (hl : splitLines l = none) (b : Bytes) :
    lines (l ++ 13 :: 10 :: b) = (l, (lines b).1 :: (lines b).2) := by
  induction l with
  | nil => rfl
  | cons c l ih =>
    rw [List.cons_append, lines_cons, ih (splitLines_tail hl)]
    rintro s rfl hs
    cases l with
    | nil => simp at hs
    | cons d l =>
      obtain ⟨rfl, -⟩ := List.cons.inj hs
      simp [splitLines] at hl

lemma lines_last (hl : splitLines l = none) : lines l = (l, []) := by
  induction l with
  | nil => rfl
  | cons c l ih =>
    rw [lines_cons, ih (splitLines_tail hl)]
    rintro s rfl rfl
    simp [splitLines] at hl

lemma lines_joinLines (hl : splitLines l = none) {ls : List Bytes} (hls : ∀ x ∈ ls, splitLines x = none) :
    lines (joinLines l ls) = (l, ls) := by
  induction ls generalizing l with
  | nil => exact lines_last hl
  | cons x ls ih =>
    have hx := ih (hls x List.mem_cons_self) fun y hy => hls y (List.mem_cons_of_mem x hy)
    rw [joinLines, lines_line hl, hx]

lemma joinLines_injective {l' : Bytes} {ls ls' : List Bytes} (h : joinLines l ls = joinLines l' ls')
    (hl : splitLines l = none) (hls : ∀ x ∈ ls, splitLines x = none) (hl' : splitLines l' = none)
    (hls' : ∀ x ∈ ls', splitLines x = none) : l = l' ∧ ls = ls' := by
  have hlines := lines_joinLines hl hls
  rw [h, lines_joinLines hl' hls'] at hlines
  obtain ⟨rfl, rfl⟩ := Prod.mk.inj hlines
  exact ⟨rfl, rfl⟩

lemma findCString_line (q : Bytes) (hl : splitLines l = none) (b : Bytes) :
    findCString (crlf ++ q) (l ++ 13 :: 10 :: b) =
      if q.isPrefixOf b then some (l, b.drop q.length)
      else (findCString (crlf ++ q) b).map fun found => (l ++ 13 :: 10 :: found.1, found.2) := by
  induction l with
  | nil =>
    by_cases hq : q.isPrefixOf b
    · simp [crlf, findCString, List.isPrefixOf, hq]
    · simp [crlf, findCString, List.isPrefixOf, hq, Function.comp_def]
  | cons c l ih =>
    have hno : ¬(crlf ++ q).isPrefixOf (c :: l ++ 13 :: 10 :: b) := by
      intro hpre
      obtain ⟨t, ht⟩ := List.isPrefixOf_iff_prefix.mp hpre
      cases l with
      | nil => simp [crlf] at ht
      | cons d l =>
        simp only [crlf, List.cons_append, List.cons.injEq] at ht
        obtain ⟨rfl, rfl, -⟩ := ht
        simp [splitLines] at hl
    rw [List.cons_append] at hno
    rw [List.cons_append, findCString, if_neg hno, ih (splitLines_tail hl)]
    split_ifs
    · rfl
    · simp only [Option.map_map, Function.comp_def, List.cons_append]

lemma findCString_free (q : Bytes) (hl : splitLines l = none) : findCString (crlf ++ q) l = none := by
  induction l with
  | nil => rfl
  | cons c l ih =>
    have hno : ¬(crlf ++ q).isPrefixOf (c :: l) := by
      intro hpre
      obtain ⟨t, ht⟩ := List.isPrefixOf_iff_prefix.mp hpre
      simp only [crlf, List.cons_append, List.cons.injEq] at ht
      obtain ⟨rfl, rfl⟩ := ht
      simp [splitLines] at hl
    rw [findCString, if_neg hno, ih (splitLines_tail hl), Option.map_none]

end Lines

end Xperimentum.Pantomime
