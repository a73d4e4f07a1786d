import Xperimentum.Pantomime.EncodedWords

/-! `CWInternetAddress`: an address and a name from a string, and from a string with spaces in front of it. -/

namespace Xperimentum.Pantomime.InternetAddress

open EncodedWords

structure Address where
  address : Str
  personal : Option Str
  deriving DecidableEq

def indexOfCharacter (theCharacter : UInt16) (w : Str) : Option ℕ := w.findIdx? (· = theCharacter)

def indexOfLastCharacter (theCharacter : UInt16) (w : Str) : Option ℕ :=
  (indexOfCharacter theCharacter w.reverse).map fun i => w.length - (i + 1)

def stringByTrimming (isWhite : UInt16 → Bool) (w : Str) : Str :=
  ((w.dropWhile isWhite).reverse.dropWhile isWhite).reverse

/-- `replaceOccurrencesOfString:withString:options:range:` for two characters and one in their place. -/
def replacePair (c d replacement : UInt16) : Str → Str
  | x :: y :: w => if x = c ∧ y = d then replacement :: replacePair c d replacement w else x :: replacePair c d replacement (y :: w)
  | w => w

/-- `\(` and `\)` lose their backslash, `\[` becomes `]`, and each other backslash is dropped. -/
def unescaped (w : Str) : Str :=
  if w.any (· ∈ asciiUnits (ascii "\\()[]")) then
    let w := replacePair 92 40 40 w
    let w := replacePair 92 41 41 w
    let w := replacePair 92 91 93 w
    let w := replacePair 92 91 93 w
    w.filter (· ≠ 92)
  else w

/-- The name in front of the address. A quote is escaped where it is the last backslash too. -/
def personalOf (nameSubStr : Str) : Str :=
  match indexOfCharacter 34 nameSubStr, indexOfLastCharacter 34 nameSubStr with
  | some idxFirstQuote, some rangeLastQuote =>
    if idxFirstQuote < rangeLastQuote ∧ idxFirstQuote = 0 ∧ some rangeLastQuote ≠ indexOfLastCharacter 92 nameSubStr then
      unescaped ((nameSubStr.drop 1).take (rangeLastQuote - 1))
    else unescaped nameSubStr
  | _, _ => nameSubStr

/-- Up to the next `>`, or to the end. -/
def addressFrom (w : Str) : Str := w.takeWhile (· ≠ 62)

def initWithString (isWhite : UInt16 → Bool) (theString : Str) : Option Address :=
  if theString = [] then none
  else
    match indexOfLastCharacter 60 theString with
    | some idxLeftAngBrk =>
      some ⟨addressFrom (theString.drop (idxLeftAngBrk + 1)),
        if 0 < idxLeftAngBrk then some (personalOf (stringByTrimming isWhite (theString.take idxLeftAngBrk))) else none⟩
    | none =>
      match indexOfCharacter 40 theString with
      | some idxLeftPar =>
        let addrStr := theString.take idxLeftPar
        let addrStr := if indexOfCharacter 34 theString = some 0 then addrStr.drop 1 else addrStr
        some ⟨stringByTrimming isWhite addrStr,
          match indexOfLastCharacter 41 theString with
          | some idxRightPar =>
            if idxLeftPar < idxRightPar then some ((theString.drop (idxLeftPar + 1)).take (idxRightPar - idxLeftPar - 1)) else none
          | none => none⟩
      | none => some ⟨theString, none⟩

section Spaces

variable {isWhite : UInt16 → Bool} {w : Str} {c : UInt16} {j : ℕ}

def spaces (j : ℕ) : Str := List.replicate j 32

lemma indexOfCharacter_spaces (hc : c ≠ 32) : indexOfCharacter c (spaces j ++ w) = (indexOfCharacter c w).map (· + j) := by
  have hnone : (spaces j).findIdx? (· = c) = none := by
    rw [List.findIdx?_eq_none_iff]
    intro d hd
    rw [List.eq_of_mem_replicate hd]
    exact decide_eq_false hc.symm
  rw [indexOfCharacter, List.findIdx?_append, hnone, Option.none_or, spaces, List.length_replicate]
  rfl

lemma indexOfCharacter_lt {i : ℕ} (h : indexOfCharacter c w = some i) : i < w.length :=
  (List.findIdx?_eq_some_iff_findIdx_eq.mp h).1

lemma indexOfLastCharacter_spaces (hc : c ≠ 32) :
    indexOfLastCharacter c (spaces j ++ w) = (indexOfLastCharacter c w).map (· + j) := by
  have hnone : (spaces j).findIdx? (· = c) = none := by
    rw [List.findIdx?_eq_none_iff]
    intro d hd
    rw [List.eq_of_mem_replicate hd]
    exact decide_eq_false hc.symm
  have hreverse : (spaces j).reverse = spaces j := List.reverse_replicate
  rw [indexOfLastCharacter, indexOfLastCharacter, indexOfCharacter, indexOfCharacter, List.reverse_append, hreverse,
    List.findIdx?_append, hnone, Option.map_none, Option.or_none, Option.map_map]
  cases hfind : w.reverse.findIdx? (· = c) with
  | none => rfl
  | some i =>
    have hlt := indexOfCharacter_lt hfind
    rw [List.length_reverse] at hlt
    refine congrArg some ?_
    rw [spaces, List.length_append, List.length_replicate]
    change j + w.length - (i + 1) = w.length - (i + 1) + j
    omega

lemma stringByTrimming_spaces (hwhite : isWhite 32 = true) : stringByTrimming isWhite (spaces j ++ w) = stringByTrimming isWhite w := by
  have hall : ∀ c ∈ spaces j, isWhite c = true := by
    intro c hc
    rwa [List.eq_of_mem_replicate hc]
  rw [stringByTrimming, List.dropWhile_append_of_pos hall, stringByTrimming]

lemma drop_spaces (i : ℕ) : (spaces j ++ w).drop (i + j) = w.drop i := by
  have hlength : (spaces j).length = j := List.length_replicate
  rw [List.drop_append, hlength, List.drop_eq_nil_of_le (by omega), Nat.add_sub_cancel, List.nil_append]

lemma take_spaces (i : ℕ) : (spaces j ++ w).take (i + j) = spaces j ++ w.take i := by
  have hlength : (spaces j).length = j := List.length_replicate
  rw [List.take_append, hlength, List.take_of_length_le (by omega), Nat.add_sub_cancel]

/-- There is something to tell the address from the rest of the string. -/
def Delimited (w : Str) : Prop := 60 ∈ w ∨ 40 ∈ w

lemma indexOfCharacter_none : indexOfCharacter c w = none ↔ c ∉ w := by
  rw [indexOfCharacter, List.findIdx?_eq_none_iff]
  refine ⟨fun h hc => ?_, fun h d hd => decide_eq_false fun heq => h (heq ▸ hd)⟩
  exact absurd rfl (of_decide_eq_false (h c hc))

lemma indexOfLastCharacter_none : indexOfLastCharacter c w = none ↔ c ∉ w := by
  rw [indexOfLastCharacter, Option.map_eq_none_iff, indexOfCharacter_none, List.mem_reverse]

/-- The address and the name when they do not depend on how many spaces there are in front. -/
def spacedAddress (isWhite : UInt16 → Bool) (w : Str) : Option Address :=
  match indexOfLastCharacter 60 w with
  | some i => some ⟨addressFrom (w.drop (i + 1)), some (personalOf (stringByTrimming isWhite (w.take i)))⟩
  | none =>
    (indexOfCharacter 40 w).map fun i => ⟨stringByTrimming isWhite (w.take i),
      match indexOfLastCharacter 41 w with
      | some i' => if i < i' then some ((w.drop (i + 1)).take (i' - i - 1)) else none
      | none => none⟩

lemma initWithString_spaces (hwhite : isWhite 32 = true) (h : Delimited w) :
    initWithString isWhite (spaces (j + 1) ++ w) = spacedAddress isWhite w := by
  have hne : spaces (j + 1) ++ w ≠ [] := fun h => by cases h
  have hdrop (i : ℕ) : (spaces (j + 1) ++ w).drop (i + (j + 1) + 1) = w.drop (i + 1) := by
    rw [show i + (j + 1) + 1 = i + 1 + (j + 1) by omega, drop_spaces]
  rw [initWithString, if_neg hne, spacedAddress, indexOfLastCharacter_spaces (by decide)]
  cases hangle : indexOfLastCharacter 60 w with
  | some i =>
    dsimp only [Option.map_some]
    rw [if_pos (by omega), hdrop, take_spaces, stringByTrimming_spaces hwhite]
  | none =>
    obtain ⟨i, hi⟩ : ∃ i, indexOfCharacter 40 w = some i := by
      cases hfind : indexOfCharacter 40 w with
      | none => exact absurd h (not_or.mpr ⟨indexOfLastCharacter_none.mp hangle, indexOfCharacter_none.mp hfind⟩)
      | some i => exact ⟨i, rfl⟩
    have hquote : indexOfCharacter 34 (spaces (j + 1) ++ w) ≠ some 0 := by
      rw [indexOfCharacter_spaces (by decide)]
      intro h
      obtain ⟨i, -, hi⟩ := Option.map_eq_some_iff.mp h
      omega
    dsimp only [Option.map_none]
    rw [indexOfCharacter_spaces (by decide), hi]
    dsimp only [Option.map_some]
    rw [if_neg hquote, take_spaces, stringByTrimming_spaces hwhite, indexOfLastCharacter_spaces (by decide), hdrop]
    cases indexOfLastCharacter 41 w with
    | none => rfl
    | some i' =>
      dsimp only [Option.map_some]
      simp only [Nat.add_lt_add_iff_right, show i' + (j + 1) - (i + (j + 1)) - 1 = i' - i - 1 by omega]

lemma initWithString_some (hne : w ≠ []) : ∃ a, initWithString isWhite w = some a := by
  rw [initWithString, if_neg hne]
  cases indexOfLastCharacter 60 w with
  | some i => exact ⟨_, rfl⟩
  | none =>
    cases indexOfCharacter 40 w with
    | some i => exact ⟨_, rfl⟩
    | none => exact ⟨_, rfl⟩

lemma initWithString_undelimited (hne : w ≠ []) (h : ¬Delimited w) : initWithString isWhite w = some ⟨w, none⟩ := by
  rw [Delimited, not_or] at h
  rw [initWithString, if_neg hne, indexOfLastCharacter_none.mpr h.1]
  dsimp only
  rw [indexOfCharacter_none.mpr h.2]

end Spaces

end Xperimentum.Pantomime.InternetAddress
