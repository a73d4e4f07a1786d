import Xperimentum.Lib.RegexSearch
import Xperimentum.Pantomime.EncodedWords

/-! `_computeBaseSubject` of `CWMessage`, with its regular expressions. -/

namespace Xperimentum.Pantomime.BaseSubject

open Lib.RegexSearch EncodedWords

/-- The default C string encoding: what is known of the characters that it gives a single byte. -/
structure CStringEncoding where
  single : UInt16 → Prop
  encode : UInt16 → UInt8
  lossyCString : Str → Bytes
  ascii : ∀ u < 128, single u ∧ encode u = u.toUInt8
  other : ∀ u, 128 ≤ u → single u → 128 ≤ encode u
  lossyCString_eq : ∀ s, (∀ u ∈ s, single u) → lossyCString s = (s.map encode).takeWhile (· ≠ 0)

section Regexes

def noneOf (cs : Bytes) : RegularExpression UInt8 :=
  oneOf (((List.range 256).map UInt8.ofNat).filter (· ∉ cs))

def spaceChars : Bytes := [32, 9, 10, 11, 12, 13]

/-- `REG_ICASE` makes a class of both cases of a letter. -/
def subjTrailer : RegularExpression UInt8 := word [[40], [102, 70], [119, 87], [100, 68], [41]] + word [[32]]

def fwdHdrChars : List Bytes := [[91], [102, 70], [119, 87], [100, 68], [58]]

def subjFwdHdr : RegularExpression UInt8 := word fwdHdrChars

def subjFwdTrl : RegularExpression UInt8 := word [[93]]

def subjBlob : RegularExpression UInt8 := word [[91]] * ((noneOf [91, 93]).star * (word [[93]] * (oneOf [32]).star))

def reOrFwd : RegularExpression UInt8 :=
  word [[114, 82], [101, 69]] + word [[102, 70], [119, 87]] * (word [[100, 68]] + 1)

def subjReFwd : RegularExpression UInt8 := reOrFwd * ((oneOf [32]).star * ((subjBlob + 1) * word [[58]]))

def subjLeader : RegularExpression UInt8 := subjBlob.star * subjReFwd + word [[32]]

def atLeastOneSpaceRegex : Pattern UInt8 := ⟨false, oneOf spaceChars * (oneOf spaceChars).star, false⟩
def suffixSubjTrailerRegex : Pattern UInt8 := ⟨false, subjTrailer.star, true⟩
def prefixSubjLeaderRegex : Pattern UInt8 := ⟨true, subjLeader, false⟩
def prefixSubjBlobRegex : Pattern UInt8 := ⟨true, subjBlob, false⟩
def prefixSubjFwdHdrAndSuffixSubjFwdTrlRegex : Pattern UInt8 :=
  ⟨true, subjFwdHdr * ((noneOf []).star * subjFwdTrl), true⟩

end Regexes

section Source

variable (e : CStringEncoding)

def matchString (p : Pattern UInt8) (theString : Str) : List (ℕ × ℕ) :=
  matchAll p ((e.lossyCString theString).length + 1) false 0 (e.lossyCString theString)

/-- `CHECK_RANGE`, of a location and a length. -/
def checkRange (r : ℕ × ℕ) (len : ℕ) : Bool := r.1 < len && r.2 < len - r.1

def replaceCharacters (s : Str) (r : ℕ × ℕ) (t : Str) : Str := s.take r.1 ++ (t ++ s.drop (r.1 + r.2))

/-- From the last match to the first. -/
def replaceSpaces (s : Str) : Str :=
  (matchString e atLeastOneSpaceRegex s).foldr
    (fun r baseSubject => if checkRange r baseSubject.length then replaceCharacters baseSubject r [32] else baseSubject) s

/-- The first match is deleted if its range is accepted. -/
def deleteFirst (p : Pattern UInt8) (s : Str) : Str × Bool :=
  match (matchString e p s).head? with
  | some r => if checkRange r s.length then (replaceCharacters s r [], true) else (s, false)
  | none => (s, false)

end Source

section Lengths

variable {e : CStringEncoding} {p : Pattern UInt8} {s : Str}

lemma head?_matchString (e : CStringEncoding) (p : Pattern UInt8) (s : Str) :
    (matchString e p s).head? = search p false (e.lossyCString s) := by
  rw [matchString, matchAll]
  cases search p false (e.lossyCString s) with
  | none => rfl
  | some r =>
    simp only [List.head?_cons, Nat.zero_add]

/-- With `^`, either the longest match at the start is deleted, which is not the whole string, or nothing is. -/
lemma deleteFirst_cases (hp : p.atStart = true) (e : CStringEncoding) (s : Str) :
    (∃ n, longest p (e.lossyCString s) = some n ∧ n < s.length ∧ deleteFirst e p s = (s.drop n, true)) ∨
      (∀ n, longest p (e.lossyCString s) = some n → s.length ≤ n) ∧ deleteFirst e p s = (s, false) := by
  rw [deleteFirst, head?_matchString, search_atStart hp]
  cases longest p (e.lossyCString s) with
  | none => exact .inr ⟨fun n hn => (Option.some_ne_none n hn.symm).elim, rfl⟩
  | some n =>
    simp only [Option.map_some, checkRange, Nat.sub_zero, Bool.and_eq_true, decide_eq_true_eq]
    by_cases hn : n < s.length
    · refine .inl ⟨n, rfl, hn, ?_⟩
      rw [if_pos ⟨Nat.zero_lt_of_lt hn, hn⟩, replaceCharacters, List.take_zero, Nat.zero_add, List.nil_append,
        List.nil_append]
    · refine .inr ⟨fun m hm => Option.some.inj hm ▸ Nat.not_lt.mp hn, ?_⟩
      rw [if_neg fun h => hn h.2]

lemma length_deleteFirst_le (e : CStringEncoding) (p : Pattern UInt8) (s : Str) :
    (deleteFirst e p s).1.length ≤ s.length := by
  rw [deleteFirst]
  split
  · rename_i r _
    split_ifs with h
    · simp only [checkRange, Bool.and_eq_true, decide_eq_true_eq] at h
      simp only [replaceCharacters, List.nil_append, List.length_append, List.length_take, List.length_drop]
      omega
    · exact le_rfl
  · exact le_rfl

/-- A pattern of nonempty matches makes the string shorter. -/
lemma length_deleteFirst_lt (hp : p.atStart = true) (hne : [] ∉ p.body.matches') (h : (deleteFirst e p s).2 = true) :
    (deleteFirst e p s).1.length < s.length := by
  rcases deleteFirst_cases hp e s with ⟨n, hn, hlt, heq⟩ | ⟨-, heq⟩
  · rw [heq, List.length_drop]
    have hpos : 0 < n := by
      rcases longest_cases p id (e.lossyCString s) with ⟨x, hx, ⟨a, -, hmem, -⟩, -⟩ | ⟨hnone, -⟩
      · rw [List.map_id] at hx hmem
        rw [hn] at hx
        rw [Option.some.inj hx]
        refine List.length_pos_of_ne_nil fun hnil => hne ?_
        rw [← hnil]
        exact hmem
      · rw [List.map_id, hn] at hnone
        cases hnone
    omega
  · rw [heq] at h
    cases h

lemma nil_notMem_mul_word {c : Bytes} {css : List Bytes} {r : RegularExpression UInt8} :
    [] ∉ (word (c :: css) * r).matches' := by
  intro h
  obtain ⟨a, b, hab, ha, -⟩ := map_mem_mul.mp (show ([] : Bytes).map id ∈ _ from h)
  rw [(List.append_eq_nil_iff.mp hab.symm).1] at ha
  cases map_mem_word.mp ha

lemma nil_notMem_subjBlob : [] ∉ subjBlob.matches' := nil_notMem_mul_word

lemma nil_notMem_subjLeader : [] ∉ subjLeader.matches' := by
  intro h
  rcases map_mem_add.mp (show ([] : Bytes).map id ∈ _ from h) with h | h
  · obtain ⟨a, b, hab, -, hb⟩ := map_mem_mul.mp h
    rw [(List.append_eq_nil_iff.mp hab.symm).2] at hb
    obtain ⟨a, b, hab, ha, hb⟩ := map_mem_mul.mp hb
    rw [(List.append_eq_nil_iff.mp hab.symm).1] at ha
    rcases map_mem_add.mp ha with ha | ha
    · cases map_mem_word.mp ha
    · exact nil_notMem_mul_word ha
  · cases map_mem_word.mp h

end Lengths

section Source

variable (e : CStringEncoding)

/-- Leaders and blobs are deleted until there is nothing to delete. -/
def removeLeaders (s : Str) : Str :=
  if (deleteFirst e prefixSubjLeaderRegex s).2 = true ∨
      (deleteFirst e prefixSubjBlobRegex (deleteFirst e prefixSubjLeaderRegex s).1).2 = true then
    removeLeaders (deleteFirst e prefixSubjBlobRegex (deleteFirst e prefixSubjLeaderRegex s).1).1
  else (deleteFirst e prefixSubjBlobRegex (deleteFirst e prefixSubjLeaderRegex s).1).1
termination_by s.length
decreasing_by
  rename_i h
  have hleader := length_deleteFirst_le e prefixSubjLeaderRegex s
  have hblob := length_deleteFirst_le e prefixSubjBlobRegex (deleteFirst e prefixSubjLeaderRegex s).1
  rcases h with h | h
  · exact hblob.trans_lt (length_deleteFirst_lt rfl nil_notMem_subjLeader h)
  · exact (length_deleteFirst_lt rfl nil_notMem_subjBlob h).trans_le hleader

lemma length_removeLeaders_le (s : Str) : (removeLeaders e s).length ≤ s.length := by
  induction s using removeLeaders.induct e with
  | case1 s h ih =>
    rw [removeLeaders, if_pos h]
    exact ih.trans ((length_deleteFirst_le e _ _).trans (length_deleteFirst_le e _ _))
  | case2 s h =>
    rw [removeLeaders, if_neg h]
    exact (length_deleteFirst_le e _ _).trans (length_deleteFirst_le e _ _)

/-- There is no result where characters are deleted that a string does not have. -/
def computeLoop (s : Str) : Option Str :=
  if matchString e prefixSubjFwdHdrAndSuffixSubjFwdTrlRegex
      (removeLeaders e (deleteFirst e suffixSubjTrailerRegex s).1) = [] then
    some (removeLeaders e (deleteFirst e suffixSubjTrailerRegex s).1)
  else if (removeLeaders e (deleteFirst e suffixSubjTrailerRegex s).1).length < 6 then none
  else computeLoop ((removeLeaders e (deleteFirst e suffixSubjTrailerRegex s).1).drop 5).dropLast
termination_by s.length
decreasing_by
  have hleaders := length_removeLeaders_le e (deleteFirst e suffixSubjTrailerRegex s).1
  have htrailer := length_deleteFirst_le e suffixSubjTrailerRegex s
  rw [List.length_dropLast, List.length_drop]
  omega

def computeBaseSubject (aSubject : Option Str) : Option (Option Str) :=
  match aSubject with
  | none => some none
  | some s => (computeLoop e (replaceSpaces e s)).map some

end Source

end Xperimentum.Pantomime.BaseSubject
