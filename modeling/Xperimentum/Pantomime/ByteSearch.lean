import Xperimentum.Lib.LinearSearch
import Xperimentum.Pantomime.Data

/-! The searches of `NSData` for other data and for a C string. -/

namespace Xperimentum.Pantomime

open Lib.LinearSearch Lib.Partial

structure NSData where
  bytes : Bytes
  length_lt : bytes.length < 2 ^ 63

structure CString where
  bytes : Bytes
  nonzero : 0 ∉ bytes

/-- The location is missing where it is `NSNotFound`. -/
structure NSRange where
  location : Option ℕ
  length : ℕ

def notFound : NSRange := ⟨none, 0⟩

/-- The difference of two `NSUInteger`s. -/
def unsignedSub (m n : ℕ) : ℕ := if n ≤ m then m - n else 2 ^ 64 + m - n

/-- All of the bytes have to be there. -/
def memcmpAt (str b : Bytes) (i : ℕ) : Option Bool :=
  if i + str.length ≤ b.length then some (decide ((b.drop i).take str.length = str)) else none

/-- The bytes are read up to the first difference. -/
def strncasecmpAt (b : Bytes) : Bytes → ℕ → Option Bool
  | [], _ => some true
  | c :: str, i => do
    let d ← b[i]?
    if lower c = lower d then strncasecmpAt b str (i + 1) else some false

def foundAt (slen : ℕ) : Option ℕ → NSRange
  | some i => ⟨some i, slen⟩
  | none => notFound

/-- The loop for `i` from `start` on, as long as it is at most `len - slen`. -/
def searchUpTo (test : ℕ → Option Bool) (len slen start : ℕ) : Option NSRange :=
  (search test (unsignedSub len slen + 1 - start) start).map (foundAt slen)

def rangeOfData (data theData : NSData) : Option NSRange :=
  if theData.bytes = [] then some notFound
  else searchUpTo (memcmpAt theData.bytes data.bytes) data.bytes.length theData.bytes.length 0

def caseInsensitiveSearch : ℕ := 1

def rangeOfCString (data : NSData) (theCString : CString) (theOptions : ℕ) (theRange : NSRange) : Option NSRange :=
  match theRange.location with
  | none => some notFound
  | some location =>
    let len := data.bytes.length
    let slen := theCString.bytes.length
    if len < slen then some notFound
    else
      let len := if location + theRange.length < len then location + theRange.length else len
      if theOptions = caseInsensitiveSearch then
        searchUpTo (strncasecmpAt data.bytes theCString.bytes) len slen location
      else searchUpTo (memcmpAt theCString.bytes data.bytes) len slen location

variable {pattern b : Bytes} {f : UInt8 → UInt8} {test : ℕ → Option Bool} {start len lo hi i : ℕ}

def Matches (f : UInt8 → UInt8) (pattern b : Bytes) (i : ℕ) : Prop :=
  ((b.drop i).take pattern.length).map f = pattern.map f

instance (f : UInt8 → UInt8) (pattern b : Bytes) : DecidablePred (Matches f pattern b) := fun _ =>
  inferInstanceAs (Decidable (_ = _))

/-- The first place between `lo` and `hi` where the whole pattern is, up to `f`. -/
def IsFirstIn (f : UInt8 → UInt8) (pattern b : Bytes) (lo hi : ℕ) (r : NSRange) : Prop :=
  ∃ found, r = foundAt pattern.length found ∧
    First (fun i => i + pattern.length ≤ hi ∧ Matches f pattern b i) lo (hi + 1) found

section Tests

lemma memcmpAt_eq (h : i + pattern.length ≤ b.length) : memcmpAt pattern b i = some (decide (Matches id pattern b i)) := by
  rw [memcmpAt, if_pos h]
  refine congrArg some (decide_eq_decide.mpr ?_)
  rw [Matches, List.map_id, List.map_id]

lemma memcmpAt_none (h : b.length < i + pattern.length) : memcmpAt pattern b i = none := if_neg (not_le.mpr h)

lemma strncasecmpAt_eq (h : i + pattern.length ≤ b.length) :
    strncasecmpAt b pattern i = some (decide (Matches lower pattern b i)) := by
  induction pattern generalizing i with
  | nil => exact congrArg some (decide_eq_true (by simp [Matches])).symm
  | cons c pattern ih =>
    rw [List.length_cons] at h
    have hi : i < b.length := by omega
    have hmatches : Matches lower (c :: pattern) b i ↔ lower c = lower b[i] ∧ Matches lower pattern b (i + 1) := by
      rw [Matches, Matches, List.length_cons, List.drop_eq_getElem_cons hi, List.take_succ_cons, List.map_cons,
        List.map_cons, List.cons_eq_cons]
      exact and_congr_left' eq_comm
    rw [strncasecmpAt, List.getElem?_eq_getElem hi, Option.bind_eq_bind, Option.bind_some]
    by_cases hc : lower c = lower b[i]
    · rw [if_pos hc, ih (by omega)]
      exact congrArg some (decide_eq_decide.mpr ((hmatches.trans (and_iff_right hc)).symm))
    · rw [if_neg hc]
      exact congrArg some (decide_eq_false fun h => hc (hmatches.mp h).1).symm

lemma strncasecmpAt_end (h : pattern ≠ []) : strncasecmpAt b pattern b.length = none := by
  cases pattern with
  | nil => exact absurd rfl h
  | cons c pattern =>
    rw [strncasecmpAt, List.getElem?_eq_none le_rfl]
    rfl

lemma matches_lower (i : ℕ) (h : Matches id pattern b i) : Matches lower pattern b i := by
  rw [Matches, List.map_id, List.map_id] at h
  rw [Matches, h]

end Tests

section Ranges

lemma searchUpTo_first (htest : ∀ i, i + pattern.length ≤ len → test i = some (decide (Matches f pattern b i)))
    (hlen : pattern.length ≤ len) :
    Ensures (searchUpTo test len pattern.length start) (IsFirstIn f pattern b start len) := by
  rw [searchUpTo, unsignedSub, if_pos hlen]
  obtain ⟨found, hsearch, hfirst⟩ :=
    search_first (i := start) (n := len - pattern.length + 1 - start) fun j hlo hhi => htest j (by omega)
  rw [hsearch]
  refine ensures_some ⟨found, rfl, ?_⟩
  cases found with
  | none =>
    rintro j hlo - ⟨hfits, hmatches⟩
    exact hfirst j hlo (by omega) hmatches
  | some i =>
    obtain ⟨⟨hlo, hhi, hmatches⟩, hbefore⟩ := hfirst
    exact ⟨⟨hlo, by omega, by omega, hmatches⟩, fun j hj hji h => hbefore j hj hji h.2⟩

lemma searchUpTo_wrong {m : ℕ} (hlen : len < pattern.length) (hstart : start ≤ m)
    (hm : m < 2 ^ 64 + len - pattern.length + 1) (hstuck : test m = none) (f : UInt8 → UInt8) (b : Bytes) (lo : ℕ) :
    ¬∃ r, searchUpTo test len pattern.length start = some r ∧ IsFirstIn f pattern b lo len r := by
  rintro ⟨r, hr, found, rfl, hfirst⟩
  obtain ⟨found', hsearch, heq⟩ := Option.map_eq_some_iff.mp hr
  rw [unsignedSub, if_neg (not_le.mpr hlen)] at hsearch
  cases found with
  | some i =>
    have hfits := hfirst.1.2.2.1
    omega
  | none =>
    cases found' with
    | some i => cases heq
    | none => exact search_stuck hstart (by omega) hstuck hsearch

lemma foundAt_injective {n : ℕ} {r r' : Option ℕ} (h : foundAt n r = foundAt n r') : r = r' := by
  have hlocation (r : Option ℕ) : (foundAt n r).location = r := by cases r <;> rfl
  rw [← hlocation r, h, hlocation]

lemma isFirstIn_short (h : hi < pattern.length) : IsFirstIn f pattern b lo hi notFound := by
  refine ⟨none, rfl, ?_⟩
  rintro j - - ⟨hfits, -⟩
  omega

lemma isFirstIn_iff {g : UInt8 → UInt8} (hfg : ∀ i, Matches f pattern b i → Matches g pattern b i) {r : NSRange}
    (hr : IsFirstIn f pattern b lo hi r) : IsFirstIn g pattern b lo hi r ↔
      ∀ i, lo ≤ i → i + pattern.length ≤ hi → Matches g pattern b i → ∃ j, lo ≤ j ∧ j ≤ i ∧ Matches f pattern b j := by
  obtain ⟨found, rfl, hfirst⟩ := hr
  have hiff := first_iff (Q := fun i => i + pattern.length ≤ hi ∧ Matches g pattern b i)
    (fun j h => ⟨h.1, hfg j h.2⟩) hfirst
  constructor
  · rintro ⟨found', heq, hfirst'⟩ i hlo hfits hmatches
    obtain rfl := foundAt_injective heq
    obtain ⟨j, hj, hji, hp⟩ := hiff.mp hfirst' i hlo (by omega) ⟨hfits, hmatches⟩
    exact ⟨j, hj, hji, hp.2⟩
  · intro h
    refine ⟨found, rfl, hiff.mpr ?_⟩
    rintro i hlo - ⟨hfits, hmatches⟩
    obtain ⟨j, hj, hji, hp⟩ := h i hlo hfits hmatches
    exact ⟨j, hj, hji, by omega, hp⟩

end Ranges

/-- Bit 0 of the options asks for a search that ignores the case. -/
def folding (theOptions : ℕ) : UInt8 → UInt8 := if theOptions % 2 = 1 then lower else id

/-- The pattern is not longer than what is in front of the end of the range, or longer than all of the data; and when
further options are set, no occurrence that differs in case is in front of the exact ones. -/
def SearchFits (pattern b : Bytes) (theOptions location length : ℕ) : Prop :=
  (pattern.length ≤ b.length → pattern.length ≤ location + length) ∧
    (theOptions % 2 = 1 → theOptions ≠ caseInsensitiveSearch → ∀ i, location ≤ i → i + pattern.length ≤ location + length →
      Matches lower pattern b i → ∃ j, location ≤ j ∧ j ≤ i ∧ Matches id pattern b j)

lemma rangeOfData_iff (data theData : NSData) :
    (∃ r, rangeOfData data theData = some r ∧ IsFirstIn id theData.bytes data.bytes 0 data.bytes.length r) ↔
      theData.bytes ≠ [] ∧ theData.bytes.length ≤ data.bytes.length := by
  rw [rangeOfData]
  by_cases hnil : theData.bytes = []
  · rw [if_pos hnil]
    refine iff_of_false ?_ fun h => h.1 hnil
    rintro ⟨r, hr, found, hfound, hfirst⟩
    obtain rfl := Option.some.inj hr
    obtain rfl := foundAt_injective (n := theData.bytes.length) (r := none) hfound
    refine hfirst 0 le_rfl (Nat.succ_pos _) ⟨?_, ?_⟩
    · rw [hnil]
      exact Nat.zero_le _
    · rw [hnil]
      exact List.map_eq_nil_iff.mpr List.take_zero
  rw [if_neg hnil, and_iff_right hnil]
  by_cases hlen : theData.bytes.length ≤ data.bytes.length
  · exact iff_of_true (searchUpTo_first (fun i => memcmpAt_eq) hlen) hlen
  · refine iff_of_false ?_ hlen
    have hdata := theData.length_lt
    refine searchUpTo_wrong (m := 0) (not_le.mp hlen) le_rfl (by omega) (memcmpAt_none ?_) _ _ _
    omega

lemma rangeOfCString_iff (data : NSData) (theCString : CString) (theOptions : ℕ) {location length : ℕ}
    (hrange : location + length ≤ data.bytes.length) :
    (∃ r, rangeOfCString data theCString theOptions ⟨some location, length⟩ = some r ∧
      IsFirstIn (folding theOptions) theCString.bytes data.bytes location (location + length) r) ↔
      SearchFits theCString.bytes data.bytes theOptions location length := by
  have hend : (if location + length < data.bytes.length then location + length else data.bytes.length) = location + length := by
    split_ifs <;> omega
  have hdata := data.length_lt
  rw [rangeOfCString]
  simp only [hend]
  by_cases hlong : data.bytes.length < theCString.bytes.length
  · rw [if_pos hlong]
    refine iff_of_true ⟨notFound, rfl, isFirstIn_short (by omega)⟩ ⟨fun h => ?_, fun _ _ i _ hfits => ?_⟩
    · omega
    · omega
  rw [if_neg hlong, SearchFits, imp_iff_right (not_lt.mp hlong)]
  by_cases hover : location + length < theCString.bytes.length
  · -- the limit of the loop is behind the data
    refine iff_of_false ?_ fun h => absurd h.1 (not_le.mpr hover)
    have hne : theCString.bytes ≠ [] := List.ne_nil_of_length_pos (by omega)
    split_ifs
    · exact searchUpTo_wrong (m := data.bytes.length) hover (by omega) (by omega) (strncasecmpAt_end hne) _ _ _
    · refine searchUpTo_wrong (m := data.bytes.length) hover (by omega) (by omega) (memcmpAt_none (by omega)) _ _ _
  rw [and_iff_right (not_lt.mp hover)]
  have hexact : Ensures (searchUpTo (memcmpAt theCString.bytes data.bytes) (location + length) theCString.bytes.length location)
      (IsFirstIn id theCString.bytes data.bytes location (location + length)) :=
    searchUpTo_first (fun i hi => memcmpAt_eq (by omega)) (not_lt.mp hover)
  by_cases hoption : theOptions = caseInsensitiveSearch
  · subst hoption
    rw [if_pos rfl]
    refine iff_of_true (searchUpTo_first (fun i hi => strncasecmpAt_eq (by omega)) (not_lt.mp hover)) ?_
    exact fun _ hne => absurd rfl hne
  rw [if_neg hoption]
  obtain ⟨r, hr, hfirst⟩ := hexact
  rw [hr]
  by_cases hfold : theOptions % 2 = 1
  · rw [folding, if_pos hfold, imp_iff_right hfold, imp_iff_right hoption, ← isFirstIn_iff matches_lower hfirst]
    constructor
    · rintro ⟨r', hr', hfirst'⟩
      obtain rfl := Option.some.inj hr'
      exact hfirst'
    · exact fun hfirst' => ⟨r, rfl, hfirst'⟩
  · rw [folding, if_neg hfold]
    exact iff_of_true ⟨r, rfl, hfirst⟩ fun h => absurd h hfold

lemma first_findCString (hne : pattern ≠ []) (b : Bytes) :
    First (fun i => i + pattern.length ≤ b.length ∧ Matches id pattern b i) 0 (b.length + 1)
      ((findCString pattern b).map fun found => found.1.length) := by
  induction b with
  | nil =>
    rintro j - - ⟨hfits, -⟩
    have hpos := List.length_pos_of_ne_nil hne
    rw [List.length_nil] at hfits
    omega
  | cons c s ih =>
    have hstarts : (0 + pattern.length ≤ (c :: s).length ∧ Matches id pattern (c :: s) 0) ↔
        pattern.isPrefixOf (c :: s) = true := by
      rw [Matches, List.map_id, List.map_id, List.drop_zero, List.isPrefixOf_iff_prefix, List.prefix_iff_eq_take, eq_comm]
      refine and_iff_right_of_imp fun h => ?_
      have hlength := congrArg List.length h
      rw [List.length_take] at hlength
      omega
    rw [findCString]
    by_cases hp : pattern.isPrefixOf (c :: s) = true
    · rw [if_pos hp]
      exact ⟨⟨le_rfl, Nat.succ_pos _, hstarts.mpr hp⟩, fun j _ hj => absurd hj (Nat.not_lt_zero j)⟩
    · have hshift := ih.shift (P := fun i => i + pattern.length ≤ (c :: s).length ∧ Matches id pattern (c :: s) i)
        (fun h => hp (hstarts.mp h)) fun i => and_congr_left' (by rw [List.length_cons]; omega)
      rw [if_neg hp, Option.map_map]
      rwa [Option.map_map] at hshift

lemma rangeOfCString_findCString (data : NSData) (theCString : CString) (hne : theCString.bytes ≠ []) :
    rangeOfCString data theCString 0 ⟨some 0, data.bytes.length⟩ =
      some (foundAt theCString.bytes.length ((findCString theCString.bytes data.bytes).map fun found => found.1.length)) := by
  have hfits : SearchFits theCString.bytes data.bytes 0 0 data.bytes.length :=
    ⟨fun h => by omega, fun h => absurd h (by decide)⟩
  obtain ⟨r, hr, found, rfl, hfirst⟩ := (rangeOfCString_iff data theCString 0 (by omega)).mpr hfits
  rw [Nat.zero_add] at hfirst
  rw [hr, hfirst.unique (first_findCString hne data.bytes)]

theorem byteSearch_iff (data theData : NSData) (theCString : CString) (theOptions location length : ℕ)
    (hrange : location + length ≤ data.bytes.length) :
    ((∃ r, rangeOfData data theData = some r ∧ IsFirstIn id theData.bytes data.bytes 0 data.bytes.length r) ↔
      theData.bytes ≠ [] ∧ theData.bytes.length ≤ data.bytes.length) ∧
    ((∃ r, rangeOfCString data theCString theOptions ⟨some location, length⟩ = some r ∧
      IsFirstIn (folding theOptions) theCString.bytes data.bytes location (location + length) r) ↔
      SearchFits theCString.bytes data.bytes theOptions location length) :=
  ⟨rangeOfData_iff data theData, rangeOfCString_iff data theCString theOptions hrange⟩

def twoBytes : NSData := ⟨[97, 98], by decide⟩

def bOnly : CString := ⟨[98], by decide⟩

/-- `b` is searched for in `ab`. -/
theorem byteSearch_found :
    ((∃ r, rangeOfData twoBytes twoBytes = some r ∧ IsFirstIn id twoBytes.bytes twoBytes.bytes 0 twoBytes.bytes.length r) ↔
      twoBytes.bytes ≠ [] ∧ twoBytes.bytes.length ≤ twoBytes.bytes.length) ∧
    ((∃ r, rangeOfCString twoBytes bOnly 1 ⟨some 0, 2⟩ = some r ∧
      IsFirstIn (folding 1) bOnly.bytes twoBytes.bytes 0 (0 + 2) r) ↔ SearchFits bOnly.bytes twoBytes.bytes 1 0 2) :=
  byteSearch_iff twoBytes twoBytes bOnly 1 0 2 (by decide)

/-- `ab` is searched for in no data at all. -/
theorem no_data_searched : ¬∃ r, rangeOfData ⟨[], by decide⟩ twoBytes = some r ∧ IsFirstIn id [97, 98] [] 0 0 r := by
  rintro ⟨r, hr, -⟩
  have hnone : rangeOfData ⟨[], by decide⟩ twoBytes = none := by decide
  rw [hnone] at hr
  cases hr

end Xperimentum.Pantomime
