import Xperimentum.Lib.Byte
import Xperimentum.Pantomime.ContentHeaderRanges
import Xperimentum.Pantomime.EncodedWordsRoundTrip

/-! Which `Content-Type` and `Content-Disposition` lines are read without an exception for a range. -/

namespace Xperimentum.Pantomime.ContentHeaders

open EncodedWords MessageHeaders Lib.Byte Lib.LinearSearch

section Keywords

variable {b : Bytes} {theLine : NSData} {keyword : CString} {i : ℕ}

def keywordAt (b : Bytes) (keyword : CString) : Option ℕ := nextFrom (keyword.bytes.map lower) (b.map lower) 0

lemma rangeOfKeyword_exact (hne : keyword.bytes ≠ []) :
    rangeOfKeyword theLine keyword 0 = .ok (nextFrom keyword.bytes theLine.bytes 0) := by
  rw [rangeOfKeyword, rangeOfCString_findCString theLine keyword hne, nextFrom, List.drop_zero]
  cases findCString keyword.bytes theLine.bytes with
  | none => rfl
  | some found => exact congrArg (fun i => Except.ok (some i)) (Nat.zero_add _).symm

lemma first_keywordAt (hne : keyword.bytes ≠ []) :
    First (fun i => i + keyword.bytes.length ≤ b.length ∧ Matches lower keyword.bytes b i) 0 (b.length + 1) (keywordAt b keyword) := by
  have hlowered : keyword.bytes.map lower ≠ [] := fun h => hne (List.map_eq_nil_iff.mp h)
  have hfirst := first_nextFrom hlowered (Nat.zero_le (b.map lower).length)
  have hmatches (i : ℕ) : Matches id (keyword.bytes.map lower) (b.map lower) i ↔ Matches lower keyword.bytes b i := by
    rw [Matches, Matches, List.map_id, List.map_id, List.length_map, List.map_take, List.map_drop]
  rw [List.length_map, List.length_map] at hfirst
  simp only [hmatches] at hfirst
  exact hfirst

lemma rangeOfKeyword_insensitive (hne : keyword.bytes ≠ []) :
    rangeOfKeyword theLine keyword caseInsensitiveSearch = .ok (keywordAt theLine.bytes keyword) := by
  have hfits : SearchFits keyword.bytes theLine.bytes caseInsensitiveSearch 0 theLine.bytes.length :=
    ⟨fun h => by omega, fun _ h => absurd rfl h⟩
  obtain ⟨r, hr, found, rfl, hfound⟩ := (rangeOfCString_iff theLine keyword caseInsensitiveSearch (by omega)).mpr hfits
  rw [Nat.zero_add] at hfound
  rw [rangeOfKeyword, hr, hfound.unique (first_keywordAt hne)]
  cases keywordAt theLine.bytes keyword with
  | none => rfl
  | some i => rfl

lemma lower_eq_zero (c : UInt8) : lower c = 0 → c = 0 := forall_byte (P := fun c => lower c = 0 → c = 0) (by decide) c

lemma keywordAt_some (hne : keyword.bytes ≠ []) (h : keywordAt b keyword = some i) :
    i + keyword.bytes.length ≤ b.length ∧ 0 ∉ (b.drop i).take keyword.bytes.length := by
  have hfirst := first_keywordAt (b := b) hne
  rw [h] at hfirst
  obtain ⟨⟨-, -, hfits, hmatches⟩, -⟩ := hfirst
  refine ⟨hfits, fun hzero => ?_⟩
  have hmem : lower 0 ∈ keyword.bytes.map lower := by
    rw [← hmatches]
    exact List.mem_map_of_mem hzero
  obtain ⟨c, hc, hlower⟩ := List.mem_map.mp hmem
  rw [lower_eq_zero c hlower] at hc
  exact keyword.nonzero hc

lemma nextFrom_some (hne : keyword.bytes ≠ []) (h : nextFrom keyword.bytes b 0 = some i) :
    i + keyword.bytes.length ≤ b.length ∧ 0 ∉ (b.drop i).take keyword.bytes.length := by
  have hfirst := first_nextFrom hne (Nat.zero_le b.length)
  rw [h] at hfirst
  obtain ⟨⟨-, -, hfits, hmatches⟩, -⟩ := hfirst
  rw [Matches, List.map_id, List.map_id] at hmatches
  rw [hmatches]
  exact ⟨hfits, keyword.nonzero⟩

end Keywords

section Steps

variable {F : Foundation} {unescape : Unescape} {theLine : NSData} {keyword : CString} {theBOOL : Bool}
  {theCharset : Option Bytes} {thePart : Part} {set : Parameter → Parsing Part}

def Inside (b : Bytes) (keyword : CString) : Prop :=
  ∀ i, keywordAt b keyword = some i → ParameterInside b i keyword.bytes.length

/-- The value is data, as its reader expects. -/
def Understood (b : Bytes) (keyword : CString) : Prop :=
  ∀ i, keywordAt b keyword = some i → ¬IsString b i keyword.bytes.length

lemma withParameter_none (hne : keyword.bytes ≠ []) (h : keywordAt theLine.bytes keyword = none) :
    withParameter F unescape theLine keyword theBOOL theCharset thePart set = .ok thePart := by
  rw [withParameter, rangeOfKeyword_insensitive hne, h]
  rfl

lemma withParameter_some {i : ℕ} (hne : keyword.bytes ≠ []) (h : keywordAt theLine.bytes keyword = some i) :
    withParameter F unescape theLine keyword theBOOL theCharset thePart set =
      (parameterValueUsingLine F unescape theLine.bytes i keyword.bytes.length theBOOL theCharset >>= set) := by
  rw [withParameter, rangeOfKeyword_insensitive hne, h]
  rfl

lemma withParameter_outside (hne : keyword.bytes ≠ []) (hshort : theLine.bytes.length < 2 ^ 31)
    (h : ¬Inside theLine.bytes keyword) :
    ¬InRange (withParameter F unescape theLine keyword theBOOL theCharset thePart set) := by
  rw [Inside] at h
  push Not at h
  obtain ⟨i, hi, hnot⟩ := h
  obtain ⟨hfits, hzero⟩ := keywordAt_some hne hi
  rw [withParameter_some hne hi]
  intro hin
  exact hnot ((parameterValue_inRange hshort hfits (List.length_pos_of_ne_nil hne) hzero).mp (inRange_bind.mp hin).1)

lemma withParameter_inside (hne : keyword.bytes ≠ []) (h : Inside theLine.bytes keyword)
    (hset : ∀ value, InRange (set value)) :
    InRange (withParameter F unescape theLine keyword theBOOL theCharset thePart set) := by
  cases hi : keywordAt theLine.bytes keyword with
  | none =>
    rw [withParameter_none hne hi]
    exact inRange_ok _
  | some i =>
    obtain ⟨hfits, hzero⟩ := keywordAt_some hne hi
    rw [withParameter_some hne hi, inRange_bind]
    refine ⟨?_, fun value _ => hset value⟩
    exact (parameterValue_inRange (h i hi).short hfits (List.length_pos_of_ne_nil hne) hzero).mpr (h i hi)

variable (F unescape theCharset thePart)

lemma withParameter_value (hne : keyword.bytes ≠ []) (h : Inside theLine.bytes keyword) :
    withParameter F unescape theLine keyword false theCharset thePart set = .ok thePart ∧ Understood theLine.bytes keyword ∨
      ∃ value, withParameter F unescape theLine keyword false theCharset thePart set = set value ∧
        ((∃ w, value = .string (some w)) ↔ ¬Understood theLine.bytes keyword) := by
  cases hi : keywordAt theLine.bytes keyword with
  | none =>
    refine .inl ⟨withParameter_none hne hi, fun i hsome => ?_⟩
    rw [hi] at hsome
    cases hsome
  | some i =>
    obtain ⟨-, hzero⟩ := keywordAt_some hne hi
    obtain ⟨value, hvalue, hstring⟩ := parameterValue_string (F := F) (h i hi) (List.length_pos_of_ne_nil hne) hzero
    refine .inr ⟨value, ?_, ?_⟩
    · rw [withParameter_some hne hi, hvalue, ok_bind]
    · rw [hstring, Understood]
      constructor
      · exact fun hs hall => hall i hi hs
      · intro hnot
        push Not at hnot
        obtain ⟨j, hj, hs⟩ := hnot
        rw [hi] at hj
        rwa [Option.some.inj hj]

lemma withParameter_ok (hne : keyword.bytes ≠ []) (h : Inside theLine.bytes keyword) (hset : ∀ value, ∃ p, set value = .ok p) :
    ∃ p, withParameter F unescape theLine keyword false theCharset thePart set = .ok p := by
  rcases withParameter_value F unescape theCharset thePart hne h with
    ⟨hok, -⟩ | ⟨value, hvalue, -⟩
  · exact ⟨thePart, hok⟩
  · rw [hvalue]
    exact hset value

lemma withParameter_understood (hne : keyword.bytes ≠ []) (h : Inside theLine.bytes keyword)
    (hunderstood : Understood theLine.bytes keyword) (hset : ∀ value, (¬∃ w, value = .string (some w)) → ∃ p, set value = .ok p) :
    ∃ p, withParameter F unescape theLine keyword false theCharset thePart set = .ok p := by
  rcases withParameter_value F unescape theCharset thePart hne h with
    ⟨hok, -⟩ | ⟨value, hvalue, hstring⟩
  · exact ⟨thePart, hok⟩
  · rw [hvalue]
    exact hset value fun hs => hstring.mp hs hunderstood

lemma withParameter_string (hne : keyword.bytes ≠ []) (h : Inside theLine.bytes keyword)
    (hunderstood : ¬Understood theLine.bytes keyword) (hset : ∀ w, set (.string (some w)) = .error .selector) :
    withParameter F unescape theLine keyword false theCharset thePart set = .error .selector := by
  rcases withParameter_value F unescape theCharset thePart hne h with
    ⟨-, hdata⟩ | ⟨value, hvalue, hstring⟩
  · exact absurd hdata hunderstood
  · obtain ⟨w, rfl⟩ := hstring.mpr hunderstood
    rw [hvalue, hset]

end Steps

section Lines

variable {F : Foundation} {unescape : Unescape} {theLine : NSData} {thePart : Part} {b : Bytes}

/-- The parameters of a `Content-Type` line. Those behind a character set or a format that is not data are not read. -/
structure TypeInside (b : Bytes) : Prop where
  boundary : Inside b boundaryKeyword
  charset : Inside b charsetKeyword
  format : Understood b charsetKeyword → Inside b formatKeyword
  name : Understood b charsetKeyword → Understood b formatKeyword → Inside b nameKeyword

def TypeFits (b : Bytes) : Prop := 14 < b.length → dataByTrimmingWhiteSpaces (b.drop 13) ≠ [] → TypeInside b

/-- A file name is looked for where there are parameters, behind the name of the header. -/
def DispositionFits (b : Bytes) : Prop :=
  21 < b.length → 59 ∈ b.drop 21 → ∀ i, nextFrom (ascii "filename") (b.drop 21) 0 = some i → ParameterInside (b.drop 21) i 8

lemma setBoundary_ok (value : Parameter) : ∃ p, setBoundary thePart value = .ok p := ⟨_, rfl⟩

lemma setCharset_ok (value : Parameter) (h : ¬∃ w, value = .string (some w)) : ∃ p, setCharset thePart value = .ok p := by
  rcases value with aData | _ | w
  · exact ⟨_, rfl⟩
  · exact ⟨_, rfl⟩
  · exact absurd ⟨w, rfl⟩ h

lemma setFormat_ok (value : Parameter) (h : ¬∃ w, value = .string (some w)) : ∃ p, setFormat thePart value = .ok p := by
  rcases value with aData | _ | w
  · exact ⟨_, rfl⟩
  · exact ⟨_, rfl⟩
  · exact absurd ⟨w, rfl⟩ h

lemma filenameKeyword_ne_nil : filenameKeyword.bytes ≠ [] := by decide

lemma boundaryKeyword_ne_nil : boundaryKeyword.bytes ≠ [] := by decide

lemma charsetKeyword_ne_nil : charsetKeyword.bytes ≠ [] := by decide

lemma formatKeyword_ne_nil : formatKeyword.bytes ≠ [] := by decide

lemma nameKeyword_ne_nil : nameKeyword.bytes ≠ [] := by decide

lemma parseContentType_inRange (hlong : 14 < theLine.bytes.length)
    (hdata : dataByTrimmingWhiteSpaces (theLine.bytes.drop 13) ≠ [])
    (h : TypeInside theLine.bytes ∨ theLine.bytes.length < 2 ^ 31) :
    InRange (parseContentType F unescape theLine thePart) ↔ TypeInside theLine.bytes := by
  have hshort {keyword : CString} (hnot : TypeInside theLine.bytes → Inside theLine.bytes keyword)
      (hout : ¬Inside theLine.bytes keyword) : theLine.bytes.length < 2 ^ 31 := h.resolve_left fun h => hout (hnot h)
  rw [parseContentType, if_neg (not_le.mpr hlong)]
  dsimp only
  rw [if_neg hdata]
  by_cases hboundary : Inside theLine.bytes boundaryKeyword
  swap
  · refine iff_of_false (fun hin => ?_) fun h => hboundary h.boundary
    exact withParameter_outside boundaryKeyword_ne_nil (hshort TypeInside.boundary hboundary) hboundary (inRange_bind.mp hin).1
  obtain ⟨p, hp⟩ := withParameter_ok F unescape none
    { thePart with contentType := typeOf (dataByTrimmingWhiteSpaces (theLine.bytes.drop 13)) <|> thePart.contentType }
    boundaryKeyword_ne_nil hboundary setBoundary_ok
  rw [hp, ok_bind]
  by_cases hcharset : Inside theLine.bytes charsetKeyword
  swap
  · refine iff_of_false (fun hin => ?_) fun h => hcharset h.charset
    exact withParameter_outside charsetKeyword_ne_nil (hshort TypeInside.charset hcharset) hcharset (inRange_bind.mp hin).1
  by_cases hdata₁ : Understood theLine.bytes charsetKeyword
  swap
  · rw [withParameter_string F unescape none p charsetKeyword_ne_nil hcharset hdata₁ fun w => rfl]
    refine iff_of_true (fun h => by cases h) ⟨hboundary, hcharset, fun h => absurd h hdata₁, fun h => absurd h hdata₁⟩
  obtain ⟨q, hq⟩ := withParameter_understood F unescape none p charsetKeyword_ne_nil hcharset hdata₁ setCharset_ok
  rw [hq, ok_bind]
  by_cases hformat : Inside theLine.bytes formatKeyword
  swap
  · refine iff_of_false (fun hin => ?_) fun h => hformat (h.format hdata₁)
    exact withParameter_outside formatKeyword_ne_nil (hshort (fun h => h.format hdata₁) hformat) hformat (inRange_bind.mp hin).1
  by_cases hdata₂ : Understood theLine.bytes formatKeyword
  swap
  · rw [withParameter_string F unescape none { q with format := .unknown } formatKeyword_ne_nil hformat hdata₂ fun w => rfl]
    refine iff_of_true (fun h => by cases h) ⟨hboundary, hcharset, fun _ => hformat, fun _ h => absurd h hdata₂⟩
  obtain ⟨r, hr⟩ := withParameter_understood F unescape none { q with format := .unknown }
    formatKeyword_ne_nil hformat hdata₂ setFormat_ok
  rw [hr, ok_bind]
  by_cases hname : Inside theLine.bytes nameKeyword
  · refine iff_of_true ?_ ⟨hboundary, hcharset, fun _ => hformat, fun _ _ => hname⟩
    exact withParameter_inside nameKeyword_ne_nil hname fun value => inRange_ok _
  · refine iff_of_false ?_ fun h => hname (h.name hdata₁ hdata₂)
    exact withParameter_outside nameKeyword_ne_nil (hshort (fun h => h.name hdata₁ hdata₂) hname) hname

lemma findCString_semicolon (b : Bytes) : findCString [59] b = none ↔ 59 ∉ b := by
  rcases findCString_byte 59 b with ⟨hnone, hzero⟩ | ⟨x, y, hsome, hcount⟩
  · exact iff_of_true hnone (List.count_eq_zero.mp hzero)
  · rw [hsome]
    refine iff_of_false (fun h => by cases h) fun h => ?_
    rw [List.count_eq_zero.mpr h] at hcount
    omega

lemma parseContentDisposition_inRange (h : DispositionFits theLine.bytes ∨ theLine.bytes.length < 2 ^ 31) :
    InRange (parseContentDisposition F unescape theLine thePart) ↔ DispositionFits theLine.bytes := by
  rw [parseContentDisposition]
  by_cases hlong : 21 < theLine.bytes.length
  swap
  · rw [if_neg hlong]
    exact iff_of_true (inRange_ok _) fun h => absurd h hlong
  rw [if_pos hlong]
  dsimp only
  cases hfind : findCString [59] (subdataFromIndex theLine 21).bytes with
  | none =>
    exact iff_of_true (inRange_ok _) fun _ h => absurd h ((findCString_semicolon _).mp hfind)
  | some found =>
    have hmem : 59 ∈ theLine.bytes.drop 21 := by
      by_contra hnot
      rw [← findCString_semicolon] at hnot
      rw [show (subdataFromIndex theLine 21).bytes = theLine.bytes.drop 21 from rfl, hnot] at hfind
      cases hfind
    dsimp only
    rw [rangeOfKeyword_exact filenameKeyword_ne_nil, ok_bind]
    cases hnext : nextFrom filenameKeyword.bytes (subdataFromIndex theLine 21).bytes 0 with
    | none =>
      refine iff_of_true (inRange_ok _) fun _ _ i hi => ?_
      rw [show nextFrom (ascii "filename") (theLine.bytes.drop 21) 0 = none from hnext] at hi
      cases hi
    | some i =>
      obtain ⟨hfits, hzero⟩ := nextFrom_some filenameKeyword_ne_nil hnext
      have hinside : DispositionFits theLine.bytes ↔ ParameterInside (theLine.bytes.drop 21) i 8 := by
        refine ⟨fun h => h hlong hmem i hnext, fun h _ _ j hj => ?_⟩
        rw [show nextFrom (ascii "filename") (theLine.bytes.drop 21) 0 = some i from hnext] at hj
        rwa [← Option.some.inj hj]
      have hshort : (theLine.bytes.drop 21).length < 2 ^ 31 := by
        rcases h with h | h
        · exact (hinside.mp h).short
        · rw [List.length_drop]
          omega
      dsimp only
      rw [hinside, bind_pure_map, inRange_map]
      exact parameterValue_inRange hshort hfits (by decide) hzero

end Lines

lemma contentType_inRange (F : Foundation) (unescape : Unescape) (theLine : NSData) (thePart : Part)
    (h : TypeFits theLine.bytes ∨ theLine.bytes.length < 2 ^ 31) :
    InRange (parseContentType F unescape theLine thePart) ↔ TypeFits theLine.bytes := by
  by_cases hlong : 14 < theLine.bytes.length
  swap
  · rw [parseContentType, if_pos (not_lt.mp hlong)]
    exact iff_of_true (inRange_ok _) fun h => absurd h hlong
  by_cases hdata : dataByTrimmingWhiteSpaces (theLine.bytes.drop 13) = []
  · rw [parseContentType, if_neg (not_le.mpr hlong)]
    dsimp only
    rw [if_pos hdata]
    exact iff_of_true (inRange_ok _) fun _ h => absurd hdata h
  · rw [TypeFits, imp_iff_right hlong, imp_iff_right hdata]
    exact parseContentType_inRange hlong hdata (h.imp_left fun h => h hlong hdata)

/-- The lines that are read without an exception for a range; the rest of those whose length is an `int` are not. -/
theorem contentHeaders_inRange (F : Foundation) (unescape : Unescape) (theLine : NSData) (thePart : Part) :
    ((TypeFits theLine.bytes → InRange (parseContentType F unescape theLine thePart)) ∧
      (DispositionFits theLine.bytes → InRange (parseContentDisposition F unescape theLine thePart))) ∧
    (theLine.bytes.length < 2 ^ 31 →
      (InRange (parseContentType F unescape theLine thePart) → TypeFits theLine.bytes) ∧
      (InRange (parseContentDisposition F unescape theLine thePart) → DispositionFits theLine.bytes)) := by
  refine ⟨⟨fun h => ?_, fun h => ?_⟩, fun hshort => ⟨fun h => ?_, fun h => ?_⟩⟩
  · exact (contentType_inRange F unescape theLine thePart (.inl h)).mpr h
  · exact (parseContentDisposition_inRange (.inl h)).mpr h
  · exact (contentType_inRange F unescape theLine thePart (.inr hshort)).mp h
  · exact (parseContentDisposition_inRange (.inr hshort)).mp h

def bareCharset : NSData := ⟨ascii "Content-Type: text/plain; charset", by decide⟩

/-- The line ends where the name of a parameter does. -/
theorem not_contentHeaders_inRange :
    ¬∀ (F : Foundation) (unescape : Unescape) (theLine : NSData) (thePart : Part),
      InRange (parseContentType F unescape theLine thePart) ∧ InRange (parseContentDisposition F unescape theLine thePart) := by
  intro h
  have hfits : TypeFits bareCharset.bytes :=
    (contentType_inRange latin (fun _ _ => none) bareCharset {} (.inr (by decide))).mp (h latin (fun _ _ => none) bareCharset {}).1
  have hinside := hfits (by decide) (by decide)
  have hnamed := (hinside.charset 26 (by decide)).named
  exact absurd hnamed (by decide)

end Xperimentum.Pantomime.ContentHeaders
