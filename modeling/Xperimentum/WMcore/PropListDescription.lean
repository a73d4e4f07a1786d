import Xperimentum.WMcore.PropListEquality

/-! The text of a property list gives a property list that is equal to it: when it does, and when it does not. -/

namespace Xperimentum.WMcore

open Lib.Byte

variable {caseSensitive : Bool}

lemma bare_cases {str : Text} (h : Bare (.string str)) :
    ∃ pre post, str = pre ++ 36 :: post ∧ ∀ ch ∈ pre, stringable ch = true := by
  obtain ⟨hq, hd⟩ := h
  induction str with
  | nil => exact absurd hd List.not_mem_nil
  | cons ch str ih =>
    by_cases h36 : ch = 36
    · exact ⟨[], str, by rw [h36]; rfl, by simp⟩
    · have hmem : 36 ∈ str := (List.mem_cons.mp hd).resolve_left fun h => h36 h.symm
      obtain ⟨pre, post, rfl, hpre⟩ := ih (fun c hc => hq c (List.mem_cons_of_mem _ hc)) hmem
      refine ⟨ch :: pre, post, rfl, fun c hc => ?_⟩
      rcases List.mem_cons.mp hc with rfl | hc
      · exact (stringable_of_noquote _ (hq _ (by simp))).resolve_right h36
      · exact hpre c hc

lemma getPropList_dollar (n : ℕ) (rest : Text) : getPropList caseSensitive n (36 :: rest) = none := by
  cases n with
  | zero => rfl
  | succ n =>
    rw [getPropList, getNonSpaceChar_cons rfl]
    rfl

lemma getKey_bare {str : Text} (h : Bare (.string str)) (rest : Text) :
    (getKey (stringDescription str ++ rest) = none ∧ ∃ post, stringDescription str ++ rest = 36 :: post) ∨
      ∃ key post, getKey (stringDescription str ++ rest) = some (key, 36 :: post) := by
  have hs : str ≠ [] := fun hs => by rw [hs] at h; exact absurd h.2 List.not_mem_nil
  rw [stringDescription_bare hs h.1]
  obtain ⟨pre, post, rfl, hpre⟩ := bare_cases h
  rw [List.append_assoc, List.cons_append]
  cases pre with
  | nil =>
    refine .inl ⟨?_, post ++ rest, rfl⟩
    rw [List.nil_append, getKey, getNonSpaceChar_cons rfl]
    rfl
  | cons ch pre =>
    have hch := hpre ch (by simp)
    obtain ⟨-, -, h60, h34, -⟩ := ne_of_stringable ch hch
    have hget := getPLString_append (List.cons_ne_nil ch pre) hpre
      (show Stops (36 :: (post ++ rest)) from stops_cons.mpr rfl)
    refine .inr ⟨.string (createPLString (unescapestr (ch :: pre))), post ++ rest, ?_⟩
    rw [List.cons_append] at hget ⊢
    simp only [getKey, getNonSpaceChar_cons (isspace_of_stringable ch hch), h60, h34, hch, hget, if_false, if_true,
      Option.map_some]

/-- Nothing is read, or the dollar sign of a string that was written without quotes is next. -/
def Stuck (read : Option (PropList × Text)) : Prop :=
  read = none ∨ ∃ plist rest, read = some (plist, 36 :: rest)

lemma getPropList_bare {str : Text} (h : Bare (.string str)) (n : ℕ) (rest : Text) :
    Stuck (getPropList caseSensitive (n + 1) (stringDescription str ++ rest)) := by
  rcases getKey_bare h rest with ⟨-, post, he⟩ | ⟨key, post, hkey⟩
  · rw [he]
    exact .inl (getPropList_dollar _ post)
  · exact .inr ⟨key.plist, post, getPropList_of_getKey hkey n⟩

lemma getPLArray_dollar (n : ℕ) (array : List PropList) (rest : Text) :
    getPLArray caseSensitive n false array (36 :: rest) = none := by
  cases n with
  | zero => rfl
  | succ n =>
    rw [getPLArray, getNonSpaceChar_cons rfl]
    rfl

lemma getPLArray_stuck {read : Option (PropList × Text)} (h : Stuck read) (n : ℕ) (array : List PropList) :
    (match read with
      | none => none
      | some (obj, rest) => getPLArray caseSensitive n false (array ++ [obj]) rest) = none := by
  rcases h with rfl | ⟨plist, rest, rfl⟩
  · rfl
  · exact getPLArray_dollar n _ rest

lemma getPLDictionary_bare {w : Text} (hw : Blank w) {key : PLKey} (h : Bare key) (n : ℕ)
    (dict : List (PLKey × PropList)) (rest : Text) :
    getPLDictionary caseSensitive (n + 1) dict (w ++ (keyDescription key ++ rest)) = none := by
  obtain ⟨c, more, he, hs, -, -, h125⟩ := keyDescription_head key
  cases key with
  | data data => exact h.elim
  | string str =>
    have hkey := getKey_bare h rest
    rw [keyDescription] at he ⊢
    rw [he, List.cons_append] at hkey
    rw [getPLDictionary, getNonSpaceChar_append hw, he, List.cons_append, getNonSpaceChar_cons hs]
    simp only [h125, if_false]
    rcases hkey with ⟨hkey, -⟩ | ⟨key, post, hkey⟩
    · rw [hkey]
    · simp only [hkey, getNonSpaceChar_cons (show isspace 36 = false from rfl)]
      rfl

mutual
lemma getPropList_stuck : ∀ (plist : PropList) (text : Text), Renders plist text → Leaves NoNul plist →
    ¬Leaves (¬Bare ·) plist → ∀ n rest, text.length < n → Stops rest →
    Stuck (getPropList caseSensitive n (text ++ rest))
  | .string str, text, hr, _, hb, n + 1, rest, _, _ => by
    rw [Renders] at hr
    rw [Leaves, not_not] at hb
    rw [hr]
    exact getPropList_bare hb n rest
  | .data data, _, _, _, hb, _, _, _, _ => by
    rw [Leaves] at hb
    exact (hb fun h => h).elim
  | .array array, text, hr, hn, hb, n + 1, rest, hlen, _ => by
    rw [Renders] at hr
    rw [Leaves] at hn hb
    obtain ⟨items, hi, rfl⟩ := hr
    have h := getPLArray_rendersStuck array items hi hn hb n rest (by simpa using hlen)
    rw [List.cons_append, getPropList, getNonSpaceChar_cons rfl]
    simp only [h, if_true, show (40 : UInt8) ≠ 123 from by decide, if_false]
    exact .inl rfl
  | .dictionary dict, text, hr, hn, hb, n + 1, rest, hlen, _ => by
    rw [Renders] at hr
    rw [Leaves] at hn hb
    obtain ⟨entries, he, rfl⟩ := hr
    have h := getPLDictionary_stuck dict entries he hn hb n [] rest (by simpa using hlen)
    rw [List.cons_append, getPropList, getNonSpaceChar_cons rfl]
    simp only [h, if_true]
    exact .inl rfl

lemma getPLArray_rendersStuck : ∀ (items : List PropList) (text : Text), RendersItems items text →
    ItemsLeaves NoNul items → ¬ItemsLeaves (¬Bare ·) items → ∀ n rest, text.length < n →
    getPLArray caseSensitive n true [] (text ++ rest) = none
  | [], _, _, _, hb, _, _, _ => by
    rw [ItemsLeaves] at hb
    exact (hb trivial).elim
  | item :: items, text, hr, hn, hb, n + 1, rest, hlen => by
    rw [RendersItems] at hr
    rw [ItemsLeaves] at hn hb
    obtain ⟨w, u, more, hw, hu, hm, rfl⟩ := hr
    simp only [List.length_append] at hlen
    have hupos := renders_length hu
    have hmpos := rendersMore_length hm
    rw [List.append_assoc, List.append_assoc, getPLArray_first hw hu]
    by_cases hitem : Leaves (¬Bare ·) item
    · rw [getPropList_renders item u hu hn.1 hitem n (more ++ rest) (by omega) (stops_more hm rest)]
      exact getPLArray_moreStuck items more hm hn.2 (fun hi => hb ⟨hitem, hi⟩) n _ rest (by omega)
    · exact getPLArray_stuck (getPropList_stuck item u hu hn.1 hitem n (more ++ rest) (by omega) (stops_more hm rest)) n []

lemma getPLArray_moreStuck : ∀ (items : List PropList) (text : Text), RendersMore items text →
    ItemsLeaves NoNul items → ¬ItemsLeaves (¬Bare ·) items → ∀ n array rest, text.length < n →
    getPLArray caseSensitive n false array (text ++ rest) = none
  | [], _, _, _, hb, _, _, _, _ => by
    rw [ItemsLeaves] at hb
    exact (hb trivial).elim
  | item :: items, text, hr, hn, hb, n + 1, array, rest, hlen => by
    rw [RendersMore] at hr
    rw [ItemsLeaves] at hn hb
    obtain ⟨w, u, more, hw, hu, hm, rfl⟩ := hr
    simp only [List.length_cons, List.length_append] at hlen
    rw [List.cons_append, List.append_assoc, List.append_assoc, getPLArray_comma, getPropList_blank hw]
    by_cases hitem : Leaves (¬Bare ·) item
    · rw [getPropList_renders item u hu hn.1 hitem n (more ++ rest) (by omega) (stops_more hm rest)]
      exact getPLArray_moreStuck items more hm hn.2 (fun hi => hb ⟨hitem, hi⟩) n _ rest (by omega)
    · exact getPLArray_stuck (getPropList_stuck item u hu hn.1 hitem n (more ++ rest) (by omega) (stops_more hm rest)) n
        array

lemma getPLDictionary_stuck : ∀ (entries : List (PLKey × PropList)) (text : Text), RendersEntries entries text →
    EntriesLeaves NoNul entries → ¬EntriesLeaves (¬Bare ·) entries → ∀ n dict rest, text.length < n →
    getPLDictionary caseSensitive n dict (text ++ rest) = none
  | [], _, _, _, hb, _, _, _, _ => by
    rw [EntriesLeaves] at hb
    exact (hb trivial).elim
  | (key, val) :: entries, text, hr, hn, hb, n + 1, dict, rest, hlen => by
    rw [RendersEntries] at hr
    rw [EntriesLeaves] at hn hb
    obtain ⟨w, u, more, hw, hu, hm, rfl⟩ := hr
    simp only [List.length_cons, List.length_append] at hlen
    have htext : w ++ (keyDescription key ++ 32 :: 61 :: 32 :: (u ++ 59 :: more)) ++ rest =
        w ++ (keyDescription key ++ 32 :: 61 :: 32 :: (u ++ (59 :: more ++ rest))) := by simp
    rw [htext]
    by_cases hk : Bare key
    · exact getPLDictionary_bare hw hk n dict _
    have hkey := getKey_keyDescription hn.1 hk
      (show Stops (32 :: 61 :: 32 :: (u ++ (59 :: more ++ rest))) from stops_cons.mpr rfl)
    rw [getPLDictionary_entry hw hkey]
    by_cases hval : Leaves (¬Bare ·) val
    · rw [getPropList_renders val u hu hn.2.1 hval n (59 :: more ++ rest) (by omega) (stops_cons.mpr rfl)]
      exact getPLDictionary_stuck entries more hm hn.2.2 (fun he => hb ⟨hk, hval, he⟩) n _ rest (by omega)
    · rcases getPropList_stuck val u hu hn.2.1 hval n (59 :: more ++ rest) (by omega) (stops_cons.mpr rfl) with h | ⟨q, r, h⟩
      · rw [h]
      · rw [h]
        simp only [getNonSpaceChar_cons (show isspace 36 = false from rfl)]
        rfl
end

/-! No printer writes a NUL. -/

lemma escape_noNul : ∀ ch, 0 ∉ escape ch := by
  have h : ∀ ch, (escape ch).contains 0 = false := forall_byte (by decide)
  intro ch hc
  have := h ch
  rw [List.contains_iff_mem.mpr hc] at this
  cases this

lemma stringDescription_noNul (str : Text) : 0 ∉ stringDescription str := by
  have hflat : 0 ∉ str.flatMap escape := by
    intro h
    obtain ⟨ch, -, hc⟩ := List.mem_flatMap.mp h
    exact escape_noNul ch hc
  rw [stringDescription]
  split
  · decide
  · split
    · exact hflat
    · simpa using hflat

lemma hexBytes_noNul (i : ℕ) (bytes : List UInt8) : 0 ∉ hexBytes i bytes := by
  have h : ∀ b : UInt8, num2char (b >>> 4 &&& 15) ≠ 0 ∧ num2char (b &&& 15) ≠ 0 := forall_byte (by decide)
  induction bytes generalizing i with
  | nil => simp [hexBytes]
  | cons b bs ih =>
    rw [hexBytes]
    split <;> simp [(h b).1.symm, (h b).2.symm, ih]

lemma keyDescription_noNul (key : PLKey) : 0 ∉ keyDescription key := by
  cases key with
  | string str => exact stringDescription_noNul str
  | data data => simp [keyDescription, dataDescription, hexBytes_noNul]

lemma blank_noNul {w : Text} (h : Blank w) : 0 ∉ w := fun h0 => by
  have := h 0 h0
  cases this

mutual
lemma renders_noNul : ∀ (plist : PropList) (text : Text), Renders plist text → 0 ∉ text
  | .string str, text, h => by
    rw [Renders] at h
    exact h ▸ stringDescription_noNul str
  | .data data, text, h => by
    rw [Renders] at h
    exact h ▸ keyDescription_noNul (.data data)
  | .array array, text, h => by
    rw [Renders] at h
    obtain ⟨items, hi, rfl⟩ := h
    simpa using rendersItems_noNul array items hi
  | .dictionary dict, text, h => by
    rw [Renders] at h
    obtain ⟨entries, he, rfl⟩ := h
    simpa using rendersEntries_noNul dict entries he

lemma rendersItems_noNul : ∀ (items : List PropList) (text : Text), RendersItems items text → 0 ∉ text
  | [], text, h => by
    rw [RendersItems] at h
    obtain ⟨w, hw, rfl⟩ := h
    simpa using blank_noNul hw
  | item :: items, text, h => by
    rw [RendersItems] at h
    obtain ⟨w, u, more, hw, hu, hm, rfl⟩ := h
    simp [blank_noNul hw, renders_noNul item u hu, rendersMore_noNul items more hm]

lemma rendersMore_noNul : ∀ (items : List PropList) (text : Text), RendersMore items text → 0 ∉ text
  | [], text, h => by
    rw [RendersMore] at h
    obtain ⟨w, hw, rfl⟩ := h
    simpa using blank_noNul hw
  | item :: items, text, h => by
    rw [RendersMore] at h
    obtain ⟨w, u, more, hw, hu, hm, rfl⟩ := h
    simp [blank_noNul hw, renders_noNul item u hu, rendersMore_noNul items more hm]

lemma rendersEntries_noNul : ∀ (entries : List (PLKey × PropList)) (text : Text), RendersEntries entries text →
    0 ∉ text
  | [], text, h => by
    rw [RendersEntries] at h
    obtain ⟨w, hw, rfl⟩ := h
    simpa using blank_noNul hw
  | (key, val) :: entries, text, h => by
    rw [RendersEntries] at h
    obtain ⟨w, u, more, hw, hu, hm, rfl⟩ := h
    simp [blank_noNul hw, renders_noNul val u hu, rendersEntries_noNul entries more hm, keyDescription_noNul]
end

lemma readWhole_renders {plist : PropList} {text w : Text} (h : Renders plist text) (hw : Blank w)
    (hn : Leaves NoNul plist) {n : ℕ} (hlen : text.length < n) :
    (Leaves (¬Bare ·) plist → readWhole caseSensitive n (text ++ w) = some (reread caseSensitive plist)) ∧
      (¬Leaves (¬Bare ·) plist → readWhole caseSensitive n (text ++ w) = none) := by
  have hstop : Stops w := by
    cases w with
    | nil => exact stops_nil
    | cons c w => exact stops_cons.mpr (stops_of_isspace c (hw c (by simp)))
  have hend : getNonSpaceChar w = none := by
    have h := getNonSpaceChar_append hw []
    rw [List.append_nil] at h
    rw [h]
    rfl
  refine ⟨fun hb => ?_, fun hb => ?_⟩
  · rw [readWhole, getPropList_renders plist text h hn hb n w hlen hstop]
    simp only [hend]
    rfl
  · rw [readWhole]
    rcases getPropList_stuck plist text h hn hb n w hlen hstop with hr | ⟨q, r, hr⟩
    · rw [hr]
    · rw [hr]
      simp only [getNonSpaceChar_cons (show isspace 36 = false from rfl)]
      rfl

lemma createPropListFromDescription_eq {plist : PropList} (indented : Bool) (hn : Leaves NoNul plist) :
    (Leaves (¬Bare ·) plist →
      createPropListFromDescription caseSensitive (getPropListDescription plist indented) =
        some (reread caseSensitive plist)) ∧
      (¬Leaves (¬Bare ·) plist →
        createPropListFromDescription caseSensitive (getPropListDescription plist indented) = none) := by
  have hr := renders_getPropListDescription plist indented
  have hnul : ∀ ch ∈ getPropListDescription plist indented, decide (ch ≠ 0) = true := fun ch hc =>
    decide_eq_true fun h0 => renders_noNul plist _ hr (h0 ▸ hc)
  have htake : (getPropListDescription plist indented ++ []).takeWhile (· ≠ 0) =
      getPropListDescription plist indented ++ [].takeWhile (· ≠ 0) := List.takeWhile_append_of_pos hnul
  have hblank : Blank [] := by simp [Blank]
  have h := @readWhole_renders caseSensitive plist _ [] hr hblank hn _ (Nat.lt_succ_self _)
  rw [List.append_nil] at h htake
  rw [createPropListFromDescription, htake]
  simpa using h

/-- Strings without NUL, no two equal keys in a dictionary. -/
structure PropList.WellFormed (caseSensitive : Bool) (plist : PropList) : Prop where
  noNul : Leaves NoNul plist
  distinct : DistinctKeys caseSensitive plist

def ReadsBack (caseSensitive indented : Bool) (plist : PropList) : Prop :=
  ∃ read, createPropListFromDescription caseSensitive (getPropListDescription plist indented) = some read ∧
    isPropListEqualTo caseSensitive plist read = true

theorem readsBack_iff (caseSensitive indented : Bool) (plist : PropList) (h : plist.WellFormed caseSensitive) :
    ReadsBack caseSensitive indented plist ↔ Leaves (¬Bare ·) plist ∧ Leaves (¬Emptied ·) plist := by
  obtain ⟨hread, hnone⟩ := @createPropListFromDescription_eq caseSensitive plist indented h.noNul
  refine ⟨fun ⟨read, hr, he⟩ => ?_, fun ⟨hb, he⟩ => ?_⟩
  · have hb : Leaves (¬Bare ·) plist := by
      by_contra hb
      rw [hnone hb] at hr
      cases hr
    rw [hread hb] at hr
    cases hr
    exact ⟨hb, (isPropListEqualTo_reread_iff h.distinct).mp he⟩
  · exact ⟨_, hread hb, (isPropListEqualTo_reread_iff h.distinct).mpr he⟩

/-- The dictionary `{path = "$HOME/a"; data = <0a>;}` with an array in it. -/
def sampleList : PropList :=
  .dictionary [(.string [112, 97, 116, 104], .string [36, 72, 79, 77, 69, 47, 97]),
    (.data (some [10]), .array [.string [], .dictionary []])]

theorem readsBack_sampleList :
    (ReadsBack true true sampleList ↔ Leaves (¬Bare ·) sampleList ∧ Leaves (¬Emptied ·) sampleList) := by
  refine readsBack_iff true true sampleList ⟨?_, ?_⟩
  · simp [sampleList, Leaves, EntriesLeaves, ItemsLeaves, NoNul]
  · simp [sampleList, DistinctKeys, EntriesDistinct, ItemsDistinct, Distinct, equalKeys]

theorem dollar_not_readsBack : (PropList.string [36, 72]).WellFormed true ∧
    ¬ReadsBack true false (.string [36, 72]) ∧ ¬ReadsBack true true (.string [36, 72]) := by
  refine ⟨⟨by simp [Leaves, NoNul], by simp [DistinctKeys]⟩, ?_, ?_⟩
  · rintro ⟨read, hr, -⟩
    exact absurd (hr.symm.trans (show _ = none by decide)) (by simp)
  · rintro ⟨read, hr, -⟩
    exact absurd (hr.symm.trans (show _ = none by decide)) (by simp)

end Xperimentum.WMcore
