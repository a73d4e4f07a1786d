import Xperimentum.WMcore.PropListText

/-! What becomes of a property list that is printed, with or without indentation, and read again. -/

namespace Xperimentum.WMcore

open Lib.Byte

mutual
/-- `P` holds of every string and data in the property list, the keys of dictionaries among them. -/
def Leaves (P : PLKey → Prop) : PropList → Prop
  | .string str => P (.string str)
  | .data data => P (.data data)
  | .array array => ItemsLeaves P array
  | .dictionary dict => EntriesLeaves P dict

def ItemsLeaves (P : PLKey → Prop) : List PropList → Prop
  | [] => True
  | item :: items => Leaves P item ∧ ItemsLeaves P items

def EntriesLeaves (P : PLKey → Prop) : List (PLKey × PropList) → Prop
  | [] => True
  | (key, val) :: entries => P key ∧ Leaves P val ∧ EntriesLeaves P entries
end

def Blank (w : Text) : Prop := ∀ ch ∈ w, isspace ch = true

mutual
/-- The texts that print a property list, whatever white space stands between its parts. -/
def Renders : PropList → Text → Prop
  | .string str, text => text = stringDescription str
  | .data data, text => text = dataDescription data
  | .array array, text => ∃ items, RendersItems array items ∧ text = 40 :: items
  | .dictionary dict, text => ∃ entries, RendersEntries dict entries ∧ text = 123 :: entries

def RendersItems : List PropList → Text → Prop
  | [], text => ∃ w, Blank w ∧ text = w ++ [41]
  | item :: items, text => ∃ w u more, Blank w ∧ Renders item u ∧ RendersMore items more ∧ text = w ++ (u ++ more)

def RendersMore : List PropList → Text → Prop
  | [], text => ∃ w, Blank w ∧ text = w ++ [41]
  | item :: items, text =>
    ∃ w u more, Blank w ∧ Renders item u ∧ RendersMore items more ∧ text = 44 :: (w ++ (u ++ more))

def RendersEntries : List (PLKey × PropList) → Text → Prop
  | [], text => ∃ w, Blank w ∧ text = w ++ [125]
  | (key, val) :: entries, text =>
    ∃ w u more, Blank w ∧ Renders val u ∧ RendersEntries entries more ∧
      text = w ++ (keyDescription key ++ 32 :: 61 :: 32 :: (u ++ 59 :: more))
end

mutual
lemma renders_description : ∀ plist, Renders plist (description plist)
  | .string str => by rw [Renders, description]
  | .data data => by rw [Renders, description]
  | .array array => by
    rw [Renders, description]
    exact ⟨_, rendersItems_description array, rfl⟩
  | .dictionary dict => by
    rw [Renders, description]
    exact ⟨_, rendersEntries_description dict, rfl⟩

lemma rendersItems_description : ∀ items, RendersItems items (itemsDescription items ++ [41])
  | [] => by
    rw [RendersItems, itemsDescription]
    exact ⟨[], by simp [Blank], rfl⟩
  | item :: items => by
    rw [RendersItems, itemsDescription]
    exact ⟨[], _, _, by simp [Blank], renders_description item, rendersMore_description items, by simp⟩

lemma rendersMore_description : ∀ items, RendersMore items (moreItemsDescription items ++ [41])
  | [] => by
    rw [RendersMore, moreItemsDescription]
    exact ⟨[], by simp [Blank], rfl⟩
  | item :: items => by
    rw [RendersMore, moreItemsDescription]
    exact ⟨[32], _, _, by simp [Blank, isspace], renders_description item, rendersMore_description items, by simp⟩

lemma rendersEntries_description : ∀ entries, RendersEntries entries (entriesDescription entries ++ [125])
  | [] => by
    rw [RendersEntries, entriesDescription]
    exact ⟨[], by simp [Blank], rfl⟩
  | (key, val) :: entries => by
    rw [RendersEntries, entriesDescription]
    exact ⟨[], _, _, by simp [Blank], renders_description val, rendersEntries_description entries, by simp⟩
end

lemma blank_spaces (n : ℕ) : Blank (spaces n) := by
  intro ch hc
  rw [(List.mem_replicate.mp hc).2]
  rfl

lemma blank_newline_spaces (n : ℕ) : Blank (10 :: spaces n) := by
  intro ch hc
  rcases List.mem_cons.mp hc with rfl | hc
  · rfl
  · exact blank_spaces n ch hc

mutual
lemma renders_indentedDescription : ∀ plist level, Renders plist (indentedDescription plist level)
  | .string str, _ => by rw [Renders, indentedDescription]
  | .data data, _ => by rw [Renders, indentedDescription]
  | .array array, level => by
    rw [indentedDescription]
    split
    · exact renders_description (.array array)
    · rw [Renders]
      exact ⟨10 :: (indentedItems array level ++ (10 :: spaces (2 * level) ++ [41])),
        rendersItems_indented array level, rfl⟩
  | .dictionary dict, level => by
    rw [indentedDescription, Renders]
    exact ⟨10 :: (indentedEntries dict level ++ (spaces (2 * level) ++ [125])),
      rendersEntries_indented dict level [10] (by simp [Blank, isspace, inrange]), rfl⟩

lemma rendersItems_indented : ∀ items level,
    RendersItems items (10 :: (indentedItems items level ++ (10 :: spaces (2 * level) ++ [41])))
  | [], level => by
    rw [RendersItems, indentedItems]
    refine ⟨10 :: 10 :: spaces (2 * level), ?_, rfl⟩
    intro ch hc
    rcases List.mem_cons.mp hc with rfl | hc
    · rfl
    · exact blank_newline_spaces _ ch hc
  | item :: items, level => by
    rw [RendersItems, indentedItems]
    exact ⟨10 :: spaces (2 * (level + 1)), _, _, blank_newline_spaces _,
      renders_indentedDescription item (level + 1), rendersMore_indented items level, by simp⟩

lemma rendersMore_indented : ∀ items level,
    RendersMore items (moreIndentedItems items level ++ (10 :: spaces (2 * level) ++ [41]))
  | [], level => by
    rw [RendersMore, moreIndentedItems]
    exact ⟨10 :: spaces (2 * level), blank_newline_spaces _, rfl⟩
  | item :: items, level => by
    rw [RendersMore, moreIndentedItems]
    exact ⟨10 :: spaces (2 * (level + 1)), _, _, blank_newline_spaces _,
      renders_indentedDescription item (level + 1), rendersMore_indented items level, by simp⟩

lemma rendersEntries_indented : ∀ entries level w, Blank w →
    RendersEntries entries (w ++ (indentedEntries entries level ++ (spaces (2 * level) ++ [125])))
  | [], level, w, hw => by
    rw [RendersEntries, indentedEntries]
    refine ⟨w ++ spaces (2 * level), ?_, by simp⟩
    intro ch hc
    rcases List.mem_append.mp hc with hc | hc
    · exact hw ch hc
    · exact blank_spaces _ ch hc
  | (key, val) :: entries, level, w, hw => by
    have hblank : Blank (w ++ spaces (2 * (level + 1))) := by
      intro ch hc
      rcases List.mem_append.mp hc with hc | hc
      · exact hw ch hc
      · exact blank_spaces _ ch hc
    rw [RendersEntries, indentedEntries]
    exact ⟨w ++ spaces (2 * (level + 1)), _, _, hblank, renders_indentedDescription val (level + 1),
      rendersEntries_indented entries level [10] (by simp [Blank, isspace, inrange]), by simp⟩
end

lemma renders_getPropListDescription (plist : PropList) (indented : Bool) :
    Renders plist (getPropListDescription plist indented) := by
  cases indented with
  | false => exact renders_description plist
  | true => exact renders_indentedDescription plist 0

section Read

variable {caseSensitive : Bool}

mutual
/-- What is read of the text of a property list. -/
def reread (caseSensitive : Bool) : PropList → PropList
  | .string str => .string str
  | .data data => .data (createPLData (data.getD []))
  | .array array => .array (rereadItems caseSensitive array)
  | .dictionary dict => .dictionary (rereadEntries caseSensitive [] dict)

def rereadItems (caseSensitive : Bool) : List PropList → List PropList
  | [] => []
  | item :: items => reread caseSensitive item :: rereadItems caseSensitive items

def rereadEntries (caseSensitive : Bool) :
    List (PLKey × PropList) → List (PLKey × PropList) → List (PLKey × PropList)
  | dict, [] => dict
  | dict, (key, val) :: entries =>
    rereadEntries caseSensitive
      (putInPLDictionary caseSensitive dict (rereadKey key) (reread caseSensitive val)) entries
end

lemma getPropList_of_getKey {text rest : Text} {key : PLKey} (h : getKey text = some (key, rest)) (n : ℕ) :
    getPropList caseSensitive (n + 1) text = some (key.plist, rest) := by
  rw [getKey] at h
  rw [getPropList]
  cases hc : getNonSpaceChar text with
  | none =>
    rw [hc] at h
    cases h
  | some read =>
    obtain ⟨c, text'⟩ := read
    rw [hc] at h
    simp only at h ⊢
    by_cases h60 : c = 60
    · subst h60
      simp only [if_true] at h
      obtain ⟨read, hr, he⟩ := Option.map_eq_some_iff.mp h
      cases he
      simp only [show (60 : UInt8) ≠ 123 from by decide, show (60 : UInt8) ≠ 40 from by decide, if_false, if_true, hr]
      rfl
    by_cases h34 : c = 34
    · subst h34
      simp only [show (34 : UInt8) ≠ 60 from by decide, if_false, if_true] at h
      obtain ⟨read, hr, he⟩ := Option.map_eq_some_iff.mp h
      cases he
      simp only [show (34 : UInt8) ≠ 123 from by decide, show (34 : UInt8) ≠ 40 from by decide,
        show (34 : UInt8) ≠ 60 from by decide, if_false, if_true, hr]
      rfl
    by_cases hs : stringable c = true
    · obtain ⟨h123, h40, -⟩ := ne_of_stringable c hs
      simp only [h60, h34, hs, if_false, if_true] at h
      obtain ⟨read, hr, he⟩ := Option.map_eq_some_iff.mp h
      cases he
      simp only [h123, h40, h60, h34, hs, if_false, if_true, hr]
      rfl
    · simp only [h60, h34, hs, if_false] at h
      cases h

lemma getPropList_blank {w : Text} (hw : Blank w) (n : ℕ) (text : Text) :
    getPropList caseSensitive n (w ++ text) = getPropList caseSensitive n text := by
  cases n with
  | zero => rfl
  | succ n => rw [getPropList, getNonSpaceChar_append hw, getPropList]

lemma keyDescription_head (key : PLKey) :
    ∃ c more, keyDescription key = c :: more ∧ isspace c = false ∧ c ≠ 41 ∧ c ≠ 44 ∧ c ≠ 125 := by
  cases key with
  | data data => exact ⟨60, _, rfl, by decide⟩
  | string str =>
    by_cases h : str ≠ [] ∧ ∀ ch ∈ str, noquote ch = true
    · obtain ⟨hs, hq⟩ := h
      cases str with
      | nil => exact absurd rfl hs
      | cons ch str =>
        have hall : ∀ ch, noquote ch = true → isspace ch = false ∧ ch ≠ 41 ∧ ch ≠ 44 ∧ ch ≠ 125 :=
          forall_byte (by decide)
        exact ⟨ch, str, stringDescription_bare hs hq, hall ch (hq ch (by simp))⟩
    · exact ⟨34, _, stringDescription_quoted h, by decide⟩

lemma renders_head {plist : PropList} {text : Text} (h : Renders plist text) :
    ∃ c more, text = c :: more ∧ isspace c = false ∧ c ≠ 41 ∧ c ≠ 44 := by
  cases plist with
  | string str =>
    obtain ⟨c, more, he, hs, h41, h44, -⟩ := keyDescription_head (.string str)
    rw [Renders] at h
    exact ⟨c, more, h.trans he, hs, h41, h44⟩
  | data data =>
    rw [Renders] at h
    exact ⟨60, _, h, by decide⟩
  | array array =>
    rw [Renders] at h
    obtain ⟨items, -, rfl⟩ := h
    exact ⟨40, items, rfl, by decide⟩
  | dictionary dict =>
    rw [Renders] at h
    obtain ⟨entries, -, rfl⟩ := h
    exact ⟨123, entries, rfl, by decide⟩

lemma renders_length {plist : PropList} {text : Text} (h : Renders plist text) : 0 < text.length := by
  obtain ⟨c, more, rfl, -⟩ := renders_head h
  exact Nat.succ_pos _

lemma rendersMore_length {items : List PropList} {more : Text} (h : RendersMore items more) : 0 < more.length := by
  cases items with
  | nil =>
    rw [RendersMore] at h
    obtain ⟨w, -, rfl⟩ := h
    simp
  | cons item items =>
    rw [RendersMore] at h
    obtain ⟨w, u, more, -, -, -, rfl⟩ := h
    exact Nat.succ_pos _

lemma stops_of_isspace : ∀ ch, isspace ch = true → stringable ch = false :=
  forall_byte (by decide)

lemma stops_blank {w : Text} (hw : Blank w) {ch : UInt8} (h : stringable ch = false) (rest : Text) :
    Stops (w ++ ch :: rest) := by
  cases w with
  | nil => exact stops_cons.mpr h
  | cons c w => exact stops_cons.mpr (stops_of_isspace c (hw c (by simp)))

lemma stops_more {items : List PropList} {more : Text} (h : RendersMore items more) (rest : Text) :
    Stops (more ++ rest) := by
  cases items with
  | nil =>
    rw [RendersMore] at h
    obtain ⟨w, hw, rfl⟩ := h
    rw [List.append_assoc]
    exact stops_blank hw rfl rest
  | cons item items =>
    rw [RendersMore] at h
    obtain ⟨w, u, more, -, -, -, rfl⟩ := h
    exact stops_cons.mpr rfl

lemma getPLArray_close {w : Text} (hw : Blank w) (n : ℕ) (first : Bool) (array : List PropList) (rest : Text) :
    getPLArray caseSensitive (n + 1) first array (w ++ 41 :: rest) = some (array, rest) := by
  rw [getPLArray, getNonSpaceChar_append hw]
  rfl

lemma getPLArray_first {w u : Text} {item : PropList} (hw : Blank w) (hu : Renders item u) (n : ℕ) (rest : Text) :
    getPLArray caseSensitive (n + 1) true [] (w ++ (u ++ rest)) =
      match getPropList caseSensitive n (u ++ rest) with
      | none => none
      | some (obj, rest) => getPLArray caseSensitive n false [obj] rest := by
  obtain ⟨c, more, rfl, hs, h41, h44⟩ := renders_head hu
  rw [getPLArray, getNonSpaceChar_append hw, List.cons_append, getNonSpaceChar_cons hs]
  simp only [h41, h44, if_false, Bool.true_eq_false, and_false, List.nil_append] <;> rfl

lemma getPLArray_comma (n : ℕ) (first : Bool) (array : List PropList) (rest : Text) :
    getPLArray caseSensitive (n + 1) first array (44 :: rest) =
      match getPropList caseSensitive n rest with
      | none => none
      | some (obj, rest) => getPLArray caseSensitive n false (array ++ [obj]) rest := by
  rw [getPLArray, getNonSpaceChar_cons rfl]
  rfl

lemma getPLDictionary_close {w : Text} (hw : Blank w) (n : ℕ) (dict : List (PLKey × PropList)) (rest : Text) :
    getPLDictionary caseSensitive (n + 1) dict (w ++ 125 :: rest) = some (dict, rest) := by
  rw [getPLDictionary, getNonSpaceChar_append hw]
  rfl

lemma getPLDictionary_entry {w u : Text} {key key' : PLKey} {rest : Text} (hw : Blank w)
    (hkey : getKey (keyDescription key ++ 32 :: 61 :: 32 :: (u ++ rest)) = some (key', 32 :: 61 :: 32 :: (u ++ rest)))
    (n : ℕ) (dict : List (PLKey × PropList)) :
    getPLDictionary caseSensitive (n + 1) dict (w ++ (keyDescription key ++ 32 :: 61 :: 32 :: (u ++ rest))) =
      match getPropList caseSensitive n (u ++ rest) with
      | none => none
      | some (value, rest) =>
        match getNonSpaceChar rest with
        | some (59, rest) => getPLDictionary caseSensitive n (putInPLDictionary caseSensitive dict key' value) rest
        | _ => none := by
  obtain ⟨c, more, he, hs, -, -, h125⟩ := keyDescription_head key
  have hequals : getNonSpaceChar (32 :: 61 :: 32 :: (u ++ rest)) = some (61, 32 :: (u ++ rest)) := rfl
  have hspace : getPropList caseSensitive n ([32] ++ (u ++ rest)) = getPropList caseSensitive n (u ++ rest) :=
    getPropList_blank (by simp [Blank, isspace]) n (u ++ rest)
  rw [he, List.cons_append] at hkey
  rw [getPLDictionary, getNonSpaceChar_append hw, he, List.cons_append, getNonSpaceChar_cons hs]
  simp only [h125, if_false, hkey, hequals]
  rw [← hspace]
  rfl

mutual
lemma getPropList_renders : ∀ (plist : PropList) (text : Text), Renders plist text → Leaves NoNul plist →
    Leaves (¬Bare ·) plist → ∀ n rest, text.length < n → Stops rest →
    getPropList caseSensitive n (text ++ rest) = some (reread caseSensitive plist, rest)
  | .string str, text, hr, hn, hb, n + 1, rest, _, hs => by
    rw [Renders] at hr
    rw [Leaves] at hn hb
    rw [hr, reread]
    exact getPropList_of_getKey (getKey_string hn hb hs) n
  | .data data, text, hr, _, _, n + 1, rest, _, _ => by
    rw [Renders] at hr
    rw [hr, reread]
    exact getPropList_of_getKey (getKey_data data rest) n
  | .array array, text, hr, hn, hb, n + 1, rest, hlen, _ => by
    rw [Renders] at hr
    rw [Leaves] at hn hb
    obtain ⟨items, hi, rfl⟩ := hr
    have h := getPLArray_renders array items hi hn hb n rest (by simpa using hlen)
    rw [List.cons_append, getPropList, getNonSpaceChar_cons rfl, reread]
    simp only [h, if_true, show (40 : UInt8) ≠ 123 from by decide, if_false]
    rfl
  | .dictionary dict, text, hr, hn, hb, n + 1, rest, hlen, _ => by
    rw [Renders] at hr
    rw [Leaves] at hn hb
    obtain ⟨entries, he, rfl⟩ := hr
    have h := getPLDictionary_renders dict entries he hn hb n [] rest (by simpa using hlen)
    rw [List.cons_append, getPropList, getNonSpaceChar_cons rfl, reread]
    simp only [h, if_true]
    rfl

lemma getPLArray_renders : ∀ (items : List PropList) (text : Text), RendersItems items text →
    ItemsLeaves NoNul items → ItemsLeaves (¬Bare ·) items → ∀ n rest, text.length < n →
    getPLArray caseSensitive n true [] (text ++ rest) = some (rereadItems caseSensitive items, rest)
  | [], text, hr, _, _, n + 1, rest, _ => by
    rw [RendersItems] at hr
    obtain ⟨w, hw, rfl⟩ := hr
    rw [List.append_assoc, List.singleton_append, getPLArray_close hw, rereadItems]
  | item :: items, text, hr, hn, hb, n + 1, rest, hlen => by
    rw [RendersItems] at hr
    rw [ItemsLeaves] at hn hb
    obtain ⟨w, u, more, hw, hu, hm, rfl⟩ := hr
    simp only [List.length_append] at hlen
    have hupos := renders_length hu
    have hmpos := rendersMore_length hm
    have hitem := getPropList_renders item u hu hn.1 hb.1 n (more ++ rest) (by omega) (stops_more hm rest)
    have hitems := getPLArray_more items more hm hn.2 hb.2 n [reread caseSensitive item] rest (by omega)
    rw [List.append_assoc, List.append_assoc, getPLArray_first hw hu, hitem, rereadItems]
    exact hitems

lemma getPLArray_more : ∀ (items : List PropList) (text : Text), RendersMore items text →
    ItemsLeaves NoNul items → ItemsLeaves (¬Bare ·) items → ∀ n array rest, text.length < n →
    getPLArray caseSensitive n false array (text ++ rest) = some (array ++ rereadItems caseSensitive items, rest)
  | [], text, hr, _, _, n + 1, array, rest, _ => by
    rw [RendersMore] at hr
    obtain ⟨w, hw, rfl⟩ := hr
    rw [List.append_assoc, List.singleton_append, getPLArray_close hw, rereadItems, List.append_nil]
  | item :: items, text, hr, hn, hb, n + 1, array, rest, hlen => by
    rw [RendersMore] at hr
    rw [ItemsLeaves] at hn hb
    obtain ⟨w, u, more, hw, hu, hm, rfl⟩ := hr
    simp only [List.length_cons, List.length_append] at hlen
    have hitem := getPropList_renders item u hu hn.1 hb.1 n (more ++ rest) (by omega) (stops_more hm rest)
    have hitems := getPLArray_more items more hm hn.2 hb.2 n (array ++ [reread caseSensitive item]) rest (by omega)
    rw [List.cons_append, List.append_assoc, List.append_assoc, getPLArray_comma, getPropList_blank hw, hitem,
      rereadItems]
    simpa using hitems

lemma getPLDictionary_renders : ∀ (entries : List (PLKey × PropList)) (text : Text), RendersEntries entries text →
    EntriesLeaves NoNul entries → EntriesLeaves (¬Bare ·) entries → ∀ n dict rest, text.length < n →
    getPLDictionary caseSensitive n dict (text ++ rest) = some (rereadEntries caseSensitive dict entries, rest)
  | [], text, hr, _, _, n + 1, dict, rest, _ => by
    rw [RendersEntries] at hr
    obtain ⟨w, hw, rfl⟩ := hr
    rw [List.append_assoc, List.singleton_append, getPLDictionary_close hw, rereadEntries]
  | (key, val) :: entries, text, hr, hn, hb, n + 1, dict, rest, hlen => by
    rw [RendersEntries] at hr
    rw [EntriesLeaves] at hn hb
    obtain ⟨w, u, more, hw, hu, hm, rfl⟩ := hr
    simp only [List.length_cons, List.length_append] at hlen
    have hkey := getKey_keyDescription hn.1 hb.1
      (show Stops (32 :: 61 :: 32 :: (u ++ (59 :: more ++ rest))) from stops_cons.mpr rfl)
    have hval := getPropList_renders val u hu hn.2.1 hb.2.1 n (59 :: more ++ rest) (by omega) (stops_cons.mpr rfl)
    have hentries := getPLDictionary_renders entries more hm hn.2.2 hb.2.2 n
      (putInPLDictionary caseSensitive dict (rereadKey key) (reread caseSensitive val)) rest (by omega)
    have htext : w ++ (keyDescription key ++ 32 :: 61 :: 32 :: (u ++ 59 :: more)) ++ rest =
        w ++ (keyDescription key ++ 32 :: 61 :: 32 :: (u ++ (59 :: more ++ rest))) := by simp
    rw [htext, getPLDictionary_entry hw hkey, hval, rereadEntries]
    exact hentries
end

end Read

end Xperimentum.WMcore
