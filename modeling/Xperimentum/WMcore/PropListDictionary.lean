import Xperimentum.WMcore.PropListDescription

/-! Dictionaries under insertion, removal and merging, and that every property list that is read is well formed. -/

namespace Xperimentum.WMcore

section Keys

variable {caseSensitive : Bool}

lemma equalKeys_symm {a b : PLKey} (h : equalKeys caseSensitive a b = true) : equalKeys caseSensitive b a = true := by
  cases a with
  | string s =>
    cases b with
    | string t => cases caseSensitive <;> simpa [equalKeys, equalStrings, eq_comm] using h
    | data d => cases h
  | data c =>
    cases b with
    | string t => cases h
    | data d =>
      cases c with
      | none =>
        cases d with
        | none => rfl
        | some d => cases h
      | some c =>
        cases d with
        | none => cases h
        | some d => simpa [equalKeys, isDataEqualToData, eq_comm] using h

lemma equalKeys_trans {a b c : PLKey} (h : equalKeys caseSensitive a b = true) (h' : equalKeys caseSensitive b c = true) :
    equalKeys caseSensitive a c = true := by
  cases a with
  | string s =>
    cases b with
    | data d => cases h
    | string t =>
      cases c with
      | data d => cases h'
      | string u => cases caseSensitive <;> simp_all [equalKeys, equalStrings]
  | data s =>
    cases b with
    | string t => cases h
    | data t =>
      cases c with
      | string u => cases h'
      | data u => cases s <;> cases t <;> cases u <;> simp_all [equalKeys, isDataEqualToData]

lemma equalKeys_congr {a b : PLKey} (h : equalKeys caseSensitive a b = true) (c : PLKey) :
    equalKeys caseSensitive a c = equalKeys caseSensitive b c := by
  rw [Bool.eq_iff_iff]
  exact ⟨equalKeys_trans (equalKeys_symm h), equalKeys_trans h⟩

end Keys

section Dictionary

variable {caseSensitive : Bool} {V : Type} {dict : List (PLKey × V)}

lemma hashGet_cons (e : PLKey × V) (key : PLKey) :
    hashGet caseSensitive (e :: dict) key =
      if equalKeys caseSensitive key e.1 = true then some e.2 else hashGet caseSensitive dict key := by
  rw [hashGet, List.find?_cons, hashGet]
  split <;> simp_all

lemma hashGet_congr {a b : PLKey} (h : equalKeys caseSensitive a b = true) :
    hashGet caseSensitive dict a = hashGet caseSensitive dict b := by
  rw [hashGet, hashGet]
  simp only [equalKeys_congr h]

lemma hashGet_append (other : List (PLKey × V)) (key : PLKey) :
    hashGet caseSensitive (dict ++ other) key = (hashGet caseSensitive dict key).or (hashGet caseSensitive other key) := by
  rw [hashGet, List.find?_append, hashGet, hashGet]
  cases dict.find? fun entry => equalKeys caseSensitive key entry.1 <;> rfl

lemma mem_of_hashGet {key : PLKey} {value : V} (h : hashGet caseSensitive dict key = some value) :
    ∃ e ∈ dict, equalKeys caseSensitive key e.1 = true ∧ e.2 = value := by
  obtain ⟨e, he, hv⟩ := Option.map_eq_some_iff.mp h
  have hk := List.find?_some (p := fun entry : PLKey × V => equalKeys caseSensitive key entry.1) he
  exact ⟨e, List.mem_of_find?_eq_some he, hk, hv⟩

lemma not_equalKeys_of_mem_remove (h : Distinct caseSensitive (dict.map Prod.fst)) {key : PLKey} {e : PLKey × V}
    (he : e ∈ removeFromPLDictionary caseSensitive dict key) : equalKeys caseSensitive key e.1 = false := by
  induction dict with
  | nil => exact absurd he List.not_mem_nil
  | cons d dict ih =>
    obtain ⟨hd, hdict⟩ := List.pairwise_cons.mp h
    rw [removeFromPLDictionary, List.eraseP_cons] at he
    by_cases hk : equalKeys caseSensitive key d.1 = true
    · rw [hk] at he
      have hne := hd e.1 (List.mem_map_of_mem he)
      cases hke : equalKeys caseSensitive key e.1 with
      | false => rfl
      | true =>
        rw [equalKeys_trans (equalKeys_symm hke) hk] at hne
        cases hne
    · rw [Bool.not_eq_true] at hk
      rw [hk] at he
      rcases List.mem_cons.mp he with rfl | he
      · exact hk
      · exact ih hdict he

lemma distinct_remove (h : Distinct caseSensitive (dict.map Prod.fst)) (key : PLKey) :
    Distinct caseSensitive ((removeFromPLDictionary caseSensitive dict key).map Prod.fst) :=
  h.sublist (List.eraseP_sublist.map Prod.fst)

lemma distinct_put (h : Distinct caseSensitive (dict.map Prod.fst)) (key : PLKey) (value : V) :
    Distinct caseSensitive ((putInPLDictionary caseSensitive dict key value).map Prod.fst) := by
  rw [putInPLDictionary, List.map_append]
  refine List.pairwise_append.mpr ⟨distinct_remove h key, by simp, fun a ha b hb => ?_⟩
  obtain ⟨e, he, rfl⟩ := List.mem_map.mp ha
  obtain rfl := List.mem_singleton.mp hb
  exact not_equalKeys_of_mem_remove h he

lemma hashGet_remove (h : Distinct caseSensitive (dict.map Prod.fst)) (key other : PLKey) :
    hashGet caseSensitive (removeFromPLDictionary caseSensitive dict key) other =
      if equalKeys caseSensitive other key = true then none else hashGet caseSensitive dict other := by
  split
  · next hk =>
    refine hashGet_eq_none fun e he => ?_
    rw [equalKeys_congr hk]
    exact not_equalKeys_of_mem_remove h he
  · next hk =>
    clear h
    induction dict with
    | nil => rfl
    | cons d dict ih =>
      rw [removeFromPLDictionary, List.eraseP_cons]
      by_cases hd : equalKeys caseSensitive key d.1 = true
      · have hne : ¬equalKeys caseSensitive other d.1 = true := fun ho =>
          hk (equalKeys_trans ho (equalKeys_symm hd))
        rw [hd, hashGet_cons, if_neg hne]
        rfl
      · rw [Bool.not_eq_true] at hd
        rw [hd, hashGet_cons d, ← ih]
        exact hashGet_cons d other

lemma hashGet_put (h : Distinct caseSensitive (dict.map Prod.fst)) (key : PLKey) (value : V) (other : PLKey) :
    hashGet caseSensitive (putInPLDictionary caseSensitive dict key value) other =
      if equalKeys caseSensitive other key = true then some value else hashGet caseSensitive dict other := by
  rw [putInPLDictionary, hashGet_append, hashGet_remove h, hashGet_cons]
  split
  · rfl
  · cases hashGet caseSensitive dict other <;> rfl

lemma mem_put {key : PLKey} {value : V} {e : PLKey × V}
    (h : e ∈ putInPLDictionary caseSensitive dict key value) : e ∈ dict ∨ e = (key, value) := by
  rcases List.mem_append.mp h with h | h
  · exact .inl (List.mem_of_mem_eraseP h)
  · exact .inr (List.mem_singleton.mp h)

lemma length_put {key : PLKey} (h : (hashGet caseSensitive dict key).isSome = true) (value : V) :
    (putInPLDictionary caseSensitive dict key value).length = dict.length := by
  obtain ⟨found, hf⟩ := Option.isSome_iff_exists.mp h
  obtain ⟨e, he, hk, -⟩ := mem_of_hashGet hf
  have hlen := List.length_eraseP_of_mem (p := fun entry : PLKey × V => equalKeys caseSensitive key entry.1) he hk
  have hpos := List.length_pos_of_mem he
  rw [putInPLDictionary, removeFromPLDictionary, List.length_append, hlen, List.length_singleton]
  omega

/-! Merging puts every entry of the source in. -/

def mergePLDictionaries (caseSensitive : Bool) (dest source : List (PLKey × V)) : List (PLKey × V) :=
  source.foldl (fun dest entry => putInPLDictionary caseSensitive dest entry.1 entry.2) dest

lemma mergePLDictionaries_cons (dest source : List (PLKey × V)) (e : PLKey × V) :
    mergePLDictionaries caseSensitive dest (e :: source) =
      mergePLDictionaries caseSensitive (putInPLDictionary caseSensitive dest e.1 e.2) source := rfl

lemma distinct_merge {dest : List (PLKey × V)} (h : Distinct caseSensitive (dest.map Prod.fst))
    (source : List (PLKey × V)) :
    Distinct caseSensitive ((mergePLDictionaries caseSensitive dest source).map Prod.fst) := by
  induction source generalizing dest with
  | nil => exact h
  | cons e source ih => exact ih (distinct_put h e.1 e.2)

lemma hashGet_merge {dest source : List (PLKey × V)} (hd : Distinct caseSensitive (dest.map Prod.fst))
    (hs : Distinct caseSensitive (source.map Prod.fst)) (key : PLKey) :
    hashGet caseSensitive (mergePLDictionaries caseSensitive dest source) key =
      (hashGet caseSensitive source key).or (hashGet caseSensitive dest key) := by
  induction source generalizing dest with
  | nil => rfl
  | cons e source ih =>
    obtain ⟨he, hsource⟩ := List.pairwise_cons.mp hs
    rw [mergePLDictionaries_cons, ih (distinct_put hd e.1 e.2) hsource, hashGet_put hd, hashGet_cons]
    by_cases hk : equalKeys caseSensitive key e.1 = true
    · have hnone : hashGet caseSensitive source key = none := by
        refine hashGet_eq_none fun d hm => ?_
        have hne := he d.1 (List.mem_map_of_mem hm)
        cases hkd : equalKeys caseSensitive key d.1 with
        | false => rfl
        | true =>
          rw [equalKeys_trans (equalKeys_symm hkd) hk] at hne
          cases hne
      rw [if_pos hk, if_pos hk, hnone]
      rfl
    · rw [if_neg hk, if_neg hk]

lemma mem_merge {dest source : List (PLKey × V)} {e : PLKey × V}
    (h : e ∈ mergePLDictionaries caseSensitive dest source) : e ∈ dest ∨ e ∈ source := by
  induction source generalizing dest with
  | nil => exact .inl h
  | cons d source ih =>
    rcases ih h with h | h
    · rcases mem_put h with h | rfl
      · exact .inl h
      · exact .inr List.mem_cons_self
    · exact .inr (List.mem_cons_of_mem d h)

lemma length_merge {dest source : List (PLKey × V)} (hd : Distinct caseSensitive (dest.map Prod.fst))
    (h : ∀ e ∈ source, (hashGet caseSensitive dest e.1).isSome = true) :
    (mergePLDictionaries caseSensitive dest source).length = dest.length := by
  induction source generalizing dest with
  | nil => rfl
  | cons d source ih =>
    rw [mergePLDictionaries_cons, ih (distinct_put hd d.1 d.2), length_put (h d List.mem_cons_self)]
    intro e he
    rw [hashGet_put hd]
    split
    · rfl
    · exact h e (List.mem_cons_of_mem d he)

end Dictionary

/-! What is read is well formed. -/

section WellFormed

variable {caseSensitive : Bool} {P : PLKey → Prop}

lemma entriesLeaves_iff {entries : List (PLKey × PropList)} :
    EntriesLeaves P entries ↔ ∀ e ∈ entries, P e.1 ∧ Leaves P e.2 := by
  refine ⟨keys_of_entriesLeaves, fun h => ?_⟩
  induction entries with
  | nil =>
    rw [EntriesLeaves]
    trivial
  | cons e entries ih =>
    rw [EntriesLeaves]
    exact ⟨(h e (by simp)).1, (h e (by simp)).2, ih fun d hd => h d (List.mem_cons_of_mem _ hd)⟩

lemma entriesDistinct_iff {entries : List (PLKey × PropList)} :
    EntriesDistinct caseSensitive entries ↔ ∀ e ∈ entries, DistinctKeys caseSensitive e.2 := by
  induction entries with
  | nil => simp [EntriesDistinct]
  | cons e entries ih =>
    rw [EntriesDistinct, ih]
    simp

lemma itemsLeaves_append (items : List PropList) (item : PropList) :
    ItemsLeaves P (items ++ [item]) ↔ ItemsLeaves P items ∧ Leaves P item := by
  induction items with
  | nil => simp [ItemsLeaves]
  | cons i items ih =>
    rw [List.cons_append, ItemsLeaves, ItemsLeaves, ih, and_assoc]

lemma itemsDistinct_append (items : List PropList) (item : PropList) :
    ItemsDistinct caseSensitive (items ++ [item]) ↔
      ItemsDistinct caseSensitive items ∧ DistinctKeys caseSensitive item := by
  induction items with
  | nil => simp [ItemsDistinct]
  | cons i items ih =>
    rw [List.cons_append, ItemsDistinct, ItemsDistinct, ih, and_assoc]

lemma wellFormed_dictionary {dict : List (PLKey × PropList)} :
    (PropList.dictionary dict).WellFormed caseSensitive ↔
      Distinct caseSensitive (dict.map Prod.fst) ∧ ∀ e ∈ dict, NoNul e.1 ∧ e.2.WellFormed caseSensitive := by
  refine ⟨fun h => ?_, fun h => ⟨?_, ?_⟩⟩
  · have hn := h.noNul
    have hd := h.distinct
    rw [Leaves, entriesLeaves_iff] at hn
    rw [DistinctKeys, entriesDistinct_iff] at hd
    exact ⟨hd.1, fun e he => ⟨(hn e he).1, (hn e he).2, hd.2 e he⟩⟩
  · rw [Leaves, entriesLeaves_iff]
    exact fun e he => ⟨(h.2 e he).1, (h.2 e he).2.noNul⟩
  · rw [DistinctKeys, entriesDistinct_iff]
    exact ⟨h.1, fun e he => (h.2 e he).2.distinct⟩

lemma wellFormed_array_append {array : List PropList} {item : PropList}
    (h : (PropList.array array).WellFormed caseSensitive) (hi : item.WellFormed caseSensitive) :
    (PropList.array (array ++ [item])).WellFormed caseSensitive := by
  have hn := h.noNul
  have hd := h.distinct
  rw [Leaves] at hn
  rw [DistinctKeys] at hd
  refine ⟨?_, ?_⟩
  · rw [Leaves, itemsLeaves_append]
    exact ⟨hn, hi.noNul⟩
  · rw [DistinctKeys, itemsDistinct_append]
    exact ⟨hd, hi.distinct⟩

lemma wellFormed_put {dict : List (PLKey × PropList)} {key : PLKey} {value : PropList}
    (h : (PropList.dictionary dict).WellFormed caseSensitive) (hk : NoNul key) (hv : value.WellFormed caseSensitive) :
    (PropList.dictionary (putInPLDictionary caseSensitive dict key value)).WellFormed caseSensitive := by
  obtain ⟨hd, he⟩ := wellFormed_dictionary.mp h
  refine wellFormed_dictionary.mpr ⟨distinct_put hd key value, fun e hm => ?_⟩
  rcases mem_put hm with hm | rfl
  · exact he e hm
  · exact ⟨hk, hv⟩

lemma createPLString_noNul (str : Text) : 0 ∉ createPLString str := by
  intro h
  have hall := List.all_eq_true.mp (List.all_takeWhile (p := fun ch : UInt8 => decide (ch ≠ 0)) (l := str)) 0 h
  simp at hall

lemma getKey_noNul {text rest : Text} {key : PLKey} (h : getKey text = some (key, rest)) : NoNul key := by
  cases key with
  | data data => trivial
  | string str =>
    rw [getKey] at h
    cases hc : getNonSpaceChar text with
    | none =>
      rw [hc] at h
      cases h
    | some read =>
      rw [hc] at h
      simp only at h
      split at h
      · obtain ⟨read, -, he⟩ := Option.map_eq_some_iff.mp h
        cases he
      · split at h
        · obtain ⟨read, hr, he⟩ := Option.map_eq_some_iff.mp h
          cases he
          obtain ⟨read, -, rfl⟩ := Option.map_eq_some_iff.mp hr
          exact createPLString_noNul _
        · split at h
          · obtain ⟨read, hr, he⟩ := Option.map_eq_some_iff.mp h
            cases he
            rw [getPLString] at hr
            split at hr
            · cases hr
            · cases hr
              exact createPLString_noNul _
          · cases h

lemma wellFormed_plist {key : PLKey} (h : NoNul key) : key.plist.WellFormed caseSensitive := by
  cases key with
  | string str => exact ⟨by rw [PLKey.plist, Leaves]; exact h, by rw [PLKey.plist, DistinctKeys]; trivial⟩
  | data data => exact ⟨by rw [PLKey.plist, Leaves]; trivial, by rw [PLKey.plist, DistinctKeys]; trivial⟩

lemma getPropList_cases {n : ℕ} {text rest : Text} {plist : PropList}
    (h : getPropList caseSensitive (n + 1) text = some (plist, rest)) :
    (∃ dict rest', plist = .dictionary dict ∧ getPLDictionary caseSensitive n [] rest' = some (dict, rest)) ∨
    (∃ array rest', plist = .array array ∧ getPLArray caseSensitive n true [] rest' = some (array, rest)) ∨
    ∃ key, plist = key.plist ∧ getKey text = some (key, rest) := by
  rw [getPropList] at h
  rw [getKey]
  cases hc : getNonSpaceChar text with
  | none =>
    rw [hc] at h
    cases h
  | some read =>
    rw [hc] at h
    simp only at h ⊢
    split at h
    · obtain ⟨read, hr, he⟩ := Option.map_eq_some_iff.mp h
      cases he
      exact .inl ⟨_, _, rfl, hr⟩
    split at h
    · obtain ⟨read, hr, he⟩ := Option.map_eq_some_iff.mp h
      cases he
      exact .inr (.inl ⟨_, _, rfl, hr⟩)
    refine .inr (.inr ?_)
    split at h
    · next h60 =>
      obtain ⟨read, hr, he⟩ := Option.map_eq_some_iff.mp h
      cases he
      exact ⟨.data read.1, rfl, by rw [if_pos h60, hr]; rfl⟩
    split at h
    · next h60 h34 =>
      obtain ⟨read, hr, he⟩ := Option.map_eq_some_iff.mp h
      cases he
      exact ⟨.string read.1, rfl, by rw [if_neg h60, if_pos h34, hr]; rfl⟩
    split at h
    · next h60 h34 hs =>
      obtain ⟨read, hr, he⟩ := Option.map_eq_some_iff.mp h
      cases he
      exact ⟨.string read.1, rfl, by rw [if_neg h60, if_neg h34, if_pos hs, hr]; rfl⟩
    · cases h

lemma read_wellFormed (n : ℕ) :
    (∀ text plist rest, getPropList caseSensitive n text = some (plist, rest) → plist.WellFormed caseSensitive) ∧
    (∀ first array text array' rest, (PropList.array array).WellFormed caseSensitive →
      getPLArray caseSensitive n first array text = some (array', rest) →
      (PropList.array array').WellFormed caseSensitive) ∧
    (∀ dict text dict' rest, (PropList.dictionary dict).WellFormed caseSensitive →
      getPLDictionary caseSensitive n dict text = some (dict', rest) →
      (PropList.dictionary dict').WellFormed caseSensitive) := by
  induction n with
  | zero =>
    refine ⟨fun _ _ _ h => ?_, fun _ _ _ _ _ _ h => ?_, fun _ _ _ _ _ h => ?_⟩
    · rw [getPropList] at h
      cases h
    · rw [getPLArray] at h
      cases h
    · rw [getPLDictionary] at h
      cases h
  | succ n ih =>
    obtain ⟨ihp, iha, ihd⟩ := ih
    refine ⟨fun text plist rest h => ?_, fun first array text array' rest hw h => ?_, fun dict text dict' rest hw h => ?_⟩
    · rcases getPropList_cases h with ⟨dict, rest', rfl, hd⟩ | ⟨array, rest', rfl, ha⟩ | ⟨key, rfl, hk⟩
      · exact ihd [] rest' dict rest (wellFormed_dictionary.mpr ⟨List.Pairwise.nil, by simp⟩) hd
      · exact iha true [] rest' array rest ⟨by rw [Leaves, ItemsLeaves]; trivial,
          by rw [DistinctKeys, ItemsDistinct]; trivial⟩ ha
      · exact wellFormed_plist (getKey_noNul hk)
    · rw [getPLArray] at h
      split at h
      · cases h
      split at h
      · cases h
        exact hw
      split at h
      · cases h
      split at h
      · cases h
      · next obj rest' hobj => exact iha _ _ _ _ _ (wellFormed_array_append hw (ihp _ _ _ hobj)) h
    · rw [getPLDictionary] at h
      split at h
      · cases h
      split at h
      · cases h
        exact hw
      split at h
      · cases h
      next key rest' hkey =>
      split at h
      · split at h
        · cases h
        next value rest'' hvalue =>
        split at h
        · exact ihd _ _ _ _ (wellFormed_put hw (getKey_noNul hkey) (ihp _ _ _ hvalue)) h
        · cases h
      · cases h

lemma readWhole_wellFormed {n : ℕ} {text : Text} {plist : PropList}
    (h : readWhole caseSensitive n text = some plist) : plist.WellFormed caseSensitive := by
  rw [readWhole] at h
  split at h
  · next read rest hread =>
    split at h
    · cases h
    · cases h
      exact (read_wellFormed n).1 _ _ _ hread
  · cases h

end WellFormed

end Xperimentum.WMcore
