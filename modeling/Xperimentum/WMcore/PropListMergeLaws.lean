import Xperimentum.WMcore.PropListMerging

/-! The laws of merging and subtracting dictionaries, and for which dictionaries they hold. -/

namespace Xperimentum.WMcore

variable {caseSensitive : Bool}

/-! Induction on the dictionaries inside a dictionary. -/

@[elab_as_elim]
lemma dictionary_induct (caseSensitive : Bool) {P : List (PLKey × PropList) → Prop}
    (h : ∀ dict, (∀ key inner, hashGet caseSensitive dict key = some (.dictionary inner) → P inner) → P dict)
    (dict : List (PLKey × PropList)) : P dict := by
  have hall (plist : PropList) : ∀ dict, plist = .dictionary dict → P dict := by
    induction plist using PropList.induct with
    | dictionary entries ih =>
      rintro dict heq
      cases heq
      refine h _ fun key inner hget => ?_
      obtain ⟨e, he, -, hvalue⟩ := mem_of_hashGet hget
      exact ih e he inner hvalue
    | _ => exact fun dict heq => by cases heq
  exact hall _ dict rfl

lemma distinctKeys_iff_hashGet {dict : List (PLKey × PropList)} :
    DistinctKeys caseSensitive (.dictionary dict) ↔ Distinct caseSensitive (dict.map Prod.fst) ∧
      ∀ key value, hashGet caseSensitive dict key = some value → DistinctKeys caseSensitive value := by
  rw [distinctKeys_dictionary]
  refine and_congr_right fun h => ⟨fun hall key value hget => ?_, fun hall e he => ?_⟩
  · obtain ⟨e, he, -, rfl⟩ := mem_of_hashGet hget
    exact hall e he
  · exact hall e.1 e.2 (hashGet_of_mem h he)

lemma clean_iff_hashGet {dict : List (PLKey × PropList)} (h : Distinct caseSensitive (dict.map Prod.fst)) :
    Clean (.dictionary dict) ↔
      ∀ key value, hashGet caseSensitive dict key = some value → ¬Emptied key ∧ Clean value := by
  rw [clean_dictionary]
  refine ⟨fun hall key value hget => ?_, fun hall e he => ?_⟩
  · obtain ⟨e, he, hk, rfl⟩ := mem_of_hashGet hget
    exact ⟨(emptied_of_equalKeys hk).not.mpr (hall e he).1, (hall e he).2⟩
  · exact hall e.1 e.2 (hashGet_of_mem h he)

/-! What merging and subtracting keep of the dictionaries inside. -/

lemma distinctKeys_mergeFound {recursive : Bool} {value : PropList} {dvalue : Option PropList}
    (ih : ∀ source, value = .dictionary source → ∀ dest, DistinctKeys caseSensitive (.dictionary dest) →
      DistinctKeys caseSensitive (.dictionary (mergeEntries caseSensitive true dest source)))
    (hv : DistinctKeys caseSensitive value) (hd : ∀ d ∈ dvalue, DistinctKeys caseSensitive d) :
    DistinctKeys caseSensitive (mergeFound caseSensitive recursive value dvalue) := by
  unfold mergeFound
  split
  · exact ih _ rfl _ (hd _ rfl)
  · exact hv

lemma distinctKeys_merge (recursive : Bool) {dest source : List (PLKey × PropList)}
    (hd : DistinctKeys caseSensitive (.dictionary dest)) (hs : DistinctKeys caseSensitive (.dictionary source)) :
    DistinctKeys caseSensitive (.dictionary (mergeEntries caseSensitive recursive dest source)) := by
  induction source using dictionary_induct caseSensitive generalizing dest recursive with
  | h source ih =>
    obtain ⟨hdistinct, hget⟩ := mergeEntries_spec recursive (distinctKeys_dictionary.mp hd).1
      (distinctKeys_dictionary.mp hs).1
    refine distinctKeys_iff_hashGet.mpr ⟨hdistinct, fun key value hfound => ?_⟩
    rw [hget] at hfound
    cases hsource : hashGet caseSensitive source key with
    | none =>
      rw [hsource] at hfound
      exact distinctKeys_of_hashGet hd hfound
    | some svalue =>
      rw [hsource] at hfound
      obtain rfl := Option.some.inj hfound
      have hvalue := distinctKeys_of_hashGet hs hsource
      refine distinctKeys_mergeFound (fun inner heq dest hdest => ?_) hvalue fun d hm => distinctKeys_of_hashGet hd hm
      subst heq
      exact ih key inner hsource true hdest hvalue

lemma subtractFound_cases {recursive : Bool} {value : PropList} {dvalue : Option PropList} {left : PropList}
    (h : subtractFound caseSensitive recursive value dvalue = some left) :
    dvalue = some left ∨ ∃ source dest, value = .dictionary source ∧ dvalue = some (.dictionary dest) ∧
      left = .dictionary (subtractEntries caseSensitive true dest source) := by
  unfold subtractFound at h
  split at h
  · cases h
  split at h
  · cases h
  split at h
  · exact .inr ⟨_, _, rfl, rfl, (Option.some.inj h).symm⟩
  · exact .inl h

lemma distinctKeys_subtract (recursive : Bool) {dest source : List (PLKey × PropList)}
    (hd : DistinctKeys caseSensitive (.dictionary dest)) (hs : DistinctKeys caseSensitive (.dictionary source)) :
    DistinctKeys caseSensitive (.dictionary (subtractEntries caseSensitive recursive dest source)) := by
  induction source using dictionary_induct caseSensitive generalizing dest recursive with
  | h source ih =>
    obtain ⟨hdistinct, hget⟩ := subtractEntries_spec recursive (distinctKeys_dictionary.mp hd).1
      (distinctKeys_dictionary.mp hs).1
    refine distinctKeys_iff_hashGet.mpr ⟨hdistinct, fun key value hfound => ?_⟩
    rw [hget] at hfound
    cases hsource : hashGet caseSensitive source key with
    | none =>
      rw [hsource] at hfound
      exact distinctKeys_of_hashGet hd hfound
    | some svalue =>
      rw [hsource] at hfound
      rcases subtractFound_cases hfound with hdest | ⟨inner, dinner, rfl, hdest, rfl⟩
      · exact distinctKeys_of_hashGet hd hdest
      · exact ih key inner hsource true (distinctKeys_of_hashGet hd hdest) (distinctKeys_of_hashGet hs hsource)

lemma clean_merge (recursive : Bool) {dest source : List (PLKey × PropList)}
    (hd : DistinctKeys caseSensitive (.dictionary dest)) (hs : DistinctKeys caseSensitive (.dictionary source))
    (hcd : Clean (.dictionary dest)) (hcs : Clean (.dictionary source)) :
    Clean (.dictionary (mergeEntries caseSensitive recursive dest source)) := by
  induction source using dictionary_induct caseSensitive generalizing dest recursive with
  | h source ih =>
    have hkd := (distinctKeys_dictionary.mp hd).1
    have hks := (distinctKeys_dictionary.mp hs).1
    obtain ⟨hdistinct, hget⟩ := mergeEntries_spec recursive hkd hks
    rw [clean_iff_hashGet hkd] at hcd
    rw [clean_iff_hashGet hks] at hcs
    rw [clean_iff_hashGet hdistinct]
    intro key value hfound
    rw [hget] at hfound
    cases hsource : hashGet caseSensitive source key with
    | none =>
      rw [hsource] at hfound
      exact hcd key value hfound
    | some svalue =>
      rw [hsource] at hfound
      obtain rfl := Option.some.inj hfound
      refine ⟨(hcs key svalue hsource).1, ?_⟩
      unfold mergeFound
      split
      · next dinner hdest =>
        exact ih key _ hsource true (distinctKeys_of_hashGet hd hdest) (distinctKeys_of_hashGet hs hsource)
          (hcd key _ hdest).2 (hcs key _ hsource).2
      · exact (hcs key _ hsource).2

lemma clean_subtract (recursive : Bool) {dest source : List (PLKey × PropList)}
    (hd : DistinctKeys caseSensitive (.dictionary dest)) (hs : DistinctKeys caseSensitive (.dictionary source))
    (hcd : Clean (.dictionary dest)) :
    Clean (.dictionary (subtractEntries caseSensitive recursive dest source)) := by
  induction source using dictionary_induct caseSensitive generalizing dest recursive with
  | h source ih =>
    have hkd := (distinctKeys_dictionary.mp hd).1
    obtain ⟨hdistinct, hget⟩ := subtractEntries_spec recursive hkd (distinctKeys_dictionary.mp hs).1
    rw [clean_iff_hashGet hkd] at hcd
    rw [clean_iff_hashGet hdistinct]
    intro key value hfound
    rw [hget] at hfound
    cases hsource : hashGet caseSensitive source key with
    | none =>
      rw [hsource] at hfound
      exact hcd key value hfound
    | some svalue =>
      rw [hsource] at hfound
      rcases subtractFound_cases hfound with hdest | ⟨inner, dinner, rfl, hdest, rfl⟩
      · exact hcd key value hdest
      · refine ⟨(hcd key _ hdest).1, ?_⟩
        exact ih key inner hsource true (distinctKeys_of_hashGet hd hdest) (distinctKeys_of_hashGet hs hsource)
          (hcd key _ hdest).2

lemma clean_of_merge (recursive : Bool) {dest source : List (PLKey × PropList)}
    (hd : DistinctKeys caseSensitive (.dictionary dest)) (hs : DistinctKeys caseSensitive (.dictionary source))
    (h : Clean (.dictionary (mergeEntries caseSensitive recursive dest source))) : Clean (.dictionary source) := by
  induction source using dictionary_induct caseSensitive generalizing dest recursive with
  | h source ih =>
    have hks := (distinctKeys_dictionary.mp hs).1
    obtain ⟨hdistinct, hget⟩ := mergeEntries_spec recursive (distinctKeys_dictionary.mp hd).1 hks
    rw [clean_iff_hashGet hdistinct] at h
    rw [clean_iff_hashGet hks]
    intro key value hsource
    have hfound := hget key
    rw [hsource] at hfound
    obtain ⟨hkey, hvalue⟩ := h key _ hfound
    refine ⟨hkey, ?_⟩
    unfold mergeFound at hvalue
    split at hvalue
    · next dinner hdest =>
      exact ih key _ hsource true (distinctKeys_of_hashGet hd hdest) (distinctKeys_of_hashGet hs hsource) hvalue
    · exact hvalue

/-! Merging. -/

section Merge

variable {g d w x : List (PLKey × PropList)}

lemma equal_of_hashGet (hd : DistinctKeys caseSensitive (.dictionary d)) (hx : DistinctKeys caseSensitive (.dictionary x))
    (h : ∀ key, Option.Rel (Equal caseSensitive) (hashGet caseSensitive d key) (hashGet caseSensitive x key)) :
    Equal caseSensitive (.dictionary d) (.dictionary x) :=
  (equal_dictionary_iff (distinctKeys_dictionary.mp hd).1 (distinctKeys_dictionary.mp hx).1).mpr h

lemma hashGet_of_equal (hd : DistinctKeys caseSensitive (.dictionary d)) (hx : DistinctKeys caseSensitive (.dictionary x))
    (h : Equal caseSensitive (.dictionary d) (.dictionary x)) :
    ∀ key, Option.Rel (Equal caseSensitive) (hashGet caseSensitive d key) (hashGet caseSensitive x key) :=
  (equal_dictionary_iff (distinctKeys_dictionary.mp hd).1 (distinctKeys_dictionary.mp hx).1).mp h

lemma rel_hashGet_refl (hd : DistinctKeys caseSensitive (.dictionary d)) (key : PLKey) :
    Option.Rel (Equal caseSensitive) (hashGet caseSensitive d key) (hashGet caseSensitive d key) :=
  hashGet_of_equal hd hd (Equal.refl hd) key

lemma equal_merge_of_equal (recursive : Bool) (hw : DistinctKeys caseSensitive (.dictionary w))
    (hx : DistinctKeys caseSensitive (.dictionary x)) (h : Equal caseSensitive (.dictionary w) (.dictionary x)) :
    Equal caseSensitive (.dictionary w) (.dictionary (mergeEntries caseSensitive recursive w x)) := by
  induction x using dictionary_induct caseSensitive generalizing w recursive with
  | h x ih =>
    obtain ⟨-, hget⟩ := mergeEntries_spec recursive (distinctKeys_dictionary.mp hw).1 (distinctKeys_dictionary.mp hx).1
    refine equal_of_hashGet hw (distinctKeys_merge recursive hw hx) fun key => ?_
    have hrel := hashGet_of_equal hw hx h key
    rw [hget]
    cases hsource : hashGet caseSensitive x key with
    | none => exact rel_hashGet_refl hw key
    | some value =>
      rw [hsource] at hrel
      cases hdest : hashGet caseSensitive w key with
      | none =>
        rw [hdest] at hrel
        cases hrel
      | some dvalue =>
        rw [hdest, Option.rel_some_some] at hrel
        refine .some ?_
        unfold mergeFound
        split
        · next heq =>
          obtain rfl := Option.some.inj heq
          exact ih key _ hsource true (distinctKeys_of_hashGet hw hdest) (distinctKeys_of_hashGet hx hsource) hrel
        · exact hrel

lemma dictionary_of_equal {a b : PropList} (h : Equal caseSensitive a b) :
    (∃ dict, a = .dictionary dict) ↔ ∃ dict, b = .dictionary dict := by
  constructor
  · rintro ⟨dict, rfl⟩
    cases b with
    | dictionary other => exact ⟨other, rfl⟩
    | _ => cases h
  · rintro ⟨dict, rfl⟩
    cases a with
    | dictionary other => exact ⟨other, rfl⟩
    | _ => cases h

lemma mergeFound_of_not {recursive : Bool} {value dvalue : PropList}
    (h : ¬(recursive = true ∧ (∃ dict, value = .dictionary dict) ∧ ∃ dict, dvalue = .dictionary dict)) :
    mergeFound caseSensitive recursive value (some dvalue) = value := by
  unfold mergeFound
  split
  · next heq => exact absurd ⟨rfl, ⟨_, rfl⟩, _, Option.some.inj heq⟩ h
  · rfl

lemma mergeFound_none {recursive : Bool} {value : PropList} :
    mergeFound caseSensitive recursive value none = value := by
  unfold mergeFound
  split
  · next heq => cases heq
  · rfl

lemma subtractFound_of_not {recursive : Bool} {value dvalue : PropList} (hne : ¬Equal caseSensitive value dvalue)
    (h : ¬(recursive = true ∧ (∃ dict, value = .dictionary dict) ∧ ∃ dict, dvalue = .dictionary dict)) :
    subtractFound caseSensitive recursive value (some dvalue) = some dvalue := by
  unfold subtractFound
  simp only [if_neg hne]
  split
  · exact absurd ⟨rfl, ⟨_, rfl⟩, _, rfl⟩ h
  · rfl

lemma subtractFound_dictionary {inner dinner : List (PLKey × PropList)}
    (hne : ¬Equal caseSensitive (.dictionary inner) (.dictionary dinner)) :
    subtractFound caseSensitive true (.dictionary inner) (some (.dictionary dinner)) =
      some (.dictionary (subtractEntries caseSensitive true dinner inner)) := by
  unfold subtractFound
  simp only [if_neg hne]

lemma subtractFound_equal {recursive : Bool} {value dvalue : PropList} (h : Equal caseSensitive value dvalue) :
    subtractFound caseSensitive recursive value (some dvalue) = none := by
  unfold subtractFound
  simp only [if_pos h]

lemma merge_subtract (recursive : Bool) (hw : DistinctKeys caseSensitive (.dictionary w))
    (hg : DistinctKeys caseSensitive (.dictionary g)) (hd : DistinctKeys caseSensitive (.dictionary d))
    (h : ∀ key, (hashGet caseSensitive d key).isSome = true →
      Option.Rel (Equal caseSensitive) (hashGet caseSensitive g key) (hashGet caseSensitive w key)) :
    Equal caseSensitive
      (.dictionary (mergeEntries caseSensitive recursive w (subtractEntries caseSensitive recursive d g)))
      (.dictionary (mergeEntries caseSensitive recursive w d)) := by
  induction d using dictionary_induct caseSensitive generalizing g w recursive with
  | h d ih =>
    have hs := distinctKeys_subtract recursive hd hg
    have hkw := (distinctKeys_dictionary.mp hw).1
    have hkd := (distinctKeys_dictionary.mp hd).1
    obtain ⟨-, hsubtract⟩ := subtractEntries_spec recursive hkd (distinctKeys_dictionary.mp hg).1
    obtain ⟨-, hleft⟩ := mergeEntries_spec recursive hkw (distinctKeys_dictionary.mp hs).1
    obtain ⟨-, hright⟩ := mergeEntries_spec recursive hkw hkd
    refine equal_of_hashGet (distinctKeys_merge recursive hw hs) (distinctKeys_merge recursive hw hd) fun key => ?_
    rw [hleft, hright, hsubtract]
    cases hdkey : hashGet caseSensitive d key with
    | none =>
      cases hgkey : hashGet caseSensitive g key with
      | none => exact rel_hashGet_refl hw key
      | some value => exact rel_hashGet_refl hw key
    | some x =>
      have hx := distinctKeys_of_hashGet hd hdkey
      have hrel := h key (by rw [hdkey]; rfl)
      cases hgkey : hashGet caseSensitive g key with
      | none =>
        rw [hgkey] at hrel
        rw [rel_none hrel]
        simp only [mergeFound_none]
        exact .some (Equal.refl hx)
      | some y =>
        rw [hgkey] at hrel
        obtain ⟨v, hwkey, hequal⟩ := rel_some hrel
        have hy := distinctKeys_of_hashGet hg hgkey
        have hv := distinctKeys_of_hashGet hw hwkey
        rw [hwkey]
        dsimp only
        by_cases hsame : Equal caseSensitive y x
        · -- The subtraction takes the entry out, and the destination's own value is equal to it.
          rw [subtractFound_equal hsame]
          have hvx := Equal.trans hv hy hx (Equal.symm hy hv hequal) hsame
          refine .some ?_
          by_cases hboth : recursive = true ∧ (∃ dict, x = .dictionary dict) ∧ ∃ dict, v = .dictionary dict
          · obtain ⟨rfl, ⟨inner, rfl⟩, dinner, rfl⟩ := hboth
            exact equal_merge_of_equal true hv hx hvx
          · rw [mergeFound_of_not hboth]
            exact hvx
        · by_cases hboth : recursive = true ∧ (∃ dict, y = .dictionary dict) ∧ ∃ dict, x = .dictionary dict
          · obtain ⟨rfl, hydict, inner, rfl⟩ := hboth
            obtain ⟨vinner, rfl⟩ := (dictionary_of_equal hequal).mp hydict
            obtain ⟨yinner, rfl⟩ := hydict
            rw [subtractFound_dictionary hsame]
            exact .some (ih key inner hdkey true hv hy hx fun other _ => hashGet_of_equal hy hv hequal other)
          · rw [subtractFound_of_not hsame hboth]
            have hmerge : ¬(recursive = true ∧ (∃ dict, x = .dictionary dict) ∧ ∃ dict, v = .dictionary dict) :=
              fun ⟨hr, hxdict, hvdict⟩ => hboth ⟨hr, (dictionary_of_equal hequal).mpr hvdict, hxdict⟩
            simp only [mergeFound_of_not hmerge]
            exact .some (Equal.refl hx)

end Merge

/-! Deep copies have no emptied data, and are equal to what has none either. -/

section Copies

lemma createDataWithData_eq {data : WMData} (h : data ≠ some []) : createDataWithData data = data := by
  cases data with
  | none => rfl
  | some bytes =>
    cases bytes with
    | nil => exact absurd rfl h
    | cons b bytes => rfl

lemma createDataWithData_ne (data : WMData) : createDataWithData data ≠ some [] := by
  rw [createDataWithData]
  split
  · next hlen =>
    rintro rfl
    exact absurd hlen (lt_irrefl 0)
  · exact fun h => by cases h

lemma deepCopyKey_eq {key : PLKey} (h : ¬Emptied key) : deepCopyKey key = key := by
  cases key with
  | string str => rfl
  | data data => exact congrArg PLKey.data (createDataWithData_eq h)

lemma deepCopyKey_emptied {key : PLKey} (h : Emptied key) : deepCopyKey key = .data none := by
  cases key with
  | string str => exact h.elim
  | data data =>
    have hd : data = some [] := h
    rw [hd]
    rfl

lemma not_emptied_deepCopyKey (key : PLKey) : ¬Emptied (deepCopyKey key) := by
  cases key with
  | string str => exact fun h => h
  | data data => exact createDataWithData_ne data

lemma deepCopyItems_eq (items : List PropList) :
    deepCopyItems caseSensitive items = items.map (deepCopyPropList caseSensitive) := by
  induction items with
  | nil => rw [deepCopyItems, List.map_nil]
  | cons item items ih => rw [deepCopyItems, ih, List.map_cons]

lemma deepCopyEntries_eq (ret entries : List (PLKey × PropList)) :
    deepCopyEntries caseSensitive ret entries =
      entries.foldl (fun ret e =>
        hashInsert caseSensitive (deepCopyKey e.1) (deepCopyPropList caseSensitive e.2) ret) ret := by
  induction entries generalizing ret with
  | nil => rw [deepCopyEntries, List.foldl_nil]
  | cons e entries ih => rw [deepCopyEntries, ih, List.foldl_cons]

lemma distinct_deepCopyEntries (entries : List (PLKey × PropList)) {ret : List (PLKey × PropList)}
    (h : Distinct caseSensitive (ret.map Prod.fst)) :
    Distinct caseSensitive ((deepCopyEntries caseSensitive ret entries).map Prod.fst) := by
  rw [deepCopyEntries_eq]
  induction entries generalizing ret with
  | nil => exact h
  | cons e entries ih => exact ih (distinct_hashInsert h)

lemma distinct_copy (entries : List (PLKey × PropList)) :
    Distinct caseSensitive ((deepCopyEntries caseSensitive [] entries).map Prod.fst) := by
  have h : Distinct caseSensitive (([] : List (PLKey × PropList)).map Prod.fst) := List.Pairwise.nil
  exact distinct_deepCopyEntries entries h

lemma mem_deepCopyEntries {ret entries : List (PLKey × PropList)} {e : PLKey × PropList}
    (h : e ∈ deepCopyEntries caseSensitive ret entries) :
    e ∈ ret ∨ ∃ f ∈ entries, e = (deepCopyKey f.1, deepCopyPropList caseSensitive f.2) := by
  rw [deepCopyEntries_eq] at h
  induction entries generalizing ret with
  | nil => exact .inl h
  | cons d entries ih =>
    rcases ih h with h | ⟨f, hf, rfl⟩
    · exact (mem_hashInsert h).imp id fun heq => ⟨d, List.mem_cons_self, heq⟩
    · exact .inr ⟨f, List.mem_cons_of_mem d hf, rfl⟩

lemma deepCopy_clean (plist : PropList) : Clean (deepCopyPropList caseSensitive plist) := by
  induction plist using PropList.induct with
  | string str =>
    rw [deepCopyPropList, Clean, Leaves]
    exact fun h => h
  | data data =>
    rw [deepCopyPropList, Clean, Leaves]
    exact createDataWithData_ne data
  | array items ih =>
    rw [deepCopyPropList, Clean, Leaves, itemsLeaves_iff, deepCopyItems_eq]
    intro item hitem
    obtain ⟨source, hsource, rfl⟩ := List.mem_map.mp hitem
    exact ih source hsource
  | dictionary entries ih =>
    rw [deepCopyPropList, clean_dictionary]
    intro e he
    rcases mem_deepCopyEntries he with he | ⟨f, hf, rfl⟩
    · exact absurd he List.not_mem_nil
    · exact ⟨not_emptied_deepCopyKey f.1, ih f hf⟩

lemma deepCopy_distinctKeys (plist : PropList) : DistinctKeys caseSensitive (deepCopyPropList caseSensitive plist) := by
  induction plist using PropList.induct with
  | string str =>
    rw [deepCopyPropList, DistinctKeys]
    trivial
  | data data =>
    rw [deepCopyPropList, DistinctKeys]
    trivial
  | array items ih =>
    rw [deepCopyPropList, DistinctKeys, itemsDistinct_iff, deepCopyItems_eq]
    intro item hitem
    obtain ⟨source, hsource, rfl⟩ := List.mem_map.mp hitem
    exact ih source hsource
  | dictionary entries ih =>
    rw [deepCopyPropList, distinctKeys_dictionary]
    refine ⟨distinct_copy entries, fun e he => ?_⟩
    rcases mem_deepCopyEntries he with he | ⟨f, hf, rfl⟩
    · exact absurd he List.not_mem_nil
    · exact ih f hf

lemma deepCopyEntries_clean {entries : List (PLKey × PropList)} (hkeys : ∀ e ∈ entries, ¬Emptied e.1)
    (hvalues : ∀ e ∈ entries, deepCopyPropList caseSensitive e.2 = e.2) {ret : List (PLKey × PropList)}
    (h : Distinct caseSensitive (ret.map Prod.fst ++ entries.map Prod.fst)) :
    deepCopyEntries caseSensitive ret entries = ret ++ entries := by
  induction entries generalizing ret with
  | nil => rw [deepCopyEntries, List.append_nil]
  | cons e entries ih =>
    rw [List.forall_mem_cons] at hkeys hvalues
    have hnew : ∀ d ∈ ret, equalKeys caseSensitive e.1 d.1 = false := fun d hd =>
      (List.pairwise_append.mp h).2.2 d.1 (List.mem_map_of_mem hd) e.1 (by simp)
    have hnext : Distinct caseSensitive ((ret ++ [e]).map Prod.fst ++ entries.map Prod.fst) := by simpa using h
    rw [deepCopyEntries, deepCopyKey_eq hkeys.1, hvalues.1, hashInsert_new hnew, ih hkeys.2 hvalues.2 hnext,
      List.append_assoc]
    rfl

lemma deepCopy_eq {plist : PropList} (h : DistinctKeys caseSensitive plist) (hc : Clean plist) :
    deepCopyPropList caseSensitive plist = plist := by
  induction plist using PropList.induct with
  | string str => rw [deepCopyPropList]
  | data data =>
    rw [Clean, Leaves] at hc
    rw [deepCopyPropList, createDataWithData_eq hc]
  | array items ih =>
    rw [DistinctKeys, itemsDistinct_iff] at h
    rw [Clean, Leaves, itemsLeaves_iff] at hc
    rw [deepCopyPropList, deepCopyItems_eq]
    congr 1
    exact (List.map_congr_left fun item hi => ih item hi (h item hi) (hc item hi)).trans (List.map_id _)
  | dictionary entries ih =>
    obtain ⟨hdistinct, hvalues⟩ := distinctKeys_dictionary.mp h
    rw [clean_dictionary] at hc
    rw [deepCopyPropList, deepCopyEntries_clean (fun e he => (hc e he).1)
      (fun e he => ih e he (hvalues e he) (hc e he).2) (by simpa using hdistinct), List.nil_append]

lemma equal_deepCopy_iff {plist : PropList} (h : DistinctKeys caseSensitive plist) :
    Equal caseSensitive plist (deepCopyPropList caseSensitive plist) ↔ Clean plist := by
  refine ⟨clean_of_equal (deepCopy_clean plist), fun hc => ?_⟩
  rw [deepCopy_eq h hc]
  exact Equal.refl h

lemma hashGet_deepCopyEntries (ret entries : List (PLKey × PropList)) (key : PLKey) :
    (∃ before e after, entries = before ++ e :: after ∧ equalKeys caseSensitive key (deepCopyKey e.1) = true ∧
      (∀ f ∈ after, equalKeys caseSensitive key (deepCopyKey f.1) = false) ∧
      hashGet caseSensitive (deepCopyEntries caseSensitive ret entries) key =
        some (deepCopyPropList caseSensitive e.2)) ∨
    (∀ e ∈ entries, equalKeys caseSensitive key (deepCopyKey e.1) = false) ∧
      hashGet caseSensitive (deepCopyEntries caseSensitive ret entries) key = hashGet caseSensitive ret key := by
  induction entries generalizing ret with
  | nil =>
    rw [deepCopyEntries]
    exact .inr ⟨fun _ h => absurd h List.not_mem_nil, rfl⟩
  | cons e entries ih =>
    rw [deepCopyEntries]
    rcases ih (hashInsert caseSensitive (deepCopyKey e.1) (deepCopyPropList caseSensitive e.2) ret) with
      ⟨before, f, after, rfl, hk, hafter, hget⟩ | ⟨hnone, hget⟩
    · exact .inl ⟨e :: before, f, after, rfl, hk, hafter, hget⟩
    rw [hget, hashGet_hashInsert]
    by_cases hk : equalKeys caseSensitive key (deepCopyKey e.1) = true
    · exact .inl ⟨[], e, entries, rfl, hk, hnone, if_pos hk⟩
    · refine .inr ⟨?_, if_neg hk⟩
      rw [List.forall_mem_cons]
      exact ⟨Bool.not_eq_true _ ▸ hk, hnone⟩

end Copies

/-! The laws. -/

section Laws

/-- Merging into a copy of `g` what is left of a copy of `d` without what `g` has, subtracting `g` from its copy,
and merging `g` into itself. -/
structure MergeLaws (caseSensitive recursive : Bool) (g d : PropList) : Prop where
  merge_rest : ∃ rest left right,
    subtractPropLists caseSensitive recursive false (deepCopyPropList caseSensitive d) g = some rest ∧
    mergePropLists caseSensitive recursive false (deepCopyPropList caseSensitive g) rest = some left ∧
    mergePropLists caseSensitive recursive false (deepCopyPropList caseSensitive g) d = some right ∧
    Equal caseSensitive left right
  subtract_copy : subtractPropLists caseSensitive recursive false (deepCopyPropList caseSensitive g) g =
    some (.dictionary [])
  merge_self : mergePropLists caseSensitive recursive true g g = some g

/-- An entry whose key is emptied data, beside one for data without a buffer that the copy keeps instead: one that
comes later, or whose value is equal to the copied one. -/
def Superseded (caseSensitive : Bool) (g : List (PLKey × PropList)) (e : PLKey × PropList) : Prop :=
  Emptied e.1 ∧ ∃ before f after, g = before ++ f :: after ∧ f.1 = .data none ∧
    (e ∈ before ∨ Equal caseSensitive f.2 (deepCopyPropList caseSensitive e.2))

def Copyable (caseSensitive : Bool) (g : List (PLKey × PropList)) : Prop :=
  ∀ e ∈ g, (¬Emptied e.1 ∧ Clean e.2) ∨ Superseded caseSensitive g e

variable {g d : List (PLKey × PropList)}

lemma equalKeys_data_none {key : PLKey} (h : equalKeys caseSensitive key (.data none) = true) : key = .data none := by
  cases key with
  | string str => cases h
  | data data =>
    rw [equalKeys, isDataEqualToData_iff] at h
    rw [h]

lemma emptied_eq {key : PLKey} (h : Emptied key) : key = .data (some []) := by
  cases key with
  | string str => exact h.elim
  | data data => exact congrArg PLKey.data h

lemma eq_of_distinct (h : Distinct caseSensitive (g.map Prod.fst)) {e f : PLKey × PropList} (he : e ∈ g) (hf : f ∈ g)
    (hk : equalKeys caseSensitive e.1 f.1 = true) : e = f := by
  obtain ⟨before, after, rfl⟩ := List.append_of_mem he
  rw [List.map_append, List.map_cons, Distinct, List.pairwise_append] at h
  obtain ⟨-, hafter, hbefore⟩ := h
  rcases List.mem_append.mp hf with hf | hf
  · have hne := hbefore f.1 (List.mem_map_of_mem hf) e.1 List.mem_cons_self
    rw [hk] at hne
    cases hne
  rcases List.mem_cons.mp hf with rfl | hf
  · rfl
  · have hne := (List.pairwise_cons.mp hafter).1 f.1 (List.mem_map_of_mem hf)
    rw [equalKeys_symm hk] at hne
    cases hne

lemma nodup_of_distinct (h : Distinct caseSensitive (g.map Prod.fst)) : g.Nodup := by
  refine List.Nodup.of_map Prod.fst (h.imp ?_)
  rintro a b hne rfl
  rw [equalKeys_refl] at hne
  cases hne

lemma not_before {before after before' after' : List (PLKey × PropList)} {e f : PLKey × PropList}
    (hn : (before ++ e :: after).Nodup) (heq : before ++ e :: after = before' ++ f :: after') (hf : f ∈ before) :
    e ∉ before' := by
  obtain ⟨p, q, rfl⟩ := List.append_of_mem hf
  rw [List.append_assoc, List.cons_append] at heq hn
  obtain ⟨-, hrest, hapart⟩ := List.nodup_append.mp hn
  have hp : f ∉ p := fun h => hapart f h f List.mem_cons_self rfl
  obtain ⟨rfl, -, -⟩ := (List.append_cons_inj_of_notMem hp (List.nodup_cons.mp hrest).1).mp heq
  exact fun he => hapart e he e (List.mem_cons_of_mem f (List.mem_append_right q List.mem_cons_self)) rfl

lemma rel_deepCopy (hg : DistinctKeys caseSensitive (.dictionary g)) (hc : Copyable caseSensitive g) {key : PLKey}
    (hk : ¬Emptied key) :
    Option.Rel (Equal caseSensitive) (hashGet caseSensitive g key)
      (hashGet caseSensitive (deepCopyEntries caseSensitive [] g) key) := by
  obtain ⟨hdistinct, hvalues⟩ := distinctKeys_dictionary.mp hg
  rcases hashGet_deepCopyEntries [] g key with ⟨before, e, after, heq, hmatch, hafter, hget⟩ | ⟨hnone, hget⟩
  · have hmem : e ∈ g := heq ▸ List.mem_append_right before List.mem_cons_self
    rw [hget]
    rcases hc e hmem with ⟨hkey, hvalue⟩ | ⟨hempty, before', f, after', heq', hf, hlater⟩
    · rw [deepCopyKey_eq hkey] at hmatch
      rw [isSome_of_mem hdistinct hmem hmatch]
      exact .some ((equal_deepCopy_iff (hvalues e hmem)).mpr hvalue)
    · rw [deepCopyKey_emptied hempty] at hmatch
      have hfmem : f ∈ g := heq' ▸ List.mem_append_right before' List.mem_cons_self
      have hfkey : equalKeys caseSensitive key (deepCopyKey f.1) = true := by
        rw [hf]
        exact hmatch
      rw [isSome_of_mem hdistinct hfmem (by rw [hf]; exact hmatch)]
      refine .some (hlater.resolve_left fun hbefore => ?_)
      -- The later of the two would have been the last.
      have hfbefore : f ∈ before := by
        rw [heq] at hfmem
        rcases List.mem_append.mp hfmem with h | h
        · exact h
        rcases List.mem_cons.mp h with rfl | h
        · rw [hf] at hempty
          cases hempty
        · rw [hafter f h] at hfkey
          cases hfkey
      have hn := nodup_of_distinct hdistinct
      rw [heq] at hn
      exact not_before hn (heq.symm.trans heq') hfbefore hbefore
  · rw [hget]
    have hnot : hashGet caseSensitive g key = none := by
      refine hashGet_eq_none fun e he => ?_
      cases hmatch : equalKeys caseSensitive key e.1 with
      | false => rfl
      | true =>
        have hkey : ¬Emptied e.1 := (emptied_of_equalKeys hmatch).not.mp hk
        have hne := hnone e he
        rw [deepCopyKey_eq hkey, hmatch] at hne
        cases hne
    rw [hnot]
    exact .none

lemma eq_nil_of_hashGet (caseSensitive : Bool) (h : ∀ key, hashGet caseSensitive g key = none) : g = [] := by
  cases g with
  | nil => rfl
  | cons e g =>
    have hget := h e.1
    rw [hashGet_cons, if_pos (equalKeys_refl e.1)] at hget
    cases hget

lemma deepCopyEntries_emptied {key : PLKey} (h : Emptied key) :
    hashGet caseSensitive (deepCopyEntries caseSensitive [] g) key = none := by
  refine hashGet_eq_none fun e he => ?_
  rcases mem_deepCopyEntries he with he | ⟨f, -, rfl⟩
  · exact absurd he List.not_mem_nil
  · cases hk : equalKeys caseSensitive key (deepCopyKey f.1) with
    | false => rfl
    | true => exact absurd ((emptied_of_equalKeys hk).mp h) (not_emptied_deepCopyKey f.1)

lemma subtract_copy (recursive : Bool) (hg : DistinctKeys caseSensitive (.dictionary g))
    (hc : Copyable caseSensitive g) :
    subtractEntries caseSensitive recursive (deepCopyEntries caseSensitive [] g) g = [] := by
  obtain ⟨-, hget⟩ := subtractEntries_spec recursive (distinct_copy g)
    (distinctKeys_dictionary.mp hg).1
  refine eq_nil_of_hashGet caseSensitive fun key => ?_
  rw [hget]
  by_cases hk : Emptied key
  · rw [deepCopyEntries_emptied hk]
    cases hashGet caseSensitive g key <;> rfl
  · have hrel := rel_deepCopy hg hc hk
    cases hgkey : hashGet caseSensitive g key with
    | none =>
      rw [hgkey] at hrel
      exact rel_none hrel
    | some value =>
      rw [hgkey] at hrel
      obtain ⟨copy, hcopy, hequal⟩ := rel_some hrel
      rw [hcopy]
      exact subtractFound_equal hequal

lemma rel_of_subtract_copy {recursive : Bool} (hg : DistinctKeys caseSensitive (.dictionary g))
    (h : subtractEntries caseSensitive recursive (deepCopyEntries caseSensitive [] g) g = []) {key : PLKey}
    {copy : PropList} (hcopy : hashGet caseSensitive (deepCopyEntries caseSensitive [] g) key = some copy) :
    ∃ value, hashGet caseSensitive g key = some value ∧ Equal caseSensitive value copy := by
  obtain ⟨-, hget⟩ := subtractEntries_spec recursive (distinct_copy g)
    (distinctKeys_dictionary.mp hg).1
  have hleft := hget key
  rw [h, hcopy] at hleft
  cases hgkey : hashGet caseSensitive g key with
  | none =>
    rw [hgkey] at hleft
    cases hleft
  | some value =>
    rw [hgkey] at hleft
    refine ⟨value, rfl, ?_⟩
    by_contra hne
    change none = subtractFound caseSensitive recursive value (some copy) at hleft
    unfold subtractFound at hleft
    dsimp only at hleft
    rw [if_neg hne] at hleft
    split at hleft
    · cases hleft
    · cases hleft

lemma copyable_of_subtract_copy {recursive : Bool} (hg : DistinctKeys caseSensitive (.dictionary g))
    (h : subtractEntries caseSensitive recursive (deepCopyEntries caseSensitive [] g) g = []) :
    Copyable caseSensitive g := by
  have hdistinct := (distinctKeys_dictionary.mp hg).1
  intro e he
  rcases hashGet_deepCopyEntries [] g (deepCopyKey e.1) with
    ⟨before, last, after, heq, hmatch, hafter, hget⟩ | ⟨hnone, -⟩
  · obtain ⟨value, hvalue, hequal⟩ := rel_of_subtract_copy hg h hget
    by_cases hkey : Emptied e.1
    · rw [deepCopyKey_emptied hkey] at hmatch hafter hvalue
      obtain ⟨f, hf, hfkey, rfl⟩ := mem_of_hashGet hvalue
      have hfkey := equalKeys_data_none (equalKeys_symm hfkey)
      have hlast : last ∈ g := heq ▸ List.mem_append_right before List.mem_cons_self
      by_cases hlastkey : Emptied last.1
      · -- Two entries for the same key are the same.
        obtain rfl : last = e := by
          refine eq_of_distinct hdistinct hlast he ?_
          rw [emptied_eq hlastkey, emptied_eq hkey]
          exact equalKeys_refl _
        obtain ⟨fbefore, fafter, hfeq⟩ := List.append_of_mem hf
        exact .inr ⟨hkey, fbefore, f, fafter, hfeq, hfkey, .inr hequal⟩
      · rw [deepCopyKey_eq hlastkey] at hmatch
        refine .inr ⟨hkey, before, last, after, heq, equalKeys_data_none (equalKeys_symm hmatch), .inl ?_⟩
        rw [heq] at he
        rcases List.mem_append.mp he with he | he
        · exact he
        rcases List.mem_cons.mp he with rfl | he
        · exact absurd hkey hlastkey
        · have hne := hafter e he
          rw [deepCopyKey_emptied hkey, equalKeys_refl] at hne
          cases hne
    · rw [deepCopyKey_eq hkey, hashGet_of_mem hdistinct he] at hvalue
      obtain rfl := Option.some.inj hvalue
      exact .inl ⟨hkey, clean_of_equal (deepCopy_clean _) hequal⟩
  · have hne := hnone e he
    rw [equalKeys_refl] at hne
    cases hne

lemma subtract_copies (recursive : Bool) :
    subtractPropLists caseSensitive recursive false (deepCopyPropList caseSensitive (.dictionary d)) (.dictionary g) =
      some (.dictionary (subtractEntries caseSensitive recursive (deepCopyEntries caseSensitive [] d) g)) := by
  rw [deepCopyPropList]
  rfl

lemma merge_copies (recursive : Bool) :
    mergePropLists caseSensitive recursive false (deepCopyPropList caseSensitive (.dictionary g)) (.dictionary d) =
      some (.dictionary (mergeEntries caseSensitive recursive (deepCopyEntries caseSensitive [] g) d)) := by
  rw [deepCopyPropList]
  rfl

lemma clean_copy (entries : List (PLKey × PropList)) :
    Clean (.dictionary (deepCopyEntries caseSensitive [] entries)) := by
  have h := @deepCopy_clean caseSensitive (.dictionary entries)
  rwa [deepCopyPropList] at h

lemma distinctKeys_copy (entries : List (PLKey × PropList)) :
    DistinctKeys caseSensitive (.dictionary (deepCopyEntries caseSensitive [] entries)) := by
  have h := @deepCopy_distinctKeys caseSensitive (.dictionary entries)
  rwa [deepCopyPropList] at h

lemma clean_of_merge_rest {recursive : Bool} (hg : DistinctKeys caseSensitive (.dictionary g))
    (hd : DistinctKeys caseSensitive (.dictionary d))
    (h : Equal caseSensitive
      (.dictionary (mergeEntries caseSensitive recursive (deepCopyEntries caseSensitive [] g)
        (subtractEntries caseSensitive recursive (deepCopyEntries caseSensitive [] d) g)))
      (.dictionary (mergeEntries caseSensitive recursive (deepCopyEntries caseSensitive [] g) d))) :
    Clean (.dictionary d) := by
  have hrest := distinctKeys_subtract recursive (distinctKeys_copy d) hg
  have hleft := clean_merge recursive (distinctKeys_copy g) hrest (clean_copy g)
    (clean_subtract recursive (distinctKeys_copy d) hg (clean_copy d))
  have hsymm := Equal.symm (distinctKeys_merge recursive (distinctKeys_copy g) hrest)
    (distinctKeys_merge recursive (distinctKeys_copy g) hd) h
  exact clean_of_merge recursive (distinctKeys_copy g) hd (clean_of_equal hleft hsymm)

lemma merge_rest (recursive : Bool) (hg : DistinctKeys caseSensitive (.dictionary g))
    (hd : DistinctKeys caseSensitive (.dictionary d)) (hcd : Clean (.dictionary d)) (hcg : Copyable caseSensitive g) :
    Equal caseSensitive
      (.dictionary (mergeEntries caseSensitive recursive (deepCopyEntries caseSensitive [] g)
        (subtractEntries caseSensitive recursive (deepCopyEntries caseSensitive [] d) g)))
      (.dictionary (mergeEntries caseSensitive recursive (deepCopyEntries caseSensitive [] g) d)) := by
  have hcopy : deepCopyEntries caseSensitive [] d = d := by
    have h := deepCopy_eq hd hcd
    rw [deepCopyPropList] at h
    exact PropList.dictionary.inj h
  rw [hcopy]
  refine merge_subtract recursive (distinctKeys_copy g) hg hd fun key hkey => rel_deepCopy hg hcg ?_
  obtain ⟨value, hvalue⟩ := Option.isSome_iff_exists.mp hkey
  exact ((clean_iff_hashGet (distinctKeys_dictionary.mp hd).1).mp hcd key value hvalue).1

theorem mergeLaws_iff (recursive : Bool) (hg : DistinctKeys caseSensitive (.dictionary g))
    (hd : DistinctKeys caseSensitive (.dictionary d)) :
    MergeLaws caseSensitive recursive (.dictionary g) (.dictionary d) ↔
      Clean (.dictionary d) ∧ Copyable caseSensitive g := by
  constructor
  · rintro ⟨⟨rest, left, right, hrest, hleft, hright, hequal⟩, hcopy, -⟩
    rw [subtract_copies] at hrest hcopy
    obtain rfl := Option.some.inj hrest
    rw [merge_copies] at hleft hright
    obtain rfl := Option.some.inj hleft
    obtain rfl := Option.some.inj hright
    exact ⟨clean_of_merge_rest hg hd hequal,
      copyable_of_subtract_copy hg (PropList.dictionary.inj (Option.some.inj hcopy))⟩
  · rintro ⟨hcd, hcg⟩
    refine ⟨⟨_, _, _, subtract_copies recursive, merge_copies recursive, merge_copies recursive,
      merge_rest recursive hg hd hcd hcg⟩, ?_, rfl⟩
    rw [subtract_copies, subtract_copy recursive hg hcg]

/-- Nested dictionaries, one of them on one side only. -/
theorem mergeLaws_iff_nested :
    MergeLaws true true
        (.dictionary [(.string [97], .dictionary [(.string [98], .string [49])]), (.string [99], .string [50])])
        (.dictionary [(.string [97], .dictionary [(.string [98], .string [51])]), (.string [99], .array [])]) ↔
      Clean (.dictionary [(.string [97], .dictionary [(.string [98], .string [51])]), (.string [99], .array [])]) ∧
        Copyable true [(.string [97], .dictionary [(.string [98], .string [49])]), (.string [99], .string [50])] := by
  apply mergeLaws_iff true
  · simp [DistinctKeys, EntriesDistinct, Distinct, equalKeys, equalStrings]
  · simp [DistinctKeys, ItemsDistinct, EntriesDistinct, Distinct, equalKeys, equalStrings]

/-- Data made with a capacity have a buffer and no bytes. Their copy has no buffer, and is not equal to them. -/
theorem emptied_not_subtracted :
    ¬∀ recursive g d, DistinctKeys true (.dictionary g) → DistinctKeys true (.dictionary d) →
      MergeLaws true recursive (.dictionary g) (.dictionary d) := by
  intro h
  have hlaws := h false [(.string [107], .data (some []))] [] (by simp [DistinctKeys, EntriesDistinct, Distinct])
    (by simp [DistinctKeys, EntriesDistinct, Distinct])
  have hcopy := hlaws.subtract_copy
  rw [subtract_copies] at hcopy
  revert hcopy
  simp [deepCopyEntries, deepCopyKey, deepCopyPropList, createDataWithData, hashInsert, subtractEntries, hashGet,
    equalKeys, equalStrings, isPropListEqualTo, isDataEqualToData]

end Laws

end Xperimentum.WMcore
