import Xperimentum.WMcore.PropListDictionary

/-! Equality of property lists is an equivalence: dictionaries are equal when their lookups are. -/

namespace Xperimentum.WMcore

@[elab_as_elim]
lemma PropList.induct {P : PropList → Prop} (string : ∀ str, P (.string str)) (data : ∀ data, P (.data data))
    (array : ∀ items, (∀ item ∈ items, P item) → P (.array items))
    (dictionary : ∀ entries : List (PLKey × PropList), (∀ e ∈ entries, P e.2) → P (.dictionary entries))
    (plist : PropList) : P plist := by
  refine @PropList.rec P (fun items => ∀ item ∈ items, P item) (fun entries => ∀ e ∈ entries, P e.2)
    (fun e => P e.2) string data array dictionary ?_ ?_ ?_ ?_ (fun _ _ h => h) plist
  · exact fun _ h => absurd h List.not_mem_nil
  · rintro item items hitem hitems other hother
    rcases List.mem_cons.mp hother with rfl | hother
    · exact hitem
    · exact hitems other hother
  · exact fun _ h => absurd h List.not_mem_nil
  · rintro e entries he hentries other hother
    rcases List.mem_cons.mp hother with rfl | hother
    · exact he
    · exact hentries other hother

variable {caseSensitive : Bool}

/-! Keys of two dictionaries. -/

section Keys

variable {V W : Type} {a : List (PLKey × V)} {b : List (PLKey × W)}

lemma isSome_of_mem (h : Distinct caseSensitive (a.map Prod.fst)) {e : PLKey × V} (he : e ∈ a) {key : PLKey}
    (hk : equalKeys caseSensitive key e.1 = true) : hashGet caseSensitive a key = some e.2 := by
  rw [hashGet_congr hk, hashGet_of_mem h he]

lemma length_remove {key : PLKey} (h : (hashGet caseSensitive b key).isSome = true) :
    (removeFromPLDictionary caseSensitive b key).length + 1 = b.length := by
  obtain ⟨found, hf⟩ := Option.isSome_iff_exists.mp h
  obtain ⟨e, he, hk, -⟩ := mem_of_hashGet hf
  have hlen := List.length_eraseP_of_mem (p := fun entry : PLKey × W => equalKeys caseSensitive key entry.1) he hk
  have hpos := List.length_pos_of_mem he
  rw [removeFromPLDictionary, hlen]
  omega

lemma hashGet_remove_of_distinct (hb : Distinct caseSensitive (b.map Prod.fst)) {e : PLKey × V}
    (h : Distinct caseSensitive ((e :: a).map Prod.fst)) {f : PLKey × V} (hf : f ∈ a) :
    hashGet caseSensitive (removeFromPLDictionary caseSensitive b e.1) f.1 = hashGet caseSensitive b f.1 := by
  have hne := (List.pairwise_cons.mp h).1 f.1 (List.mem_map_of_mem hf)
  rw [hashGet_remove hb, hne]
  rfl

lemma length_le_of_isSome (ha : Distinct caseSensitive (a.map Prod.fst)) (hb : Distinct caseSensitive (b.map Prod.fst))
    (h : ∀ e ∈ a, (hashGet caseSensitive b e.1).isSome = true) : a.length ≤ b.length := by
  induction a generalizing b with
  | nil => exact Nat.zero_le _
  | cons e a ih =>
    have hle := ih (List.pairwise_cons.mp ha).2 (distinct_remove hb e.1) fun f hf => by
      rw [hashGet_remove_of_distinct hb ha hf]
      exact h f (List.mem_cons_of_mem e hf)
    rw [List.length_cons, ← length_remove (h e List.mem_cons_self)]
    exact Nat.succ_le_succ hle

lemma isSome_of_length (ha : Distinct caseSensitive (a.map Prod.fst)) (hb : Distinct caseSensitive (b.map Prod.fst))
    (hlen : a.length = b.length) (h : ∀ e ∈ a, (hashGet caseSensitive b e.1).isSome = true) {key : PLKey}
    (hkey : (hashGet caseSensitive b key).isSome = true) : (hashGet caseSensitive a key).isSome = true := by
  induction a generalizing b with
  | nil =>
    obtain rfl := List.length_eq_zero_iff.mp hlen.symm
    exact hkey
  | cons e a ih =>
    have hremoved := length_remove (h e List.mem_cons_self)
    rw [hashGet_cons]
    split
    · rfl
    · next hne =>
      refine ih (List.pairwise_cons.mp ha).2 (distinct_remove hb e.1) ?_ (fun f hf => ?_) ?_
      · rw [List.length_cons] at hlen
        omega
      · rw [hashGet_remove_of_distinct hb ha hf]
        exact h f (List.mem_cons_of_mem e hf)
      · rw [hashGet_remove hb, if_neg hne]
        exact hkey

end Keys

/-! Arrays and dictionaries. -/

lemma rel_some {V : Type} {r : V → V → Prop} {x : V} {o : Option V} (h : Option.Rel r (some x) o) :
    ∃ y, o = some y ∧ r x y := by
  cases o with
  | none => cases h
  | some y => exact ⟨y, rfl, Option.rel_some_some.mp h⟩

lemma rel_none {V : Type} {r : V → V → Prop} {o : Option V} (h : Option.Rel r none o) : o = none := by
  cases o with
  | none => rfl
  | some y => cases h

abbrev Equal (caseSensitive : Bool) (a b : PropList) : Prop := isPropListEqualTo caseSensitive a b = true

lemma equalItems_iff {a b : List PropList} :
    equalItems caseSensitive a b = true ↔ List.Forall₂ (Equal caseSensitive) a b := by
  induction a generalizing b with
  | nil => cases b <;> simp [equalItems]
  | cons item items ih => cases b <;> simp [equalItems, ih]

lemma equalEntries_iff {a b : List (PLKey × PropList)} :
    equalEntries caseSensitive a b = true ↔
      ∀ e ∈ a, ∃ found, hashGet caseSensitive b e.1 = some found ∧ Equal caseSensitive e.2 found := by
  induction a with
  | nil => simp [equalEntries]
  | cons e a ih =>
    obtain ⟨key, value⟩ := e
    rw [equalEntries, Bool.and_eq_true, ih, List.forall_mem_cons]
    refine and_congr_left fun _ => ?_
    cases hashGet caseSensitive b key <;> simp

lemma itemsDistinct_iff {items : List PropList} :
    ItemsDistinct caseSensitive items ↔ ∀ item ∈ items, DistinctKeys caseSensitive item := by
  induction items with
  | nil => simp [ItemsDistinct]
  | cons item items ih => simp [ItemsDistinct, ih]

lemma distinctKeys_dictionary {dict : List (PLKey × PropList)} :
    DistinctKeys caseSensitive (.dictionary dict) ↔
      Distinct caseSensitive (dict.map Prod.fst) ∧ ∀ e ∈ dict, DistinctKeys caseSensitive e.2 := by
  rw [DistinctKeys, entriesDistinct_iff]

lemma distinctKeys_of_hashGet {dict : List (PLKey × PropList)} (h : DistinctKeys caseSensitive (.dictionary dict))
    {key : PLKey} {value : PropList} (hget : hashGet caseSensitive dict key = some value) :
    DistinctKeys caseSensitive value := by
  obtain ⟨e, he, -, rfl⟩ := mem_of_hashGet hget
  exact (distinctKeys_dictionary.mp h).2 e he

lemma equal_dictionary_iff {a b : List (PLKey × PropList)} (ha : Distinct caseSensitive (a.map Prod.fst))
    (hb : Distinct caseSensitive (b.map Prod.fst)) :
    Equal caseSensitive (.dictionary a) (.dictionary b) ↔
      ∀ key, Option.Rel (Equal caseSensitive) (hashGet caseSensitive a key) (hashGet caseSensitive b key) := by
  rw [Equal, isPropListEqualTo, Bool.and_eq_true, decide_eq_true_eq, equalEntries_iff]
  constructor
  · rintro ⟨hlen, hentries⟩ key
    have hin : ∀ e ∈ a, (hashGet caseSensitive b e.1).isSome = true := by
      intro e he
      obtain ⟨found, hfound, -⟩ := hentries e he
      rw [hfound]
      rfl
    cases hkey : hashGet caseSensitive a key with
    | some value =>
      obtain ⟨e, he, hk, rfl⟩ := mem_of_hashGet hkey
      obtain ⟨found, hfound, hequal⟩ := hentries e he
      rw [hashGet_congr hk, hfound]
      exact .some hequal
    | none =>
      cases hother : hashGet caseSensitive b key with
      | none => exact .none
      | some value =>
        have hfound : (hashGet caseSensitive b key).isSome = true := by
          rw [hother]
          rfl
        have hsome := isSome_of_length ha hb hlen hin hfound
        rw [hkey] at hsome
        cases hsome
  · intro h
    have hentries : ∀ e ∈ a, ∃ found, hashGet caseSensitive b e.1 = some found ∧ Equal caseSensitive e.2 found := by
      intro e he
      have hrel := h e.1
      rw [hashGet_of_mem ha he] at hrel
      exact rel_some hrel
    refine ⟨le_antisymm ?_ ?_, hentries⟩
    · refine length_le_of_isSome ha hb fun e he => ?_
      obtain ⟨found, hfound, -⟩ := hentries e he
      rw [hfound]
      rfl
    · refine length_le_of_isSome hb ha fun e he => ?_
      have hrel := h e.1
      rw [hashGet_of_mem hb he] at hrel
      cases hkey : hashGet caseSensitive a e.1 with
      | some value => rfl
      | none =>
        rw [hkey] at hrel
        cases hrel

/-! The equivalence. -/

lemma isDataEqualToData_iff (data other : WMData) : isDataEqualToData data other = true ↔ data = other := by
  cases data <;> cases other <;> simp [isDataEqualToData]

lemma equalStrings_symm {str other : Text} (h : equalStrings caseSensitive str other = true) :
    equalStrings caseSensitive other str = true := by
  cases caseSensitive <;> simpa [equalStrings, eq_comm] using h

lemma equalStrings_trans {str other third : Text} (h : equalStrings caseSensitive str other = true)
    (h' : equalStrings caseSensitive other third = true) : equalStrings caseSensitive str third = true := by
  cases caseSensitive <;> simp_all [equalStrings]

lemma Equal.refl {a : PropList} (h : DistinctKeys caseSensitive a) : Equal caseSensitive a a :=
  isPropListEqualTo_refl a h

lemma Equal.symm {a b : PropList} (ha : DistinctKeys caseSensitive a) (hb : DistinctKeys caseSensitive b)
    (h : Equal caseSensitive a b) : Equal caseSensitive b a := by
  induction a using PropList.induct generalizing b with
  | string str =>
    cases b with
    | string other => exact equalStrings_symm h
    | _ => cases h
  | data data =>
    cases b with
    | data other =>
      rw [Equal, isPropListEqualTo, isDataEqualToData_iff] at h ⊢
      exact h.symm
    | _ => cases h
  | array items ih =>
    cases b with
    | array others =>
      rw [DistinctKeys, itemsDistinct_iff] at ha hb
      rw [Equal, isPropListEqualTo, equalItems_iff] at h ⊢
      induction h with
      | nil => exact .nil
      | @cons item other items others hequal hrest ihrest =>
        rw [List.forall_mem_cons] at ha hb ih
        exact .cons (ih.1 ha.1 hb.1 hequal) (ihrest ih.2 ha.2 hb.2)
    | _ => cases h
  | dictionary entries ih =>
    cases b with
    | dictionary others =>
      have hda := (distinctKeys_dictionary.mp ha).1
      have hdb := (distinctKeys_dictionary.mp hb).1
      rw [equal_dictionary_iff hda hdb] at h
      rw [equal_dictionary_iff hdb hda]
      intro key
      have hrel := h key
      cases hkey : hashGet caseSensitive entries key with
      | none =>
        rw [hkey] at hrel
        rw [rel_none hrel]
        exact .none
      | some value =>
        rw [hkey] at hrel
        obtain ⟨other, hother, hequal⟩ := rel_some hrel
        obtain ⟨e, he, -, rfl⟩ := mem_of_hashGet hkey
        rw [hother]
        exact .some (ih e he (distinctKeys_of_hashGet ha hkey) (distinctKeys_of_hashGet hb hother) hequal)
    | _ => cases h

lemma Equal.trans {a b c : PropList} (ha : DistinctKeys caseSensitive a) (hb : DistinctKeys caseSensitive b)
    (hc : DistinctKeys caseSensitive c) (h : Equal caseSensitive a b) (h' : Equal caseSensitive b c) :
    Equal caseSensitive a c := by
  induction a using PropList.induct generalizing b c with
  | string str =>
    cases b with
    | string other =>
      cases c with
      | string third => exact equalStrings_trans h h'
      | _ => cases h'
    | _ => cases h
  | data data =>
    cases b with
    | data other =>
      cases c with
      | data third =>
        rw [Equal, isPropListEqualTo, isDataEqualToData_iff] at h h' ⊢
        exact h.trans h'
      | _ => cases h'
    | _ => cases h
  | array items ih =>
    cases b with
    | array others =>
      cases c with
      | array thirds =>
        rw [DistinctKeys, itemsDistinct_iff] at ha hb hc
        rw [Equal, isPropListEqualTo, equalItems_iff] at h h' ⊢
        induction h generalizing thirds with
        | nil =>
          cases h'
          exact .nil
        | @cons item other items others hequal hrest ihrest =>
          cases h' with
          | cons hequal' hrest' =>
            rw [List.forall_mem_cons] at ha hb hc ih
            exact .cons (ih.1 ha.1 hb.1 hc.1 hequal hequal') (ihrest ih.2 ha.2 hb.2 _ hc.2 hrest')
      | _ => cases h'
    | _ => cases h
  | dictionary entries ih =>
    cases b with
    | dictionary others =>
      cases c with
      | dictionary thirds =>
        have hda := (distinctKeys_dictionary.mp ha).1
        have hdb := (distinctKeys_dictionary.mp hb).1
        have hdc := (distinctKeys_dictionary.mp hc).1
        rw [equal_dictionary_iff hda hdb] at h
        rw [equal_dictionary_iff hdb hdc] at h'
        rw [equal_dictionary_iff hda hdc]
        intro key
        have hrel := h key
        have hrel' := h' key
        cases hkey : hashGet caseSensitive entries key with
        | none =>
          rw [hkey] at hrel
          rw [rel_none hrel] at hrel'
          rw [rel_none hrel']
          exact .none
        | some value =>
          rw [hkey] at hrel
          obtain ⟨other, hother, hequal⟩ := rel_some hrel
          rw [hother] at hrel'
          obtain ⟨third, hthird, hequal'⟩ := rel_some hrel'
          obtain ⟨e, he, -, rfl⟩ := mem_of_hashGet hkey
          rw [hthird]
          exact .some (ih e he (distinctKeys_of_hashGet ha hkey) (distinctKeys_of_hashGet hb hother)
            (distinctKeys_of_hashGet hc hthird) hequal hequal')
      | _ => cases h'
    | _ => cases h

/-! Emptied data are equal to nothing but emptied data. -/

abbrev Clean (plist : PropList) : Prop := Leaves (¬Emptied ·) plist

lemma itemsLeaves_iff {P : PLKey → Prop} {items : List PropList} :
    ItemsLeaves P items ↔ ∀ item ∈ items, Leaves P item := by
  induction items with
  | nil => simp [ItemsLeaves]
  | cons item items ih => simp [ItemsLeaves, ih]

lemma clean_dictionary {dict : List (PLKey × PropList)} :
    Clean (.dictionary dict) ↔ ∀ e ∈ dict, ¬Emptied e.1 ∧ Clean e.2 := by
  rw [Clean, Leaves, entriesLeaves_iff]

lemma emptied_of_equalKeys {a b : PLKey} (h : equalKeys caseSensitive a b = true) : Emptied a ↔ Emptied b := by
  cases a with
  | string str =>
    cases b with
    | string other => rfl
    | data data => cases h
  | data data =>
    cases b with
    | string other => cases h
    | data other =>
      rw [equalKeys, isDataEqualToData_iff] at h
      rw [h]

lemma clean_of_equal {a b : PropList} (hb : Clean b) (h : Equal caseSensitive a b) : Clean a := by
  induction a using PropList.induct generalizing b with
  | string str =>
    rw [Clean, Leaves]
    exact fun hs => hs
  | data data =>
    cases b with
    | data other =>
      rw [Equal, isPropListEqualTo, isDataEqualToData_iff] at h
      rwa [h]
    | _ => cases h
  | array items ih =>
    cases b with
    | array others =>
      rw [Equal, isPropListEqualTo, equalItems_iff] at h
      rw [Clean, Leaves, itemsLeaves_iff] at hb ⊢
      induction h with
      | nil => exact fun _ h => absurd h List.not_mem_nil
      | @cons item other items others hequal hrest ihrest =>
        rw [List.forall_mem_cons] at hb ih ⊢
        exact ⟨ih.1 hb.1 hequal, ihrest ih.2 hb.2⟩
    | _ => cases h
  | dictionary entries ih =>
    cases b with
    | dictionary others =>
      rw [Equal, isPropListEqualTo, Bool.and_eq_true, equalEntries_iff] at h
      rw [clean_dictionary] at hb ⊢
      intro e he
      obtain ⟨found, hfound, hequal⟩ := h.2 e he
      obtain ⟨f, hf, hk, rfl⟩ := mem_of_hashGet hfound
      exact ⟨(emptied_of_equalKeys hk).not.mpr (hb f hf).1, ih e he (hb f hf).2 hequal⟩
    | _ => cases h

end Xperimentum.WMcore
