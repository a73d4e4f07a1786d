import Xperimentum.WMcore.PropListRoundTrip

/-! Equality of property lists, and which of them are equal to what is read of their text. -/

namespace Xperimentum.WMcore

variable {caseSensitive : Bool}

lemma equalStrings_refl (str : Text) : equalStrings caseSensitive str str = true := by simp [equalStrings]

lemma equalKeys_refl (key : PLKey) : equalKeys caseSensitive key key = true := by
  cases key with
  | string str => exact equalStrings_refl str
  | data data => cases data <;> simp [equalKeys, isDataEqualToData]

lemma hashGet_eq_none {V : Type} {dict : List (PLKey × V)} {key : PLKey}
    (h : ∀ e ∈ dict, equalKeys caseSensitive key e.1 = false) : hashGet caseSensitive dict key = none := by
  rw [hashGet, List.find?_eq_none.mpr fun e he => by simp [h e he]]
  rfl

def Distinct (caseSensitive : Bool) (keys : List PLKey) : Prop :=
  keys.Pairwise fun a b => equalKeys caseSensitive b a = false

lemma hashGet_of_mem {V : Type} {dict : List (PLKey × V)} {e : PLKey × V}
    (h : Distinct caseSensitive (dict.map Prod.fst)) (he : e ∈ dict) :
    hashGet caseSensitive dict e.1 = some e.2 := by
  induction dict with
  | nil => exact absurd he List.not_mem_nil
  | cons d dict ih =>
    obtain ⟨hd, hdict⟩ := List.pairwise_cons.mp h
    rw [hashGet, List.find?_cons]
    rcases List.mem_cons.mp he with rfl | he
    · rw [equalKeys_refl]
      rfl
    · rw [hd e.1 (List.mem_map_of_mem he)]
      exact ih hdict he

lemma putInPLDictionary_new {V : Type} {dict : List (PLKey × V)} {key : PLKey}
    (h : ∀ e ∈ dict, equalKeys caseSensitive key e.1 = false) (value : V) :
    putInPLDictionary caseSensitive dict key value = dict ++ [(key, value)] := by
  rw [putInPLDictionary, removeFromPLDictionary, List.eraseP_of_forall_not fun e he => by simp [h e he]]

mutual
/-- No dictionary has two keys that are equal. -/
def DistinctKeys (caseSensitive : Bool) : PropList → Prop
  | .string _ => True
  | .data _ => True
  | .array array => ItemsDistinct caseSensitive array
  | .dictionary dict =>
    Distinct caseSensitive (dict.map Prod.fst) ∧ EntriesDistinct caseSensitive dict

def ItemsDistinct (caseSensitive : Bool) : List PropList → Prop
  | [] => True
  | item :: items => DistinctKeys caseSensitive item ∧ ItemsDistinct caseSensitive items

def EntriesDistinct (caseSensitive : Bool) : List (PLKey × PropList) → Prop
  | [] => True
  | (_, val) :: entries => DistinctKeys caseSensitive val ∧ EntriesDistinct caseSensitive entries
end

mutual
lemma isPropListEqualTo_refl : ∀ plist, DistinctKeys caseSensitive plist →
    isPropListEqualTo caseSensitive plist plist = true
  | .string str, _ => by
    rw [isPropListEqualTo]
    exact equalStrings_refl str
  | .data data, _ => by
    rw [isPropListEqualTo]
    cases data <;> simp [isDataEqualToData]
  | .array array, h => by
    rw [isPropListEqualTo]
    rw [DistinctKeys] at h
    exact equalItems_refl array h
  | .dictionary dict, h => by
    rw [DistinctKeys] at h
    rw [isPropListEqualTo, equalEntries_of_hashGet dict dict (fun e he => hashGet_of_mem h.1 he) h.2]
    simp

lemma equalItems_refl : ∀ items, ItemsDistinct caseSensitive items → equalItems caseSensitive items items = true
  | [], _ => by rw [equalItems]
  | item :: items, h => by
    rw [ItemsDistinct] at h
    rw [equalItems, isPropListEqualTo_refl item h.1, equalItems_refl items h.2]
    rfl

lemma equalEntries_of_hashGet : ∀ entries other, (∀ e ∈ entries, hashGet caseSensitive other e.1 = some e.2) →
    EntriesDistinct caseSensitive entries → equalEntries caseSensitive entries other = true
  | [], _, _, _ => by rw [equalEntries]
  | (key, val) :: entries, other, hget, h => by
    rw [EntriesDistinct] at h
    have hrest := equalEntries_of_hashGet entries other (fun e he => hget e (List.mem_cons_of_mem _ he)) h.2
    rw [equalEntries, hget (key, val) (by simp), hrest]
    simp [isPropListEqualTo_refl val h.1]
end

/-! Data that have bytes, or have no allocation either, are read as they were. -/

lemma createPLData_eq {data : WMData} (h : data ≠ some []) : createPLData (data.getD []) = data := by
  cases data with
  | none => rfl
  | some bytes =>
    have hb : bytes ≠ [] := fun hb => h (hb ▸ rfl)
    exact if_neg hb

lemma rereadKey_eq {key : PLKey} (h : ¬Emptied key) : rereadKey key = key := by
  cases key with
  | string str => rfl
  | data data => exact congrArg PLKey.data (createPLData_eq h)

lemma rereadEntries_eq {entries : List (PLKey × PropList)} (hkeys : ∀ e ∈ entries, ¬Emptied e.1)
    (dict : List (PLKey × PropList))
    (h : Distinct caseSensitive (dict.map Prod.fst ++ entries.map Prod.fst)) :
    rereadEntries caseSensitive dict entries = dict ++ entries.map fun e => (e.1, reread caseSensitive e.2) := by
  induction entries generalizing dict with
  | nil => simp [rereadEntries]
  | cons e entries ih =>
    obtain ⟨key, val⟩ := e
    have hnew : ∀ e ∈ dict, equalKeys caseSensitive key e.1 = false := fun e he =>
      (List.pairwise_append.mp h).2.2 e.1 (List.mem_map_of_mem he) key (by simp)
    have hnext : Distinct caseSensitive ((dict ++ [(key, reread caseSensitive val)]).map Prod.fst ++
        entries.map Prod.fst) := by simpa using h
    rw [rereadEntries, rereadKey_eq (hkeys (key, val) (by simp)), putInPLDictionary_new hnew,
      ih (fun e he => hkeys e (List.mem_cons_of_mem _ he)) _ hnext]
    simp

lemma keys_of_entriesLeaves {P : PLKey → Prop} {entries : List (PLKey × PropList)} (h : EntriesLeaves P entries) :
    ∀ e ∈ entries, P e.1 ∧ Leaves P e.2 := by
  induction entries with
  | nil => exact fun e he => absurd he List.not_mem_nil
  | cons e entries ih =>
    rw [EntriesLeaves] at h
    intro e' he
    rcases List.mem_cons.mp he with rfl | he
    · exact ⟨h.1, h.2.1⟩
    · exact ih h.2.2 e' he

mutual
lemma reread_eq : ∀ plist, DistinctKeys caseSensitive plist → Leaves (¬Emptied ·) plist →
    reread caseSensitive plist = plist
  | .string str, _, _ => by rw [reread]
  | .data data, _, he => by
    rw [Leaves] at he
    rw [reread, createPLData_eq he]
  | .array array, h, he => by
    rw [DistinctKeys] at h
    rw [Leaves] at he
    rw [reread, rereadItems_eq array h he]
  | .dictionary dict, h, he => by
    rw [DistinctKeys] at h
    rw [Leaves] at he
    rw [reread, rereadEntries_eq (fun e hd => (keys_of_entriesLeaves he e hd).1) [] (by simpa using h.1),
      List.nil_append, mapReread_eq dict h.2 he]

lemma rereadItems_eq : ∀ items, ItemsDistinct caseSensitive items → ItemsLeaves (¬Emptied ·) items →
    rereadItems caseSensitive items = items
  | [], _, _ => by rw [rereadItems]
  | item :: items, h, he => by
    rw [ItemsDistinct] at h
    rw [ItemsLeaves] at he
    rw [rereadItems, reread_eq item h.1 he.1, rereadItems_eq items h.2 he.2]

lemma mapReread_eq : ∀ entries, EntriesDistinct caseSensitive entries → EntriesLeaves (¬Emptied ·) entries →
    entries.map (fun e => (e.1, reread caseSensitive e.2)) = entries
  | [], _, _ => rfl
  | (key, val) :: entries, h, he => by
    rw [EntriesDistinct] at h
    rw [EntriesLeaves] at he
    rw [List.map_cons, reread_eq val h.1 he.2.1, mapReread_eq entries h.2 he.2.2]
end

/-! Data without bytes that have an allocation are read as data that have none. -/

lemma equalKeys_rereadKey {key : PLKey} (h : Emptied key) (other : PLKey) :
    equalKeys caseSensitive key (rereadKey other) = false := by
  cases key with
  | string str => exact h.elim
  | data data =>
    have hd : data = some [] := h
    subst hd
    cases other with
    | string str => rfl
    | data other =>
      cases other with
      | none => rfl
      | some bytes => cases bytes <;> simp [rereadKey, createPLData, equalKeys, isDataEqualToData]

lemma mem_rereadEntries {entries dict : List (PLKey × PropList)} {e : PLKey × PropList}
    (h : e ∈ rereadEntries caseSensitive dict entries) : e ∈ dict ∨ ∃ key, e.1 = rereadKey key := by
  induction entries generalizing dict with
  | nil =>
    rw [rereadEntries] at h
    exact .inl h
  | cons d entries ih =>
    obtain ⟨key, val⟩ := d
    rw [rereadEntries] at h
    rcases ih h with h | h
    · rcases List.mem_append.mp h with h | h
      · exact .inl (List.mem_of_mem_eraseP h)
      · exact .inr ⟨key, by rw [List.mem_singleton.mp h]⟩
    · exact .inr h

lemma equalEntries_emptied {entries other : List (PLKey × PropList)} {e : PLKey × PropList} (he : e ∈ entries)
    (hget : hashGet caseSensitive other e.1 = none) : equalEntries caseSensitive entries other = false := by
  induction entries with
  | nil => exact absurd he List.not_mem_nil
  | cons d entries ih =>
    obtain ⟨key, val⟩ := d
    rw [equalEntries]
    rcases List.mem_cons.mp he with rfl | he
    · rw [hget]
      rfl
    · rw [ih he, Bool.and_false]

mutual
lemma not_isPropListEqualTo_reread : ∀ plist, DistinctKeys caseSensitive plist → ¬Leaves (¬Emptied ·) plist →
    isPropListEqualTo caseSensitive plist (reread caseSensitive plist) = false
  | .string str, _, he => by
    rw [Leaves] at he
    exact (he fun h => h).elim
  | .data data, _, he => by
    rw [Leaves, not_not] at he
    have hd : data = some [] := he
    subst hd
    rw [reread, isPropListEqualTo]
    rfl
  | .array array, h, he => by
    rw [DistinctKeys] at h
    rw [Leaves] at he
    rw [reread, isPropListEqualTo]
    exact not_equalItems_reread array h he
  | .dictionary dict, h, he => by
    rw [DistinctKeys] at h
    rw [Leaves] at he
    rw [reread, isPropListEqualTo]
    by_cases hkeys : ∀ e ∈ dict, ¬Emptied e.1
    · have hread := rereadEntries_eq hkeys [] (by simpa using h.1)
      rw [List.nil_append] at hread
      have hmap : (dict.map fun e => (e.1, reread caseSensitive e.2)).map Prod.fst = dict.map Prod.fst := by simp
      rw [hread, not_equalEntries_reread dict _ (fun e hd => ?_) hkeys h.2 he, Bool.and_false]
      exact hashGet_of_mem (e := (e.1, reread caseSensitive e.2)) (hmap ▸ h.1) (List.mem_map_of_mem hd)
    · push Not at hkeys
      obtain ⟨e, hd, hempty⟩ := hkeys
      have hget : hashGet caseSensitive (rereadEntries caseSensitive [] dict) e.1 = none := by
        refine hashGet_eq_none fun d hm => ?_
        obtain ⟨key, hkey⟩ := (mem_rereadEntries hm).resolve_left List.not_mem_nil
        rw [hkey]
        exact equalKeys_rereadKey hempty key
      rw [equalEntries_emptied hd hget, Bool.and_false]

lemma not_equalItems_reread : ∀ items, ItemsDistinct caseSensitive items → ¬ItemsLeaves (¬Emptied ·) items →
    equalItems caseSensitive items (rereadItems caseSensitive items) = false
  | [], _, he => by
    rw [ItemsLeaves] at he
    exact (he trivial).elim
  | item :: items, h, he => by
    rw [ItemsDistinct] at h
    rw [ItemsLeaves] at he
    rw [rereadItems, equalItems]
    by_cases hitem : Leaves (¬Emptied ·) item
    · rw [not_equalItems_reread items h.2 fun hi => he ⟨hitem, hi⟩, Bool.and_false]
    · rw [not_isPropListEqualTo_reread item h.1 hitem, Bool.false_and]

lemma not_equalEntries_reread : ∀ entries other,
    (∀ e ∈ entries, hashGet caseSensitive other e.1 = some (reread caseSensitive e.2)) →
    (∀ e ∈ entries, ¬Emptied e.1) → EntriesDistinct caseSensitive entries → ¬EntriesLeaves (¬Emptied ·) entries →
    equalEntries caseSensitive entries other = false
  | [], _, _, _, _, he => by
    rw [EntriesLeaves] at he
    exact (he trivial).elim
  | (key, val) :: entries, other, hget, hkeys, h, he => by
    rw [EntriesDistinct] at h
    rw [EntriesLeaves] at he
    rw [equalEntries, hget (key, val) (by simp)]
    by_cases hval : Leaves (¬Emptied ·) val
    · rw [not_equalEntries_reread entries other (fun e hm => hget e (List.mem_cons_of_mem _ hm))
        (fun e hm => hkeys e (List.mem_cons_of_mem _ hm)) h.2 fun hr => he ⟨hkeys (key, val) (by simp), hval, hr⟩,
        Bool.and_false]
    · simp [not_isPropListEqualTo_reread val h.1 hval]
end

lemma isPropListEqualTo_reread_iff {plist : PropList} (h : DistinctKeys caseSensitive plist) :
    isPropListEqualTo caseSensitive plist (reread caseSensitive plist) = true ↔ Leaves (¬Emptied ·) plist := by
  refine ⟨fun he => ?_, fun he => ?_⟩
  · by_contra hn
    rw [not_isPropListEqualTo_reread plist h hn] at he
    cases he
  · rw [reread_eq plist h he]
    exact isPropListEqualTo_refl plist h

end Xperimentum.WMcore
