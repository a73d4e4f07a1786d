import Xperimentum.WMcore.PropListEquivalence

/-! Copying, merging and subtracting dictionaries, key by key. -/

namespace Xperimentum.WMcore

section Model

variable (caseSensitive : Bool)

/-- `WMHashInsert`: an entry with an equal key is replaced where it stands. -/
@[grind =] def hashInsert {V : Type} (key : PLKey) (value : V) : List (PLKey × V) → List (PLKey × V)
  | [] => [(key, value)]
  | e :: dict => if equalKeys caseSensitive key e.1 then (key, value) :: dict else e :: hashInsert key value dict

/-- The value object that `WMHashGet` finds, changed in place. -/
@[grind =] def changeValue {V : Type} (key : PLKey) (value : V) : List (PLKey × V) → List (PLKey × V)
  | [] => []
  | e :: dict => if equalKeys caseSensitive key e.1 then (e.1, value) :: dict else e :: changeValue key value dict

/-- Data of length 0 are copied as data without a buffer. -/
def createDataWithData (data : WMData) : WMData := if (data.getD []).length > 0 then data else none

def deepCopyKey : PLKey → PLKey
  | .string str => .string str
  | .data data => .data (createDataWithData data)

mutual
def deepCopyPropList : PropList → PropList
  | .string str => .string str
  | .data data => .data (createDataWithData data)
  | .array array => .array (deepCopyItems array)
  | .dictionary dict => .dictionary (deepCopyEntries [] dict)

@[grind =] def deepCopyItems : List PropList → List PropList
  | [] => []
  | item :: items => deepCopyPropList item :: deepCopyItems items

@[grind =] def deepCopyEntries : List (PLKey × PropList) → List (PLKey × PropList) → List (PLKey × PropList)
  | ret, [] => ret
  | ret, (key, item) :: entries =>
    deepCopyEntries (hashInsert caseSensitive (deepCopyKey key) (deepCopyPropList item) ret) entries
end

/-- The loop over the entries of the source. -/
def mergeEntries (recursive : Bool) : List (PLKey × PropList) → List (PLKey × PropList) → List (PLKey × PropList)
  | dest, [] => dest
  | dest, (key, value) :: entries =>
    mergeEntries recursive
      (match recursive, value, hashGet caseSensitive dest key with
        | true, .dictionary source, some (.dictionary dvalue) =>
          changeValue caseSensitive key (.dictionary (mergeEntries true dvalue source)) dest
        | _, value, _ => putInPLDictionary caseSensitive dest key value)
      entries
  termination_by _ source => sizeOf source

@[grind =] def subtractEntries (recursive : Bool) : List (PLKey × PropList) → List (PLKey × PropList) → List (PLKey × PropList)
  | dest, [] => dest
  | dest, (key, value) :: entries =>
    subtractEntries recursive
      (match hashGet caseSensitive dest key with
        | none => dest
        | some dvalue =>
          if isPropListEqualTo caseSensitive value dvalue then removeFromPLDictionary caseSensitive dest key
          else
            match recursive, value, dvalue with
            | true, .dictionary source, .dictionary dvalue =>
              changeValue caseSensitive key (.dictionary (subtractEntries true dvalue source)) dest
            | _, _, _ => dest)
      entries
  termination_by _ source => sizeOf source

/-- `same` says that the source is the destination object itself; NULL where one of the two is no dictionary. -/
def mergePropLists (recursive same : Bool) : PropList → PropList → Option PropList
  | .dictionary dest, .dictionary source =>
    if same then some (.dictionary dest) else some (.dictionary (mergeEntries caseSensitive recursive dest source))
  | _, _ => none

def subtractPropLists (recursive same : Bool) : PropList → PropList → Option PropList
  | .dictionary dest, .dictionary source =>
    if same then
      some (.dictionary ((dest.map Prod.fst).foldl (removeFromPLDictionary caseSensitive) dest))
    else some (.dictionary (subtractEntries caseSensitive recursive dest source))
  | _, _ => none

end Model

variable {caseSensitive : Bool}

/-! Keys stay distinct. -/

section Change

variable {V : Type} {dict : List (PLKey × V)} {key : PLKey} {value : V}

lemma keys_changeValue : (changeValue caseSensitive key value dict).map Prod.fst = dict.map Prod.fst := by
  induction dict with
  | nil => rfl
  | cons e dict ih =>
    rw [changeValue]
    split
    · rfl
    · rw [List.map_cons, ih, List.map_cons]

lemma hashGet_changeValue (h : (hashGet caseSensitive dict key).isSome = true) (other : PLKey) :
    hashGet caseSensitive (changeValue caseSensitive key value dict) other =
      if equalKeys caseSensitive other key = true then some value else hashGet caseSensitive dict other := by
  induction dict with
  | nil => cases h
  | cons e dict ih =>
    rw [changeValue]
    rw [hashGet_cons] at h
    split
    · next hk =>
      rw [hashGet_cons, hashGet_cons]
      by_cases ho : equalKeys caseSensitive other key = true
      · rw [if_pos ho, if_pos (equalKeys_trans ho hk)]
      · rw [if_neg ho, if_neg fun hoe => ho (equalKeys_trans hoe (equalKeys_symm hk)),
          if_neg fun hoe => ho (equalKeys_trans hoe (equalKeys_symm hk))]
    · next hk =>
      rw [if_neg hk] at h
      rw [hashGet_cons, hashGet_cons, ih h]
      by_cases ho : equalKeys caseSensitive other e.1 = true
      · rw [if_pos ho, if_pos ho, if_neg fun hok => hk (equalKeys_trans (equalKeys_symm hok) ho)]
      · rw [if_neg ho, if_neg ho]

lemma mem_hashInsert {e : PLKey × V} (h : e ∈ hashInsert caseSensitive key value dict) : e ∈ dict ∨ e = (key, value) := by
  induction dict with
  | nil => exact .inr (List.mem_singleton.mp h)
  | cons d dict ih =>
    rw [hashInsert] at h
    split at h
    · rcases List.mem_cons.mp h with rfl | h
      · exact .inr rfl
      · exact .inl (List.mem_cons_of_mem d h)
    · rcases List.mem_cons.mp h with rfl | h
      · exact .inl List.mem_cons_self
      · exact (ih h).imp (List.mem_cons_of_mem d) id

lemma distinct_hashInsert (h : Distinct caseSensitive (dict.map Prod.fst)) :
    Distinct caseSensitive ((hashInsert caseSensitive key value dict).map Prod.fst) := by
  induction dict with
  | nil => exact List.pairwise_singleton _ _
  | cons d dict ih =>
    obtain ⟨hd, hdict⟩ := List.pairwise_cons.mp h
    rw [hashInsert]
    split
    · next hk =>
      refine List.pairwise_cons.mpr ⟨fun other hother => ?_, hdict⟩
      cases ho : equalKeys caseSensitive other key with
      | false => rfl
      | true =>
        have hne := hd other hother
        rw [equalKeys_trans ho hk] at hne
        cases hne
    · next hk =>
      refine List.pairwise_cons.mpr ⟨fun other hother => ?_, ih hdict⟩
      obtain ⟨e, he, rfl⟩ := List.mem_map.mp hother
      rcases mem_hashInsert he with he | rfl
      · exact hd e.1 (List.mem_map_of_mem he)
      · exact Bool.not_eq_true _ ▸ hk

lemma hashGet_hashInsert (other : PLKey) :
    hashGet caseSensitive (hashInsert caseSensitive key value dict) other =
      if equalKeys caseSensitive other key = true then some value else hashGet caseSensitive dict other := by
  induction dict with
  | nil =>
    rw [hashInsert, hashGet_cons]
  | cons d dict ih =>
    rw [hashInsert]
    split
    · next hk =>
      rw [hashGet_cons, hashGet_cons]
      by_cases ho : equalKeys caseSensitive other key = true
      · rw [if_pos ho, if_pos ho]
      · rw [if_neg ho, if_neg ho, if_neg fun hoe => ho (equalKeys_trans hoe (equalKeys_symm hk))]
    · next hk =>
      rw [hashGet_cons, hashGet_cons, ih]
      by_cases ho : equalKeys caseSensitive other d.1 = true
      · rw [if_pos ho, if_pos ho, if_neg fun hok => hk (equalKeys_trans (equalKeys_symm hok) ho)]
      · rw [if_neg ho, if_neg ho]

lemma hashInsert_new (h : ∀ e ∈ dict, equalKeys caseSensitive key e.1 = false) :
    hashInsert caseSensitive key value dict = dict ++ [(key, value)] := by
  induction dict with
  | nil => rfl
  | cons d dict ih =>
    have hd := h d List.mem_cons_self
    rw [hashInsert, if_neg (by rw [hd]; exact Bool.false_ne_true), ih fun e he => h e (List.mem_cons_of_mem d he)]
    rfl

end Change

/-! What a loop over the entries of a source does to each key. -/

section Loops

variable {f : List (PLKey × PropList) → PLKey × PropList → List (PLKey × PropList)}
  {found : PropList → Option PropList → Option PropList}

/-- A step changes the value of its key only. -/
structure Updates (caseSensitive : Bool) (f : List (PLKey × PropList) → PLKey × PropList → List (PLKey × PropList))
    (found : PropList → Option PropList → Option PropList) : Prop where
  distinct : ∀ dest e, Distinct caseSensitive (dest.map Prod.fst) → Distinct caseSensitive ((f dest e).map Prod.fst)
  hashGet : ∀ dest e key, Distinct caseSensitive (dest.map Prod.fst) →
    hashGet caseSensitive (f dest e) key =
      if equalKeys caseSensitive key e.1 = true then found e.2 (hashGet caseSensitive dest e.1)
      else hashGet caseSensitive dest key

lemma Updates.foldl (h : Updates caseSensitive f found) {source : List (PLKey × PropList)}
    (hs : Distinct caseSensitive (source.map Prod.fst)) {dest : List (PLKey × PropList)}
    (hd : Distinct caseSensitive (dest.map Prod.fst)) :
    Distinct caseSensitive ((source.foldl f dest).map Prod.fst) ∧
      ∀ key, WMcore.hashGet caseSensitive (source.foldl f dest) key =
        match WMcore.hashGet caseSensitive source key with
        | none => WMcore.hashGet caseSensitive dest key
        | some value => found value (WMcore.hashGet caseSensitive dest key) := by
  induction source generalizing dest with
  | nil => exact ⟨hd, fun _ => rfl⟩
  | cons e source ih =>
    obtain ⟨he, hsource⟩ := List.pairwise_cons.mp hs
    obtain ⟨hdistinct, hget⟩ := ih hsource (h.distinct dest e hd)
    refine ⟨hdistinct, fun key => ?_⟩
    rw [List.foldl_cons, hget key, hashGet_cons, h.hashGet dest e key hd]
    by_cases hk : equalKeys caseSensitive key e.1 = true
    · have hnone : WMcore.hashGet caseSensitive source key = none := by
        refine hashGet_eq_none fun d hm => ?_
        rw [equalKeys_congr hk]
        have hne := he d.1 (List.mem_map_of_mem hm)
        cases hkd : equalKeys caseSensitive e.1 d.1 with
        | false => rfl
        | true =>
          rw [equalKeys_symm hkd] at hne
          cases hne
      rw [hnone, if_pos hk, if_pos hk, hashGet_congr hk]
    · rw [if_neg hk, if_neg hk]

end Loops

/-! Merging. -/

section Merging

def mergeFound (caseSensitive recursive : Bool) (value : PropList) (dvalue : Option PropList) : PropList :=
  match recursive, value, dvalue with
  | true, .dictionary source, some (.dictionary dvalue) => .dictionary (mergeEntries caseSensitive true dvalue source)
  | _, value, _ => value

def mergeEntry (caseSensitive recursive : Bool) (dest : List (PLKey × PropList)) (e : PLKey × PropList) :
    List (PLKey × PropList) :=
  match recursive, e.2, hashGet caseSensitive dest e.1 with
  | true, .dictionary source, some (.dictionary dvalue) =>
    changeValue caseSensitive e.1 (.dictionary (mergeEntries caseSensitive true dvalue source)) dest
  | _, value, _ => putInPLDictionary caseSensitive dest e.1 value

lemma mergeEntries_eq (recursive : Bool) (dest source : List (PLKey × PropList)) :
    mergeEntries caseSensitive recursive dest source = source.foldl (mergeEntry caseSensitive recursive) dest := by
  induction source generalizing dest with
  | nil => rw [mergeEntries, List.foldl_nil]
  | cons e source ih =>
    obtain ⟨key, value⟩ := e
    rw [List.foldl_cons, ← ih, mergeEntries.eq_def]
    rfl

lemma mergeEntry_updates (recursive : Bool) :
    Updates caseSensitive (mergeEntry caseSensitive recursive)
      fun value dvalue => some (mergeFound caseSensitive recursive value dvalue) where
  distinct dest e h := by
    unfold mergeEntry
    split
    · rw [keys_changeValue]
      exact h
    · exact distinct_put h _ _
  hashGet dest e key h := by
    unfold mergeEntry mergeFound
    split
    · next hvalue hget =>
      rw [hashGet_changeValue (by rw [hget]; rfl)]
    · exact hashGet_put h _ _ _

lemma mergeEntries_spec (recursive : Bool) {dest source : List (PLKey × PropList)}
    (hd : Distinct caseSensitive (dest.map Prod.fst)) (hs : Distinct caseSensitive (source.map Prod.fst)) :
    Distinct caseSensitive ((mergeEntries caseSensitive recursive dest source).map Prod.fst) ∧
      ∀ key, hashGet caseSensitive (mergeEntries caseSensitive recursive dest source) key =
        match hashGet caseSensitive source key with
        | none => hashGet caseSensitive dest key
        | some value => some (mergeFound caseSensitive recursive value (hashGet caseSensitive dest key)) := by
  rw [mergeEntries_eq]
  exact (mergeEntry_updates recursive).foldl hs hd

end Merging

/-! Subtracting. -/

section Subtracting

def subtractFound (caseSensitive recursive : Bool) (value : PropList) : Option PropList → Option PropList
  | none => none
  | some dvalue =>
    if isPropListEqualTo caseSensitive value dvalue then none
    else
      match recursive, value, dvalue with
      | true, .dictionary source, .dictionary dvalue =>
        some (.dictionary (subtractEntries caseSensitive true dvalue source))
      | _, _, dvalue => some dvalue

def subtractEntry (caseSensitive recursive : Bool) (dest : List (PLKey × PropList)) (e : PLKey × PropList) :
    List (PLKey × PropList) :=
  match hashGet caseSensitive dest e.1 with
  | none => dest
  | some dvalue =>
    if isPropListEqualTo caseSensitive e.2 dvalue then removeFromPLDictionary caseSensitive dest e.1
    else
      match recursive, e.2, dvalue with
      | true, .dictionary source, .dictionary dvalue =>
        changeValue caseSensitive e.1 (.dictionary (subtractEntries caseSensitive true dvalue source)) dest
      | _, _, _ => dest

lemma subtractEntries_eq (recursive : Bool) (dest source : List (PLKey × PropList)) :
    subtractEntries caseSensitive recursive dest source = source.foldl (subtractEntry caseSensitive recursive) dest := by
  induction source generalizing dest with
  | nil => rw [subtractEntries, List.foldl_nil]
  | cons e source ih =>
    obtain ⟨key, value⟩ := e
    rw [List.foldl_cons, ← ih, subtractEntries.eq_def]
    rfl

lemma subtractEntry_updates (recursive : Bool) :
    Updates caseSensitive (subtractEntry caseSensitive recursive) (subtractFound caseSensitive recursive) where
  distinct dest e h := by
    unfold subtractEntry
    split
    · exact h
    split
    · exact distinct_remove h _
    split
    · rw [keys_changeValue]
      exact h
    · exact h
  hashGet dest e key h := by
    have hsame (hk : equalKeys caseSensitive key e.1 = true) :
        hashGet caseSensitive dest key = hashGet caseSensitive dest e.1 := hashGet_congr hk
    unfold subtractEntry subtractFound
    split
    · next hnone =>
      split
      · next hk => rw [hsame hk, hnone]
      · rfl
    next dvalue hget =>
    split
    · exact hashGet_remove h _ _
    split
    · exact hashGet_changeValue (by rw [hget]; rfl) key
    · split
      · next hk => rw [hsame hk, hget]
      · rfl

lemma subtractEntries_spec (recursive : Bool) {dest source : List (PLKey × PropList)}
    (hd : Distinct caseSensitive (dest.map Prod.fst)) (hs : Distinct caseSensitive (source.map Prod.fst)) :
    Distinct caseSensitive ((subtractEntries caseSensitive recursive dest source).map Prod.fst) ∧
      ∀ key, hashGet caseSensitive (subtractEntries caseSensitive recursive dest source) key =
        match hashGet caseSensitive source key with
        | none => hashGet caseSensitive dest key
        | some value => subtractFound caseSensitive recursive value (hashGet caseSensitive dest key) := by
  rw [subtractEntries_eq]
  exact (subtractEntry_updates recursive).foldl hs hd

end Subtracting

end Xperimentum.WMcore
