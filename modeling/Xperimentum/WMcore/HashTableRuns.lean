import Xperimentum.WMcore.HashTableMap

/-! Runs of the hash table: what is got, counted and enumerated after any sequence of operations. -/

namespace Xperimentum.WMcore.HashTables

open HashTable

variable {K D : Type} {callbacks : WMHashTableCallbacks K} {address : K → UInt64}

/-! Enumeration goes through the entries in the order of the buckets. -/

namespace HashTable

def entriesFrom (t : HashTable K D) (index : ℕ) : List (HashItem K D) := ((List.finRange t.size).drop index).flatMap t.table

def remaining (t : HashTable K D) (e : HashEnumerator K D) : List (HashItem K D) := e.nextItem ++ t.entriesFrom (e.index + 1)

variable (t : HashTable K D)

lemma entriesFrom_of_lt {index : ℕ} (h : index < t.size) :
    t.entriesFrom index = t.table ⟨index, h⟩ ++ t.entriesFrom (index + 1) := by
  have hlen : index < (List.finRange t.size).length := by simpa using h
  rw [entriesFrom, List.drop_eq_getElem_cons hlen, List.flatMap_cons, List.getElem_finRange, entriesFrom]
  rfl

lemma entriesFrom_of_le {index : ℕ} (h : t.size ≤ index) : t.entriesFrom index = [] := by
  rw [entriesFrom, List.drop_eq_nil_of_le (by simpa using h)]
  rfl

lemma remaining_enumerateHashTable : t.remaining t.enumerateHashTable = t.entries :=
  (t.entriesFrom_of_lt t.size_pos).symm

lemma skipEmpty_spec (index : ℕ) :
    t.remaining (t.skipEmpty index) = t.entriesFrom index ∧
      ((t.skipEmpty index).nextItem = [] → t.entriesFrom index = []) := by
  induction index using skipEmpty.induct t with
  | case1 index hlt hne =>
    rw [skipEmpty, dif_pos hlt, if_pos hne, t.entriesFrom_of_lt hlt]
    exact ⟨rfl, fun h => absurd h hne⟩
  | case2 index hlt hempty ih =>
    rw [skipEmpty, dif_pos hlt, if_neg hempty, t.entriesFrom_of_lt hlt]
    rw [ne_eq, not_not] at hempty
    rw [hempty, List.nil_append]
    exact ih
  | case3 index hge =>
    have hle := Nat.le_of_not_lt hge
    rw [skipEmpty, dif_neg hge, t.entriesFrom_of_le hle]
    exact ⟨t.entriesFrom_of_le (Nat.le_succ_of_le hle), fun _ => rfl⟩

lemma advance_spec (e : HashEnumerator K D) :
    t.remaining (t.advance e) = t.remaining e ∧ ((t.advance e).nextItem = [] → t.remaining e = []) := by
  rw [advance]
  split
  · next hnil =>
    have hrest : t.remaining e = t.entriesFrom (e.index + 1) := by rw [remaining, hnil, List.nil_append]
    rw [hrest]
    exact t.skipEmpty_spec (e.index + 1)
  · next hne => exact ⟨rfl, fun h => absurd h hne⟩

lemma nextHashItem_spec (e : HashEnumerator K D) :
    (t.nextHashItem e).1 = (t.remaining e).head? ∧ t.remaining (t.nextHashItem e).2 = (t.remaining e).tail := by
  obtain ⟨hremaining, hend⟩ := t.advance_spec e
  rw [nextHashItem]
  split
  · next hnil =>
    have hrest := hend hnil
    rw [hremaining, hrest]
    exact ⟨rfl, rfl⟩
  · next item chain hcons =>
    rw [← hremaining, remaining, hcons]
    exact ⟨rfl, rfl⟩

/-- What so many calls in succession return. -/
def calls {R : Type} (next : HashEnumerator K D → R × HashEnumerator K D) : ℕ → HashEnumerator K D → List R
  | 0, _ => []
  | n + 1, e => (next e).1 :: calls next n (next e).2

lemma calls_next {R : Type} (next : HashEnumerator K D → R × HashEnumerator K D) {f : Option (HashItem K D) → R}
    (hresult : ∀ e, (next e).1 = f (t.nextHashItem e).1) (hnext : ∀ e, (next e).2 = (t.nextHashItem e).2)
    (n : ℕ) (e : HashEnumerator K D) :
    calls next ((t.remaining e).length + n) e = (t.remaining e).map (f ∘ some) ++ List.replicate n (f none) := by
  induction hr : t.remaining e generalizing e n with
  | nil =>
    rw [List.length_nil, Nat.zero_add, List.map_nil, List.nil_append]
    induction n generalizing e with
    | zero => rfl
    | succ n ih =>
      obtain ⟨hhead, htail⟩ := t.nextHashItem_spec e
      rw [hr] at hhead htail
      rw [calls, hresult, hhead, hnext, ih _ htail]
      rfl
  | cons item rest ih =>
    obtain ⟨hhead, htail⟩ := t.nextHashItem_spec e
    rw [hr] at hhead htail
    rw [List.length_cons, Nat.succ_add, calls, hresult, hhead, hnext, ih n _ htail]
    rfl

end HashTable

/-! Values. -/

section Values

variable [DecidableEq K] (ha : Agree callbacks address) {t : HashTable K D}

include ha

lemma valueIn_insert (h : WellFormed callbacks address t) (key : K) (data : Option D) (other : K) :
    valueIn callbacks (t.hashInsert callbacks address key data).1.entries other =
      if keyIsEqual callbacks other key then some data else valueIn callbacks t.entries other := by
  obtain ⟨hnew, hcases⟩ := hashInsert_cases ha h key data
  have hdup : keyIsEqual callbacks other (DUPKEY callbacks key) = keyIsEqual callbacks other key := by
    rw [keyIsEqual_comm ha other, keyIsEqual_comm ha other, keyIsEqual_congr ha (ha.retain key)]
  rcases hcases with ⟨item, rest, hk, hold, hentries, -⟩ | ⟨-, hentries, -⟩
  · rw [valueIn_perm ha hentries hnew.distinct, valueIn_perm ha hold h.distinct, valueIn_cons, valueIn_cons, hdup]
    split
    · rfl
    · next hne =>
      rw [if_neg]
      intro hitem
      exact hne (ha.trans _ _ _ hitem (ha.symm _ _ hk))
  · rw [valueIn_perm ha hentries hnew.distinct, valueIn_cons, hdup]

lemma hashInsert_old (h : WellFormed callbacks address t) (key : K) (data : Option D) :
    (t.hashInsert callbacks address key data).2 = (valueIn callbacks t.entries key).join := by
  obtain ⟨-, ⟨item, rest, hk, hold, -, hdata⟩ | ⟨hnone, -, hdata⟩⟩ := hashInsert_cases ha h key data
  · rw [hdata, valueIn_perm ha hold h.distinct, valueIn_cons, if_pos hk]
    rfl
  · rw [hdata, valueIn_eq_none ha (ha.refl key) hnone]
    rfl

lemma valueIn_remove (h : WellFormed callbacks address t) (key other : K) :
    valueIn callbacks (t.hashRemove callbacks address key).entries other =
      if keyIsEqual callbacks other key then none else valueIn callbacks t.entries other := by
  obtain ⟨hnew, hcases⟩ := hashRemove_cases ha h key
  rcases hcases with ⟨item, rest, hk, hold, hentries⟩ | ⟨hnone, hentries⟩
  · have hitem := (List.pairwise_cons.mp ((distinct_perm ha hold).mp h.distinct)).1
    rw [valueIn_perm ha hentries hnew.distinct, valueIn_perm ha hold h.distinct, valueIn_cons]
    split
    · next ho => exact valueIn_eq_none ha (ha.trans _ _ _ ho hk) hitem
    · next ho =>
      rw [if_neg]
      intro hi
      exact ho (ha.trans _ _ _ hi (ha.symm _ _ hk))
  · rw [valueIn_perm ha hentries hnew.distinct]
    split
    · next ho => exact valueIn_eq_none ha ho hnone
    · rfl

end Values

/-! Runs. -/

inductive Operation (K D : Type)
  | insert (key : K) (data : Option D)
  | remove (key : K)
  | get (key : K)
  | reset
  | enumerate

section Runs

variable [DecidableEq K]

def step (callbacks : WMHashTableCallbacks K) (address : K → UInt64) (t : HashTable K D) :
    Operation K D → HashTable K D
  | .insert key data => (t.hashInsert callbacks address key data).1
  | .remove key => t.hashRemove callbacks address key
  | .get _ => t
  | .reset => t.resetHashTable
  | .enumerate => t

def run (callbacks : WMHashTableCallbacks K) (address : K → UInt64) (ops : List (Operation K D)) : HashTable K D :=
  ops.foldl (step callbacks address) createHashTable

def valueAfter (callbacks : WMHashTableCallbacks K) (key : K) (value : Option (Option D)) :
    Operation K D → Option (Option D)
  | .insert other data => if keyIsEqual callbacks key other then some data else value
  | .remove other => if keyIsEqual callbacks key other then none else value
  | .reset => none
  | _ => value

/-- The data last inserted for a key, `none` where it was removed since or never inserted. -/
def lastValue (callbacks : WMHashTableCallbacks K) (ops : List (Operation K D)) (key : K) : Option (Option D) :=
  ops.foldl (valueAfter callbacks key) none

lemma step_wellFormed (ha : Agree callbacks address) {t : HashTable K D} (h : WellFormed callbacks address t)
    (op : Operation K D) : WellFormed callbacks address (step callbacks address t op) := by
  cases op with
  | insert key data => exact (hashInsert_cases ha h key data).1
  | remove key => exact (hashRemove_cases ha h key).1
  | get key => exact h
  | reset => exact resetHashTable_wellFormed t
  | enumerate => exact h

lemma step_value (ha : Agree callbacks address) {t : HashTable K D} (h : WellFormed callbacks address t)
    (op : Operation K D) (key : K) :
    valueIn callbacks (step callbacks address t op).entries key =
      valueAfter callbacks key (valueIn callbacks t.entries key) op := by
  cases op with
  | insert other data => exact valueIn_insert ha h other data key
  | remove other => exact valueIn_remove ha h other key
  | get other => rfl
  | reset =>
    rw [step, resetHashTable_entries]
    rfl
  | enumerate => rfl

lemma foldl_step (ha : Agree callbacks address) (ops : List (Operation K D)) {t : HashTable K D}
    (h : WellFormed callbacks address t) :
    WellFormed callbacks address (ops.foldl (step callbacks address) t) ∧
      ∀ key, valueIn callbacks (ops.foldl (step callbacks address) t).entries key =
        ops.foldl (valueAfter callbacks key) (valueIn callbacks t.entries key) := by
  induction ops generalizing t with
  | nil => exact ⟨h, fun _ => rfl⟩
  | cons op ops ih =>
    obtain ⟨hwell, hvalue⟩ := ih (step_wellFormed ha h op)
    refine ⟨hwell, fun key => ?_⟩
    rw [List.foldl_cons, List.foldl_cons, hvalue key, step_value ha h]

lemma run_spec (ha : Agree callbacks address) (ops : List (Operation K D)) :
    WellFormed callbacks address (run callbacks address ops) ∧
      ∀ key, valueIn callbacks (run callbacks address ops).entries key = lastValue callbacks ops key := by
  have hrun := foldl_step ha ops (wellFormed_allocated (D := D) initialCapacity (by decide))
  rw [entries_allocated] at hrun
  exact hrun

/-- A table that holds a finite map, given by its value for each key: what the lookups return, and that the
entries, of which no two have equal keys, are counted, enumerated once each and kept by a rebuild. -/
structure Holds (callbacks : WMHashTableCallbacks K) (address : K → UInt64) (t : HashTable K D)
    (value : K → Option (Option D)) (entries : List (Option D × K)) : Prop where
  get : ∀ key, t.hashGet callbacks address key = (value key).join
  getItemAndKey : ∀ key, (t.hashGetItemAndKey callbacks address key).map Prod.fst = value key
  replaced : ∀ key data, (t.hashInsert callbacks address key data).2 = (value key).join
  distinct : entries.Pairwise fun e f => keyIsEqual callbacks e.2 f.2 = false
  mem_iff : ∀ key data, value key = some data ↔ ∃ e ∈ entries, keyIsEqual callbacks key e.2 = true ∧ e.1 = data
  count : t.countHashTable = entries.length
  items : ∀ more, calls t.nextHashEnumeratorItem (entries.length + more) t.enumerateHashTable =
    entries.map Prod.fst ++ List.replicate more none
  keys : ∀ more, calls t.nextHashEnumeratorKey (entries.length + more) t.enumerateHashTable =
    entries.map (some ∘ Prod.snd) ++ List.replicate more none
  itemsAndKeys : ∀ more, calls t.nextHashEnumeratorItemAndKey (entries.length + more) t.enumerateHashTable =
    entries.map some ++ List.replicate more none
  rebuild : (t.rebuildTable callbacks address).size = 2 * t.size ∧
    (t.rebuildTable callbacks address).countHashTable = entries.length ∧
    ∀ key, (t.rebuildTable callbacks address).hashGetItem callbacks address key =
      t.hashGetItem callbacks address key

lemma holds_entries (ha : Agree callbacks address) {t : HashTable K D} (h : WellFormed callbacks address t) :
    Holds callbacks address t (valueIn callbacks t.entries) (t.entries.map fun item => (item.data, item.key)) where
  get key := by
    rw [hashGet, hashGetItem_eq ha h, valueIn]
    cases t.entries.find? fun item => keyIsEqual callbacks key item.key <;> rfl
  getItemAndKey key := by
    rw [hashGetItemAndKey, hashGetItem_eq ha h, valueIn, Option.map_map]
    rfl
  replaced key data := hashInsert_old ha h key data
  distinct := List.pairwise_map.mpr h.distinct
  mem_iff key data := by
    rw [valueIn, Option.map_eq_some_iff]
    constructor
    · rintro ⟨item, hfind, rfl⟩
      obtain ⟨hmem, hk⟩ := (find?_eq_some_iff ha h.distinct).mp hfind
      exact ⟨(item.data, item.key), List.mem_map_of_mem hmem, hk, rfl⟩
    · rintro ⟨e, he, hk, rfl⟩
      obtain ⟨item, hmem, rfl⟩ := List.mem_map.mp he
      exact ⟨item, (find?_eq_some_iff ha h.distinct).mpr ⟨hmem, hk⟩, rfl⟩
  count := by rw [countHashTable, h.count, List.length_map]
  items more := by
    have hcalls := t.calls_next t.nextHashEnumeratorItem (f := fun found => found.bind HashItem.data)
      (fun e => by rw [nextHashEnumeratorItem]; cases (t.nextHashItem e).1 <;> rfl) (fun _ => rfl) more
      t.enumerateHashTable
    rw [remaining_enumerateHashTable] at hcalls
    rw [List.length_map, List.map_map, hcalls]
    rfl
  keys more := by
    have hcalls := t.calls_next t.nextHashEnumeratorKey (f := fun found => found.map HashItem.key)
      (fun _ => rfl) (fun _ => rfl) more t.enumerateHashTable
    rw [remaining_enumerateHashTable] at hcalls
    rw [List.length_map, List.map_map, hcalls]
    rfl
  itemsAndKeys more := by
    have hcalls := t.calls_next t.nextHashEnumeratorItemAndKey
      (f := fun found => found.map fun item => (item.data, item.key)) (fun _ => rfl) (fun _ => rfl) more
      t.enumerateHashTable
    rw [remaining_enumerateHashTable] at hcalls
    rw [List.length_map, List.map_map, hcalls]
    rfl
  rebuild := by
    refine ⟨?_, ?_, fun key => ?_⟩
    · rw [rebuildTable_size, Nat.mul_comm]
    · rw [countHashTable, rebuildTable_itemCount, h.count, List.length_map]
    · rw [hashGetItem_eq ha h, hashGetItem_eq ha (rebuildTable_wellFormed ha h)]
      exact find?_perm ha t.rebuildTable_entries (rebuildTable_wellFormed ha h).distinct key

end Runs

/-- Numbers that are equal up to their last digit, all in one bucket. -/
def digitCallbacks : WMHashTableCallbacks ℕ where
  hash := some fun _ => 5
  keyIsEqual := some fun a b => a % 10 = b % 10
  retainKey := none

lemma digitCallbacks_agree : Agree digitCallbacks fun _ => 0 where
  refl a := decide_eq_true rfl
  symm a b h := decide_eq_true (of_decide_eq_true h).symm
  trans a b c hab hbc := decide_eq_true ((of_decide_eq_true hab).trans (of_decide_eq_true hbc))
  hash a b _ := rfl
  retain a := decide_eq_true rfl

end Xperimentum.WMcore.HashTables
