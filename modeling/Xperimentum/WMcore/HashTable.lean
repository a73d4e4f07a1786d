import Mathlib.Tactic

/-! The hash table: chains of items in an array of buckets that doubles when it has more items than buckets. -/

namespace Xperimentum.WMcore.HashTables

/-- A data pointer may be NULL. -/
structure HashItem (K D : Type) where
  key : K
  data : Option D

/-- A callback that is NULL is `none`. -/
structure WMHashTableCallbacks (K : Type) where
  hash : Option (K → UInt32)
  keyIsEqual : Option (K → K → Bool)
  retainKey : Option (K → K)

structure HashTable (K D : Type) where
  itemCount : ℕ
  size : ℕ
  size_pos : 0 < size
  table : Fin size → List (HashItem K D)

structure HashEnumerator (K D : Type) where
  index : ℕ
  nextItem : List (HashItem K D)

def initialCapacity : ℕ := 23

variable {K D : Type}

namespace HashTable

def allocated (size : ℕ) (size_pos : 0 < size) (itemCount : ℕ) : HashTable K D where
  itemCount := itemCount
  size := size
  size_pos := size_pos
  table := fun _ => []

def createHashTable : HashTable K D := allocated initialCapacity (by decide) 0

section Callbacks

variable (callbacks : WMHashTableCallbacks K) (address : K → UInt64) [DecidableEq K]

def hashPtr (key : K) : UInt32 := (address key / 8).toUInt32

def hashKey (key : K) : UInt32 := (callbacks.hash.getD (hashPtr address)) key

def HASH (t : HashTable K D) (key : K) : Fin t.size :=
  ⟨(hashKey callbacks address key).toNat % t.size, Nat.mod_lt _ t.size_pos⟩

def keyIsEqual (key other : K) : Bool := (callbacks.keyIsEqual.getD fun key other => decide (key = other)) key other

def DUPKEY (key : K) : K := (callbacks.retainKey.getD id) key

def setChain (t : HashTable K D) (h : Fin t.size) (chain : List (HashItem K D)) : HashTable K D :=
  { t with table := Function.update t.table h chain }

def rellocateItem (t : HashTable K D) (item : HashItem K D) : HashTable K D :=
  t.setChain (t.HASH callbacks address item.key) (item :: t.table (t.HASH callbacks address item.key))

/-- Each chain of the old array is taken item by item from its head. -/
def rebuildTable (t : HashTable K D) : HashTable K D :=
  (List.finRange t.size).foldl (fun new i => (t.table i).foldl (rellocateItem callbacks address) new)
    (allocated (t.size * 2) (Nat.mul_pos t.size_pos Nat.two_pos) t.itemCount)

def resetHashTable (t : HashTable K D) : HashTable K D :=
  if t.size > initialCapacity then allocated initialCapacity (by decide) 0
  else allocated t.size t.size_pos 0

def countHashTable (t : HashTable K D) : ℕ := t.itemCount

def hashGetItem (t : HashTable K D) (key : K) : Option (HashItem K D) :=
  (t.table (t.HASH callbacks address key)).find? fun item => keyIsEqual callbacks key item.key

def hashGet (t : HashTable K D) (key : K) : Option D :=
  match t.hashGetItem callbacks address key with
  | none => none
  | some item => item.data

def hashGetItemAndKey (t : HashTable K D) (key : K) : Option (Option D × K) :=
  (t.hashGetItem callbacks address key).map fun item => (item.data, item.key)

/-- The chain with the first item of an equal key changed, and the data it had. -/
def replaceItem (key : K) (data : Option D) : List (HashItem K D) → Option (List (HashItem K D) × Option D)
  | [] => none
  | item :: chain =>
    if keyIsEqual callbacks key item.key then some (⟨DUPKEY callbacks key, data⟩ :: chain, item.data)
    else (replaceItem key data chain).map fun replaced => (item :: replaced.1, replaced.2)

/-- The table and the data that was replaced. -/
def hashInsert (t : HashTable K D) (key : K) (data : Option D) : HashTable K D × Option D :=
  let h := t.HASH callbacks address key
  match replaceItem callbacks key data (t.table h) with
  | some (chain, old) => (t.setChain h chain, old)
  | none =>
    let t := { t.setChain h (⟨DUPKEY callbacks key, data⟩ :: t.table h) with itemCount := t.itemCount + 1 }
    (if t.itemCount > t.size then t.rebuildTable callbacks address else t, none)

/-- The rest of the chain, and how many items were freed. -/
def deleteFromList (key : K) : List (HashItem K D) → List (HashItem K D) × ℕ
  | [] => ([], 0)
  | item :: chain =>
    if keyIsEqual callbacks key item.key then (chain, 1)
    else (item :: (deleteFromList key chain).1, (deleteFromList key chain).2)

def hashRemove (t : HashTable K D) (key : K) : HashTable K D :=
  let h := t.HASH callbacks address key
  let (chain, freed) := deleteFromList callbacks key (t.table h)
  { t.setChain h chain with itemCount := t.itemCount - freed }

end Callbacks

/-! Enumeration. -/

def enumerateHashTable (t : HashTable K D) : HashEnumerator K D := ⟨0, t.table ⟨0, t.size_pos⟩⟩

/-- The first bucket from an index on that is not empty. -/
def skipEmpty (t : HashTable K D) (index : ℕ) : HashEnumerator K D :=
  if h : index < t.size then
    if t.table ⟨index, h⟩ ≠ [] then ⟨index, t.table ⟨index, h⟩⟩ else t.skipEmpty (index + 1)
  else ⟨index, []⟩
  termination_by t.size - index

def advance (t : HashTable K D) (e : HashEnumerator K D) : HashEnumerator K D :=
  if e.nextItem = [] then t.skipEmpty (e.index + 1) else e

def nextHashItem (t : HashTable K D) (e : HashEnumerator K D) : Option (HashItem K D) × HashEnumerator K D :=
  match (t.advance e).nextItem with
  | [] => (none, t.advance e)
  | item :: chain => (some item, ⟨(t.advance e).index, chain⟩)

/-- NULL at the end, and for an item whose data is NULL. -/
def nextHashEnumeratorItem (t : HashTable K D) (e : HashEnumerator K D) : Option D × HashEnumerator K D :=
  (match (t.nextHashItem e).1 with
    | none => none
    | some item => item.data,
  (t.nextHashItem e).2)

def nextHashEnumeratorKey (t : HashTable K D) (e : HashEnumerator K D) : Option K × HashEnumerator K D :=
  ((t.nextHashItem e).1.map HashItem.key, (t.nextHashItem e).2)

def nextHashEnumeratorItemAndKey (t : HashTable K D) (e : HashEnumerator K D) :
    Option (Option D × K) × HashEnumerator K D :=
  ((t.nextHashItem e).1.map fun item => (item.data, item.key), (t.nextHashItem e).2)

end HashTable

end Xperimentum.WMcore.HashTables
