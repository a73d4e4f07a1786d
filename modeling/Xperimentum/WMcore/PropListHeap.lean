import Xperimentum.Lib.CountedHeap
import Xperimentum.WMcore.PropList

/-! Property lists as objects with retain counts. No result is a call that touches a freed object or does not end. -/

namespace Xperimentum.WMcore.References

open Lib.CountedHeap

inductive Content where
  | string (str : Text)
  | data (data : WMData)
  | array (items : List ℕ)
  | dictionary (entries : List (ℕ × ℕ))
  deriving DecidableEq

def children : Content → List ℕ
  | .string _ => []
  | .data _ => []
  | .array items => items
  | .dictionary entries => entries.flatMap fun entry => [entry.1, entry.2]

abbrev PLHeap := Heap Content

/-! Both `retainPropListByCount` and `WMRetainPropList` go through all that a property list holds. -/

def retainPropListByCount (h : PLHeap) (plist : ℕ) (count : ℤ) : Option PLHeap := retain children h plist count

def releasePropListByCount (h : PLHeap) (plist : ℕ) (count : ℤ) : Option PLHeap := release children h plist count

def retainPropList (h : PLHeap) (plist : ℕ) : Option PLHeap := retain children h plist 1

def releasePropList (h : PLHeap) (plist : ℕ) : Option PLHeap := release children h plist 1

/-! Equality and the lookup in a dictionary's table. -/

section Lookup

variable (caseSensitive : Bool)

def isEqualTo : ℕ → PLHeap → ℕ → ℕ → Bool
  | 0, _, _, _ => false
  | depth + 1, h, plist, other =>
    match (h.cells plist).map Cell.content, (h.cells other).map Cell.content with
    | some (.string str), some (.string str') => equalStrings caseSensitive str str'
    | some (.data data), some (.data data') => isDataEqualToData data data'
    | some (.array items), some (.array items') =>
      items.length = items'.length && (items.zip items').all fun pair => isEqualTo depth h pair.1 pair.2
    | some (.dictionary entries), some (.dictionary entries') =>
      entries.length = entries'.length && entries.all fun entry =>
        ((entries'.find? fun other => isEqualTo depth h entry.1 other.1).map fun other =>
          isEqualTo depth h entry.2 other.2).getD false
    | _, _ => false

def isPropListEqualTo (h : PLHeap) (plist other : ℕ) : Bool := isEqualTo caseSensitive (h.next + 1) h plist other

def keyIsEqual (h : PLHeap) (key : ℕ) (entry : ℕ × ℕ) : Bool := isPropListEqualTo caseSensitive h key entry.1

/-- An entry with an equal key gets the new key and value. -/
def hashInsert (h : PLHeap) (entries : List (ℕ × ℕ)) (key value : ℕ) : List (ℕ × ℕ) :=
  match entries.findIdx? (keyIsEqual caseSensitive h key) with
  | some i => entries.set i (key, value)
  | none => entries ++ [(key, value)]

end Lookup

/-! Arrays. -/

def setContent (h : PLHeap) (plist : ℕ) (content : Content) : Option PLHeap :=
  (h.cells plist).map fun cell => h.put plist (some { cell with content := content })

def insertInArray (items : List ℕ) (index : ℤ) (item : ℕ) : List ℕ :=
  if 0 ≤ index ∧ index ≤ items.length then items.insertIdx index.toNat item else items

/-- The item is retained before the index is checked. -/
def insertInPLArray (h : PLHeap) (plist : ℕ) (index : ℤ) (item : ℕ) : Option PLHeap :=
  (h.cells plist).bind fun cell =>
    match cell.content with
    | .array items =>
      (retainPropListByCount h item cell.count).bind fun h =>
        setContent h plist (.array (insertInArray items index item))
    | _ => some h

def addToPLArray (h : PLHeap) (plist item : ℕ) : Option PLHeap :=
  (h.cells plist).bind fun cell =>
    match cell.content with
    | .array items =>
      (retainPropListByCount h item cell.count).bind fun h => setContent h plist (.array (items ++ [item]))
    | _ => some h

def getFromArray (items : List ℕ) (index : ℤ) : Option ℕ := if 0 ≤ index then items[index.toNat]? else none

def deleteFromPLArray (h : PLHeap) (plist : ℕ) (index : ℤ) : Option PLHeap :=
  (h.cells plist).bind fun cell =>
    match cell.content with
    | .array items =>
      match getFromArray items index with
      | some item =>
        (setContent h plist (.array (items.eraseIdx index.toNat))).bind fun h =>
          releasePropListByCount h item cell.count
      | none => some h
    | _ => some h

def removeFromPLArray (caseSensitive : Bool) (h : PLHeap) (plist item : ℕ) : Option PLHeap :=
  (h.cells plist).bind fun cell =>
    match cell.content with
    | .array items =>
      match items.findIdx? (isPropListEqualTo caseSensitive h item) with
      | some i => deleteFromPLArray h plist i
      | none => some h
    | _ => some h

/-! Dictionaries. -/

section Dictionaries

variable (caseSensitive : Bool)

def removeFromPLDictionary (h : PLHeap) (plist key : ℕ) : Option PLHeap :=
  (h.cells plist).bind fun cell =>
    match cell.content with
    | .dictionary entries =>
      match entries.find? (keyIsEqual caseSensitive h key) with
      | some entry =>
        (setContent h plist (.dictionary (entries.erase entry))).bind fun h =>
          (releasePropListByCount h entry.1 cell.count).bind fun h =>
            (h.cells plist).bind fun cell => releasePropListByCount h entry.2 cell.count
      | none => some h
    | _ => some h

/-- The old entry is released before the new key and value are retained. -/
def putInPLDictionary (h : PLHeap) (plist key value : ℕ) : Option PLHeap :=
  (removeFromPLDictionary caseSensitive h plist key).bind fun h =>
    (h.cells plist).bind fun cell =>
      match cell.content with
      | .dictionary _ =>
        (retainPropListByCount h key cell.count).bind fun h =>
          (h.cells plist).bind fun cell =>
            (retainPropListByCount h value cell.count).bind fun h =>
              (h.cells plist).bind fun cell =>
                match cell.content with
                | .dictionary entries => setContent h plist (.dictionary (hashInsert caseSensitive h entries key value))
                | _ => some h
      | _ => some h

def isDictionary : Content → Bool
  | .dictionary _ => true
  | _ => false

def getFromPLDictionary (h : PLHeap) (plist key : ℕ) : Option ℕ :=
  (h.cells plist).bind fun cell =>
    match cell.content with
    | .dictionary entries => (entries.find? (keyIsEqual caseSensitive h key)).map Prod.snd
    | _ => none

/-- A loop over the table of a dictionary, which has to stay as it was when the loop began. -/
def overEntries (source : ℕ) (step : PLHeap → ℕ → ℕ → Option PLHeap) (table : List (ℕ × ℕ)) :
    List (ℕ × ℕ) → PLHeap → Option PLHeap
  | [], h => some h
  | entry :: entries, h =>
    if (h.cells source).map Cell.content = some (.dictionary table) then
      (step h entry.1 entry.2).bind (overEntries source step table entries)
    else none

def entriesOf (h : PLHeap) (plist : ℕ) : Option (List (ℕ × ℕ)) :=
  match (h.cells plist).map Cell.content with
  | some (.dictionary entries) => some entries
  | _ => none

def isPLDictionary (h : PLHeap) (plist : ℕ) : Bool := (entriesOf h plist).isSome

def mergePLDictionaries : ℕ → PLHeap → ℕ → ℕ → Bool → Option PLHeap
  | 0, _, _, _, _ => none
  | depth + 1, h, dest, source, recursive =>
    (h.cells source).bind fun _ =>
      (h.cells dest).bind fun _ =>
        match entriesOf h source, entriesOf h dest with
        | some entries, some _ =>
          if source = dest then some h
          else
            overEntries source (fun h key value =>
              (h.cells value).bind fun _ =>
                match getFromPLDictionary caseSensitive h dest key with
                | some dvalue =>
                  if recursive && isPLDictionary h value && isPLDictionary h dvalue then
                    mergePLDictionaries depth h dvalue value true
                  else putInPLDictionary caseSensitive h dest key value
                | none => putInPLDictionary caseSensitive h dest key value) entries entries h
        | _, _ => some h

/-- An array with all keys, each retained. -/
def getPLDictionaryKeys (h : PLHeap) (plist : ℕ) : Option (PLHeap × ℕ) :=
  (h.cells plist).bind fun _ =>
    let array := h.next
    (((entriesOf h plist).getD []).foldlM (fun h entry =>
      (retainPropList h entry.1).bind fun h =>
        (h.cells array).bind fun cell =>
          match cell.content with
          | .array items => setContent h array (.array (items ++ [entry.1]))
          | _ => some h) (h.alloc (.array []))).map fun h => (h, array)

def subtractPLDictionaries : ℕ → PLHeap → ℕ → ℕ → Bool → Option PLHeap
  | 0, _, _, _, _ => none
  | depth + 1, h, dest, source, recursive =>
    (h.cells source).bind fun _ =>
      (h.cells dest).bind fun _ =>
        match entriesOf h source, entriesOf h dest with
        | some entries, some _ =>
          if source = dest then
            (getPLDictionaryKeys h dest).bind fun (h, keys) =>
              (h.cells keys).bind fun cell =>
                ((children cell.content).foldlM (fun h key => removeFromPLDictionary caseSensitive h dest key) h).bind
                  fun h => releasePropList h keys
          else
            overEntries source (fun h key value =>
              match getFromPLDictionary caseSensitive h dest key with
              | some dvalue =>
                if isPropListEqualTo caseSensitive h value dvalue then removeFromPLDictionary caseSensitive h dest key
                else if recursive && isPLDictionary h value && isPLDictionary h dvalue then
                  subtractPLDictionaries depth h dvalue value true
                else some h
              | none => some h) entries entries h
        | _, _ => some h

/-! Copies. -/

def shallowCopyPropList (h : PLHeap) (plist : ℕ) : Option (PLHeap × ℕ) :=
  (h.cells plist).bind fun cell =>
    let ret := h.next
    match cell.content with
    | .string str => some (h.alloc (.string str), ret)
    | .data data => some (h.alloc (.data data), ret)
    | .array items => (items.foldlM retainPropList (h.alloc (.array items))).map fun h => (h, ret)
    | .dictionary entries =>
      (overEntries plist (fun h key item => putInPLDictionary caseSensitive h ret key item) entries entries
        (h.alloc (.dictionary []))).map fun h => (h, ret)

def deepCopyPropList : ℕ → PLHeap → ℕ → Option (PLHeap × ℕ)
  | 0, _, _ => none
  | depth + 1, h, plist =>
    (h.cells plist).bind fun cell =>
      let ret := h.next
      match cell.content with
      | .string str => some (h.alloc (.string str), ret)
      | .data data => some (h.alloc (.data data), ret)
      | .array items =>
        (items.foldlM (fun h item =>
          (deepCopyPropList depth h item).bind fun (h, item) =>
            (h.cells ret).bind fun cell =>
              match cell.content with
              | .array items => setContent h ret (.array (items ++ [item]))
              | _ => some h) (h.alloc (.array []))).map fun h => (h, ret)
      | .dictionary entries =>
        (entries.foldlM (fun h entry =>
          (deepCopyPropList depth h entry.1).bind fun (h, key) =>
            (deepCopyPropList depth h entry.2).bind fun (h, item) =>
              (h.cells ret).bind fun cell =>
                match cell.content with
                | .dictionary entries => setContent h ret (.dictionary (hashInsert caseSensitive h entries key item))
                | _ => some h) (h.alloc (.dictionary []))).map fun h => (h, ret)

end Dictionaries

/-! A run of calls. -/

/-- The objects, and how many references to each the callers own. -/
structure State where
  heap : PLHeap
  own : ℕ → ℤ

inductive Call where
  | createString (str : Text)
  | createData (data : WMData)
  | createArray
  | createDictionary
  | retain (plist : ℕ)
  | release (plist : ℕ)
  | insertInArray (plist : ℕ) (index : ℤ) (item : ℕ)
  | addToArray (plist item : ℕ)
  | deleteFromArray (plist : ℕ) (index : ℤ)
  | removeFromArray (plist item : ℕ)
  | putInDictionary (plist key value : ℕ)
  | removeFromDictionary (plist key : ℕ)
  | merge (dest source : ℕ) (recursive : Bool)
  | subtract (dest source : ℕ) (recursive : Bool)
  | shallowCopy (plist : ℕ)
  | deepCopy (plist : ℕ)

def State.create (s : State) (content : Content) : State :=
  ⟨s.heap.alloc content, fun x => s.own x + if x = s.heap.next then 1 else 0⟩

def call (caseSensitive : Bool) (s : State) : Call → Option State
  | .createString str => some (s.create (.string str))
  | .createData data => some (s.create (.data data))
  | .createArray => some (s.create (.array []))
  | .createDictionary => some (s.create (.dictionary []))
  | .retain plist => (retainPropList s.heap plist).map fun h => ⟨h, fun x => s.own x + if x = plist then 1 else 0⟩
  | .release plist => (releasePropList s.heap plist).map fun h => ⟨h, fun x => s.own x - if x = plist then 1 else 0⟩
  | .insertInArray plist index item => (insertInPLArray s.heap plist index item).map fun h => { s with heap := h }
  | .addToArray plist item => (addToPLArray s.heap plist item).map fun h => { s with heap := h }
  | .deleteFromArray plist index => (deleteFromPLArray s.heap plist index).map fun h => { s with heap := h }
  | .removeFromArray plist item =>
    (removeFromPLArray caseSensitive s.heap plist item).map fun h => { s with heap := h }
  | .putInDictionary plist key value =>
    (putInPLDictionary caseSensitive s.heap plist key value).map fun h => { s with heap := h }
  | .removeFromDictionary plist key =>
    (removeFromPLDictionary caseSensitive s.heap plist key).map fun h => { s with heap := h }
  | .merge dest source recursive =>
    (mergePLDictionaries caseSensitive (s.heap.next + 1) s.heap dest source recursive).map fun h =>
      { s with heap := h }
  | .subtract dest source recursive =>
    (subtractPLDictionaries caseSensitive (s.heap.next + 1) s.heap dest source recursive).map fun h =>
      { s with heap := h }
  | .shallowCopy plist =>
    (shallowCopyPropList caseSensitive s.heap plist).map fun (h, ret) =>
      ⟨h, fun x => s.own x + if x = ret then 1 else 0⟩
  | .deepCopy plist =>
    (deepCopyPropList caseSensitive (s.heap.next + 1) s.heap plist).map fun (h, ret) =>
      ⟨h, fun x => s.own x + if x = ret then 1 else 0⟩

end Xperimentum.WMcore.References
