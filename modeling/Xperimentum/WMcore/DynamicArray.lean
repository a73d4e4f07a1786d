import Xperimentum.Lib.Int32
import Xperimentum.Lib.Memory
import Xperimentum.Lib.Partial

/-! `WMArray`: items in a block that grows, and a run of calls on several arrays. No result is an access outside of a
block, or a block that there is no memory of. -/

namespace Xperimentum.WMcore.DynamicArray

open Lib.Int32 Lib.Memory Lib.Partial

variable {α : Type} [Inhabited α]

structure WMArray (α : Type) where
  items : List α
  itemCount : ℤ
  allocSize : ℤ

def initialSize : ℤ := 8

def resizeIncrement : ℤ := 8

def block (size : ℤ) : List α := List.replicate size.toNat default

def createArray (size : ℤ) : WMArray α :=
  let size := if size ≤ 0 then initialSize else size
  ⟨block size, 0, size⟩

def createArrayWithArray (array : WMArray α) : Option (WMArray α) :=
  (move (block array.allocSize) 0 array.items 0 array.itemCount).map fun items => { array with items := items }

def emptyArray (array : WMArray α) : WMArray α := { array with itemCount := 0 }

/-- The block keeps what it has and gets `more` places. -/
def grow (more : ℤ) (array : WMArray α) : Option (WMArray α) :=
  let size := wrap32 (array.allocSize + more)
  if size < 1 then none
  else some { array with items := (array.items ++ block size).take size.toNat, allocSize := size }

def makeRoom (array : WMArray α) : Option (WMArray α) :=
  if array.allocSize ≤ array.itemCount then grow resizeIncrement array else some array

def countUp (array : WMArray α) : WMArray α := { array with itemCount := wrap32 (array.itemCount + 1) }

def addToArray (array : WMArray α) (item : α) : Option (WMArray α) := do
  let array ← makeRoom array
  let items ← update (fun _ => item) array.items array.itemCount 1
  pure (countUp { array with items := items })

def shiftUp (array : WMArray α) (index : ℤ) : Option (List α) :=
  if index < array.itemCount then move array.items (index + 1) array.items index (array.itemCount - index)
  else some array.items

def shiftDown (array : WMArray α) (index : ℤ) : Option (List α) :=
  if index < array.itemCount - 1 then
    move array.items index array.items (index + 1) (array.itemCount - index - 1)
  else some array.items

def insertInArray (array : WMArray α) (index : ℤ) (item : α) : Option (WMArray α) :=
  if 0 ≤ index ∧ index ≤ array.itemCount then do
    let array ← makeRoom array
    let items ← shiftUp array index
    let items ← update (fun _ => item) items index 1
    pure (countUp { array with items := items })
  else some array

def replaceInArray (array : WMArray α) (index : ℤ) (item : α) : Option (WMArray α × Option α) :=
  if 0 ≤ index ∧ index ≤ array.itemCount then
    if index = array.itemCount then (addToArray array item).map fun array => (array, none)
    else do
      let old ← read array.items index
      let items ← update (fun _ => item) array.items index 1
      pure ({ array with items := items }, some old)
  else some (array, none)

def deleteFromArray (array : WMArray α) (index : ℤ) : Option (WMArray α × ℤ) :=
  if 0 ≤ index ∧ index < array.itemCount then do
    let items ← shiftDown array index
    pure ({ array with items := items, itemCount := array.itemCount - 1 }, 1)
  else some (array, 0)

/-- The loop from `i` on; `remaining` is how many items it may still look at. -/
def findFrom (array : WMArray α) (isMatch : α → Bool) : ℕ → ℤ → Option (Option ℤ)
  | 0, _ => some none
  | remaining + 1, i => do
    let item ← read array.items i
    if isMatch item then pure (some i) else findFrom array isMatch remaining (i + 1)

/-- Without a matching function an item matches that is `cdata` itself. -/
def removeFromArrayMatching (array : WMArray α) (isMatch : α → Bool) : Option (WMArray α × ℤ) := do
  match ← findFrom array isMatch array.itemCount.toNat 0 with
  | some i => (deleteFromArray array i).map fun (array, _) => (array, 1)
  | none => pure (array, 0)

def popFromArray (array : WMArray α) : Option (WMArray α × Option α) :=
  if array.itemCount ≤ 0 then some (array, none)
  else (read array.items (array.itemCount - 1)).map fun item =>
    ({ array with itemCount := array.itemCount - 1 }, some item)

/-- `qsort`: an ascending order of the same items, if the comparer has one. -/
structure QSort (α : Type) where
  sort : (α → α → ℤ) → List α → List α
  perm : ∀ comparer items, (sort comparer items).Perm items
  sorted : ∀ comparer, (∀ a b, comparer a b ≤ 0 ∨ comparer b a ≤ 0) →
    (∀ a b c, comparer a b ≤ 0 → comparer b c ≤ 0 → comparer a c ≤ 0) →
      ∀ items, (sort comparer items).Pairwise fun a b => comparer a b ≤ 0

def sortArray (qsort : QSort α) (array : WMArray α) (comparer : α → α → ℤ) : Option (WMArray α) :=
  let count := array.itemCount.toNat
  if 1 < array.itemCount then
    if array.itemCount ≤ array.items.length then
      let items := qsort.sort comparer (array.items.take count) ++ array.items.drop count
      some { array with items := items }
    else none
  else some array

/-- Two `int`s. -/
structure WMRange where
  position : ℤ
  count : ℤ
  position_mem : -2 ^ 31 ≤ position ∧ position < 2 ^ 31
  count_mem : -2 ^ 31 ≤ count ∧ count < 2 ^ 31

def clippedPosition (array : WMArray α) (aRange : WMRange) : ℤ :=
  let position := if aRange.position < 0 then 0 else aRange.position
  if array.itemCount ≤ position then array.itemCount - 1 else position

def clippedCount (array : WMArray α) (aRange : WMRange) : ℤ :=
  let position := clippedPosition array aRange
  if array.itemCount < wrap32 (position + aRange.count) then array.itemCount - position else aRange.count

def getSubarrayWithRange (array : WMArray α) (aRange : WMRange) : Option (WMArray α) :=
  if aRange.count ≤ 0 then some (createArray 0)
  else do
    let newArray := createArray (clippedCount array aRange)
    let items ← move newArray.items 0 array.items (clippedPosition array aRange) (clippedCount array aRange)
    pure { newArray with items := items, itemCount := clippedCount array aRange }

/-! Arrays by their addresses; an address without an array is `NULL`. -/

structure Arrays (α : Type) where
  find : ℕ → Option (WMArray α)
  next : ℕ

namespace Arrays

def empty : Arrays α := ⟨fun _ => none, 0⟩

def put (arrays : Arrays α) (address : ℕ) (array : WMArray α) : Arrays α :=
  { arrays with find := Function.update arrays.find address (some array) }

def create (arrays : Arrays α) (array : WMArray α) : Arrays α :=
  { arrays.put arrays.next array with next := arrays.next + 1 }

end Arrays

/-- The block grows by the size of the other's. -/
def makeRoomFor (other array : WMArray α) : Option (WMArray α) :=
  if array.allocSize < wrap32 (array.itemCount + other.itemCount) then grow other.allocSize array else some array

/-- The other array may be the array itself, whose block has then grown, too. -/
def appendArray (arrays : Arrays α) (array other : ℕ) : Option (Arrays α) :=
  match arrays.find array, arrays.find other with
  | some a, some o =>
    if o.itemCount = 0 then some arrays
    else do
      let a ← makeRoomFor o a
      let o := ((arrays.put array a).find other).getD o
      let items ← move a.items a.itemCount o.items 0 o.itemCount
      pure (arrays.put array { a with items := items, itemCount := wrap32 (a.itemCount + o.itemCount) })
  | _, _ => some arrays

inductive Call (α : Type)
  | create (size : ℤ)
  | createWithArray (array : ℕ)
  | empty (array : ℕ)
  | append (array other : ℕ)
  | add (array : ℕ) (item : α)
  | insert (array : ℕ) (index : ℤ) (item : α)
  | replace (array : ℕ) (index : ℤ) (item : α)
  | delete (array : ℕ) (index : ℤ)
  | remove (array : ℕ) (isMatch : α → Bool)
  | pop (array : ℕ)
  | subarray (array : ℕ) (aRange : WMRange)
  | sort (array : ℕ) (comparer : α → α → ℤ)

/-- A call that changes one array. -/
def change (arrays : Arrays α) (address : ℕ) (f : WMArray α → Option (WMArray α)) : Option (Arrays α) :=
  match arrays.find address with
  | some array => (f array).map (arrays.put address)
  | none => some arrays

/-- The size of a new array is an `int`. -/
def call (qsort : QSort α) (arrays : Arrays α) : Call α → Option (Arrays α)
  | .create size => some (arrays.create (createArray (wrap32 size)))
  | .createWithArray array =>
    match arrays.find array with
    | some a => (createArrayWithArray a).map arrays.create
    | none => none
  | .empty array => change arrays array fun a => some (emptyArray a)
  | .append array other => appendArray arrays array other
  | .add array item => change arrays array (addToArray · item)
  | .insert array index item => change arrays array (insertInArray · index item)
  | .replace array index item => change arrays array fun a => (replaceInArray a index item).map Prod.fst
  | .delete array index => change arrays array fun a => (deleteFromArray a index).map Prod.fst
  | .remove array isMatch => change arrays array fun a => (removeFromArrayMatching a isMatch).map Prod.fst
  | .pop array => change arrays array fun a => (popFromArray a).map Prod.fst
  | .subarray array aRange =>
    match arrays.find array with
    | some a => (getSubarrayWithRange a aRange).map arrays.create
    | none => some (arrays.create (createArray 0))
  | .sort array comparer => change arrays array (sortArray qsort · comparer)

/-! The same calls on lists. -/

structure Lists (α : Type) where
  find : ℕ → Option (List α)
  next : ℕ

namespace Lists

def empty : Lists α := ⟨fun _ => none, 0⟩

def create (lists : Lists α) (items : List α) : Lists α :=
  ⟨Function.update lists.find lists.next (some items), lists.next + 1⟩

def change (lists : Lists α) (address : ℕ) (f : List α → List α) : Lists α :=
  { lists with find := Function.update lists.find address ((lists.find address).map f) }

end Lists

/-- The elements whose index lies in the range. -/
def subList (aRange : WMRange) (items : List α) : List α :=
  (items.zipIdx.filter fun item => aRange.position ≤ item.2 ∧ item.2 < aRange.position + aRange.count).map Prod.fst

def listCall (qsort : QSort α) (lists : Lists α) : Call α → Lists α
  | .create _ => lists.create []
  | .createWithArray array => lists.create ((lists.find array).getD [])
  | .empty array => lists.change array fun _ => []
  | .append array other => lists.change array (· ++ (lists.find other).getD [])
  | .add array item => lists.change array (· ++ [item])
  | .insert array index item =>
    lists.change array fun items =>
      if 0 ≤ index ∧ index ≤ items.length then items.insertIdx index.toNat item else items
  | .replace array index item =>
    lists.change array fun items =>
      if 0 ≤ index ∧ index < items.length then items.set index.toNat item
      else if index = items.length then items ++ [item]
      else items
  | .delete array index => lists.change array fun items => if 0 ≤ index then items.eraseIdx index.toNat else items
  | .remove array isMatch => lists.change array (·.eraseP isMatch)
  | .pop array => lists.change array List.dropLast
  | .subarray array aRange => lists.create (subList aRange ((lists.find array).getD []))
  | .sort array comparer => lists.change array (qsort.sort comparer)

end Xperimentum.WMcore.DynamicArray
