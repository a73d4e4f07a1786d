import Xperimentum.Lib.Blocks
import Xperimentum.Lib.Int32
import Xperimentum.WMcore.DynamicArray

/-! `WMData`: bytes in a block that grows, and a run of calls on several of them. No result is an access outside of a
block or to one that has been freed, a failed assertion of `wmalloc`, or a loop that does not end. -/

namespace Xperimentum.WMcore.Data

open Lib.Blocks Lib.Blocks.Heap Lib.Int32 Lib.Partial

abbrev Memory := Heap UInt8

structure WMData where
  length : ℕ
  capacity : ℕ
  growth : ℕ
  bytes : ℕ

/-- What a caller passes, or what a data holds at an address. -/
inductive Source
  | given (bytes : List UInt8)
  | held (address : ℕ)

def Source.load (n : ℕ) (m : Memory) : Source → Option (List (Option UInt8))
  | given bytes => if n ≤ bytes.length then some ((bytes.take n).map some) else none
  | held a => m.load a 0 n

def zeros (n : ℕ) : List (Option UInt8) := List.replicate n (some 0)

def wmalloc (n : ℕ) (m : Memory) : Option (ℕ × Memory) := if n = 0 then none else some (m.fresh (zeros n))

def wrealloc (a n : ℕ) (m : Memory) : Option (ℕ × Memory) :=
  if a = 0 then wmalloc n m
  else if n = 0 then (m.free a).map fun m => (0, m)
  else m.realloc a n

def growthOf (capacity : ℕ) : ℕ := if 0 < capacity / 2 then capacity / 2 else 1

def createDataWithCapacity (capacity : ℕ) (m : Memory) : Option (WMData × Memory) :=
  if 0 < capacity then (wmalloc capacity m).map fun made => (⟨0, capacity, growthOf capacity, made.1⟩, made.2)
  else some (⟨0, 0, growthOf 0, 0⟩, m)

def createDataWithLength (length : ℕ) (m : Memory) : Option (WMData × Memory) :=
  (createDataWithCapacity length m).map fun made => ({ made.1 with length := length }, made.2)

def createDataWithBytes (bytes : Source) (length : ℕ) (m : Memory) : Option (WMData × Memory) := do
  let made ← createDataWithCapacity length m
  let cells ← bytes.load length made.2
  let m ← made.2.store made.1.bytes 0 cells
  pure ({ made.1 with length := length }, m)

def createDataWithBytesNoCopy (bytes length : ℕ) : WMData := ⟨length, length, growthOf length, bytes⟩

def createDataWithData (aData : WMData) (m : Memory) : Option (WMData × Memory) :=
  if 0 < aData.length then createDataWithBytes (.held aData.bytes) aData.length m else createDataWithCapacity 0 m

def setDataCapacity (capacity : ℕ) (aData : WMData) (m : Memory) : Option (WMData × Memory) := do
  let moved ← (if aData.capacity ≠ capacity then
      (wrealloc aData.bytes capacity m).map fun made =>
        ({ aData with bytes := made.1, capacity := capacity, growth := growthOf capacity }, made.2)
    else some (aData, m))
  pure ({ moved.1 with length := if capacity < moved.1.length then capacity else moved.1.length }, moved.2)

def setDataLength (length : ℕ) (aData : WMData) (m : Memory) : Option (WMData × Memory) := do
  let grown ← (if aData.capacity < length then setDataCapacity length aData m else some (aData, m))
  let m ← (if grown.1.length < length then
      grown.2.store grown.1.bytes grown.1.length (zeros (length - grown.1.length))
    else some grown.2)
  pure ({ grown.1 with length := length }, m)

def increaseDataLengthBy (extraLength : ℕ) (aData : WMData) (m : Memory) : Option (WMData × Memory) :=
  setDataLength ((aData.length + extraLength) % 2 ^ 32) aData m

/-- The loop has a turn for each pair of values, so one that has not ended by then never does. -/
def nextCapacity (newLength : ℕ) : ℕ → ℕ → ℕ → Option (ℕ × ℕ)
  | 0, _, _ => none
  | turns + 1, capacity, growth =>
    if capacity < newLength then nextCapacity newLength turns ((capacity + growth) % 2 ^ 32) capacity
    else some (capacity, growth)

def makeRoom (newLength : ℕ) (aData : WMData) (m : Memory) : Option (WMData × Memory) :=
  if aData.capacity < newLength then do
    let next ← nextCapacity newLength (2 ^ 64) ((aData.capacity + aData.growth) % 2 ^ 32)
      (if aData.capacity = 0 then 1 else aData.capacity)
    let grown ← setDataCapacity next.1 aData m
    pure ({ grown.1 with growth := next.2 }, grown.2)
  else some (aData, m)

def appendDataBytes (bytes : Source) (length : ℕ) (aData : WMData) (m : Memory) : Option (WMData × Memory) := do
  let newLength := (aData.length + length) % 2 ^ 32
  let grown ← makeRoom newLength aData m
  let cells ← bytes.load length grown.2
  let m ← grown.2.store grown.1.bytes aData.length cells
  pure ({ grown.1 with length := newLength }, m)

/-- The address of the other bytes is read before the data grows. -/
def appendData (anotherData aData : WMData) (m : Memory) : Option (WMData × Memory) :=
  if 0 < anotherData.length then appendDataBytes (.held anotherData.bytes) anotherData.length aData m
  else some (aData, m)

/-- The comparisons are those of `unsigned`s. -/
def InRange (aRange : DynamicArray.WMRange) (length : ℕ) : Prop :=
  toU32 aRange.position < length ∧ toU32 aRange.count ≤ length - toU32 aRange.position

instance (aRange : DynamicArray.WMRange) (length : ℕ) : Decidable (InRange aRange length) :=
  inferInstanceAs (Decidable (_ ∧ _))

/-- A negative offset points in front of the block, and a negative count is a huge `size_t`. -/
def size (n : ℤ) : Option ℕ := if 0 ≤ n then some n.toNat else none

def getSubdataWithRange (aRange : DynamicArray.WMRange) (aData : WMData) (m : Memory) : Option (WMData × Memory) :=
  if aRange.count ≤ 0 then createDataWithCapacity 0 m
  else do
    let buffer ← wmalloc aRange.count.toNat m
    let m ← (if InRange aRange aData.length then do
        let position ← size aRange.position
        let cells ← buffer.2.load aData.bytes position aRange.count.toNat
        buffer.2.store buffer.1 0 cells
      else some buffer.2)
    pure (createDataWithBytesNoCopy buffer.1 aRange.count.toNat, m)

def replaceDataBytesInRange (aRange : DynamicArray.WMRange) (bytes : Source) (aData : WMData) (m : Memory) :
    Option (WMData × Memory) :=
  if InRange aRange aData.length then do
    let position ← size aRange.position
    let count ← size aRange.count
    let cells ← bytes.load count m
    let m ← m.store aData.bytes position cells
    pure (aData, m)
  else some (aData, m)

def resetDataBytesInRange (aRange : DynamicArray.WMRange) (aData : WMData) (m : Memory) : Option (WMData × Memory) :=
  if InRange aRange aData.length then do
    let position ← size aRange.position
    let count ← size aRange.count
    let m ← m.store aData.bytes position (zeros count)
    pure (aData, m)
  else some (aData, m)

/-- `other` tells which data the other one is once the capacity has been set. -/
def setData (length : ℕ) (other : WMData → WMData) (aData : WMData) (m : Memory) : Option (WMData × Memory) := do
  let set ← setDataCapacity length aData m
  let m ← (if 0 < length then do
      let cells ← set.2.load (other set.1).bytes 0 length
      set.2.store set.1.bytes 0 cells
    else some set.2)
  pure ({ set.1 with length := length }, m)

/-- Without bytes of either the comparison is not made. -/
def isDataEqualToData (aData anotherData : WMData) (m : Memory) : Option Bool :=
  if aData.length ≠ anotherData.length then some false
  else if aData.bytes = 0 ∧ anotherData.bytes = 0 then some true
  else if aData.bytes = 0 ∨ anotherData.bytes = 0 then some false
  else do
    let cells ← m.load aData.bytes 0 aData.length
    let others ← m.load anotherData.bytes 0 aData.length
    pure (cells = others)

/-! A run of calls. -/

structure Datas where
  datas : List WMData
  memory : Memory

def start : Datas := ⟨[], .empty⟩

inductive Call
  | withCapacity (capacity : ℕ)
  | withLength (length : ℕ)
  | withBytes (bytes : List UInt8)
  | withData (i : ℕ)
  | subdata (i : ℕ) (aRange : DynamicArray.WMRange)
  | setCapacity (i capacity : ℕ)
  | setLength (i length : ℕ)
  | increaseLengthBy (i extraLength : ℕ)
  | appendBytes (i : ℕ) (bytes : List UInt8)
  | appendData (i j : ℕ)
  | replace (i : ℕ) (aRange : DynamicArray.WMRange) (bytes : List UInt8)
  | reset (i : ℕ) (aRange : DynamicArray.WMRange)
  | setData (i j : ℕ)

def made (s : Datas) (f : Memory → Option (WMData × Memory)) : Option Datas :=
  (f s.memory).map fun r => ⟨s.datas ++ [r.1], r.2⟩

def changed (s : Datas) (i : ℕ) (f : WMData → Memory → Option (WMData × Memory)) : Option Datas := do
  let aData ← s.datas[i]?
  let r ← f aData s.memory
  pure ⟨s.datas.set i r.1, r.2⟩

def call (s : Datas) : Call → Option Datas
  | .withCapacity capacity => made s (createDataWithCapacity capacity)
  | .withLength length => made s (createDataWithLength length)
  | .withBytes bytes => made s (createDataWithBytes (.given bytes) bytes.length)
  | .withData i => s.datas[i]?.bind fun aData => made s (createDataWithData aData)
  | .subdata i aRange => s.datas[i]?.bind fun aData => made s (getSubdataWithRange aRange aData)
  | .setCapacity i capacity => changed s i (setDataCapacity capacity)
  | .setLength i length => changed s i (setDataLength length)
  | .increaseLengthBy i extraLength => changed s i (increaseDataLengthBy extraLength)
  | .appendBytes i bytes => changed s i (appendDataBytes (.given bytes) bytes.length)
  | .appendData i j => s.datas[j]?.bind fun anotherData => changed s i (appendData anotherData)
  | .replace i aRange bytes => changed s i (replaceDataBytesInRange aRange (.given bytes))
  | .reset i aRange => changed s i (resetDataBytesInRange aRange)
  | .setData i j => s.datas[j]?.bind fun anotherData =>
    changed s i (setData anotherData.length fun aData => if i = j then aData else anotherData)

end Xperimentum.WMcore.Data
