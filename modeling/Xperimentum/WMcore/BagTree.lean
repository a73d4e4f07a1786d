import Xperimentum.Lib.Int32
import Xperimentum.Lib.RedBlack

/-! `WMBag`: a red-black tree whose sentinel is a node like the others. No result is a loop that does not end, or
the sentinel taken for an item. -/

namespace Xperimentum.WMcore.BagTree

open Lib.Int32 Lib.LinkedTrees Lib.RedBlack

/-- The sentinel. -/
abbrev nil : ℕ := 0

/-- The fields of all nodes, of which those below `next` have been allocated, and the items that the destructor has
been called with. -/
structure Bag (α : Type) where
  links : Links
  color : ℕ → Color
  data : ℕ → Option α
  index : ℕ → ℤ
  count : ℤ
  next : ℕ
  destructor : Bool
  destroyed : List (Option α)

variable {α : Type}

/-- `WBNotFound`. -/
def notFound : ℤ := -2 ^ 31

def createTreeBag (destructor : Bool) : Bag α where
  links := ⟨fun _ => nil, fun _ _ => nil, nil⟩
  color _ := .unset
  data _ := none
  index := Function.update (fun _ => 0) nil notFound
  count := 0
  next := 1
  destructor := destructor
  destroyed := []

namespace Bag

def paint (a : ℕ) (c : Color) (self : Bag α) : Bag α := { self with color := Function.update self.color a c }

def leftRotate (node : ℕ) (self : Bag α) : Bag α := { self with links := self.links.rotate .left node }

def rightRotate (node : ℕ) (self : Bag α) : Bag α := { self with links := self.links.rotate .right node }

def rotate : Side → ℕ → Bag α → Bag α
  | .left => leftRotate
  | .right => rightRotate

def left (self : Bag α) (node : ℕ) : ℕ := self.links.child .left node

def right (self : Bag α) (node : ℕ) : ℕ := self.links.child .right node

def parent (self : Bag α) (node : ℕ) : ℕ := self.links.parent node

/-- More than any loop over the nodes takes. -/
def fuel (self : Bag α) : ℕ := self.next + 1

/-- Which child of its parent a node is: `IS_LEFT`, or else `IS_RIGHT`. -/
def sideOf (self : Bag α) (node : ℕ) : Side := if node = self.left (self.parent node) then .left else .right

/-! Insertion. -/

def sideFor (self : Bag α) (index : ℤ) (x : ℕ) : Side := if index ≤ self.index x then .left else .right

def leafFor (self : Bag α) (index : ℤ) : ℕ → ℕ → ℕ → Option ℕ
  | 0, _, _ => none
  | n + 1, y, x => if x ≠ nil then leafFor self index n x (self.links.child (self.sideFor index x) x) else some y

def treeInsert (node : ℕ) (self : Bag α) : Option (Bag α) := do
  let y ← self.leafFor (self.index node) self.fuel nil self.links.root
  pure { self with links := self.links.attach (self.sideFor (self.index node) y) y node }

/-- A node that is the inner child of its parent goes above it. -/
def straighten (s : Side) (node : ℕ) (self : Bag α) : ℕ × Bag α :=
  if node = self.links.child s.other (self.parent node) then (self.parent node, self.rotate s (self.parent node))
  else (node, self)

/-- The loop of `rbTreeInsert`; both branches of it are the same but for the sides. -/
def insertFixup : ℕ → ℕ → Bag α → Option (Bag α)
  | 0, _, _ => none
  | n + 1, node, self =>
    if node ≠ self.links.root ∧ self.color (self.parent node) = .red then
      let s := self.sideOf (self.parent node)
      let grand := self.parent (self.parent node)
      let y := self.links.child s.other grand
      if self.color y = .red then
        insertFixup n grand (((self.paint (self.parent node) .black).paint y .black).paint grand .red)
      else
        let (node, self) := self.straighten s node
        let grand := self.parent (self.parent node)
        insertFixup n node (((self.paint (self.parent node) .black).paint grand .red).rotate s.other grand)
    else some (self.paint self.links.root .black)

def rbTreeInsert (node : ℕ) (self : Bag α) : Option (Bag α) := do
  let self ← self.treeInsert node
  insertFixup self.fuel node (self.paint node .red)

/-! Deletion. -/

/-- The first step of a turn: a red sibling is rotated away. -/
def blackenSibling (s : Side) (node : ℕ) (self : Bag α) : Bag α :=
  let w := self.links.child s.other (self.parent node)
  if self.color w = .red then
    ((self.paint w .black).paint (self.parent node) .red).rotate s (self.parent node)
  else self

/-- A black outer child of the sibling is replaced by the inner one. -/
def turnSibling (s : Side) (node : ℕ) (self : Bag α) : Bag α :=
  let w := self.links.child s.other (self.parent node)
  if self.color (self.links.child s.other w) = .black then
    ((self.paint (self.links.child s w) .black).paint w .red).rotate s.other w
  else self

def closeGap (s : Side) (node : ℕ) (self : Bag α) : Bag α :=
  let w := self.links.child s.other (self.parent node)
  let self := (self.paint w (self.color (self.parent node))).paint (self.parent node) .black
  (self.paint (self.links.child s.other w) .black).rotate s (self.parent node)

/-- `rbDeleteFixup`; both branches of the loop are the same but for the sides. -/
def deleteFixup : ℕ → ℕ → Bag α → Option (Bag α)
  | 0, _, _ => none
  | n + 1, node, self =>
    if node ≠ self.links.root ∧ self.color node = .black then
      let s := self.sideOf node
      let self := self.blackenSibling s node
      let w := self.links.child s.other (self.parent node)
      if self.color (self.links.child .left w) = .black ∧ self.color (self.links.child .right w) = .black then
        deleteFixup n (self.parent node) (self.paint w .red)
      else
        let self := (self.turnSibling s node).closeGap s node
        deleteFixup n self.links.root self
    else some (self.paint node .black)

def treeMinimum (self : Bag α) (node : ℕ) : Option ℕ := self.links.extreme .left self.fuel node

def treeMaximum (self : Bag α) (node : ℕ) : Option ℕ := self.links.extreme .right self.fuel node

def treeSuccessor (self : Bag α) (node : ℕ) : Option ℕ := self.links.neighbour .right self.fuel node

def treePredecessor (self : Bag α) (node : ℕ) : Option ℕ := self.links.neighbour .left self.fuel node

/-- The node that is taken out of the tree: one with two children hands this on to its successor. -/
def spliced (self : Bag α) (node : ℕ) : Option ℕ :=
  if self.left node = nil ∨ self.right node = nil then some node else self.treeSuccessor node

def onlyChild (self : Bag α) (y : ℕ) : ℕ := if self.left y ≠ nil then self.left y else self.right y

def moveItem (y node : ℕ) (self : Bag α) : Bag α :=
  if y ≠ node then
    { self with
      index := Function.update self.index node (self.index y)
      data := Function.update self.data node (self.data y) }
  else self

/-- The result has the node that is to be freed. -/
def rbTreeDelete (node : ℕ) (self : Bag α) : Option (ℕ × Bag α) := do
  let y ← self.spliced node
  let x := self.onlyChild y
  let self := ({ self with links := self.links.splice y x }).moveItem y node
  let self ← if self.color y = .black then deleteFixup self.fuel x self else some self
  pure (y, self)

/-! Searches. -/

def treeSearch (self : Bag α) (index : ℤ) : ℕ → ℕ → Option ℕ
  | 0, _ => none
  | n + 1, root =>
    if root = nil ∨ self.index root = index then some root
    else treeSearch self index n (if index < self.index root then self.left root else self.right root)

def search (self : Bag α) (index : ℤ) : Option ℕ := self.treeSearch index self.fuel self.links.root

def treeFind [DecidableEq α] (self : Bag α) (item : Option α) : ℕ → ℕ → Option ℕ
  | 0, _ => none
  | n + 1, root =>
    if root = nil ∨ self.data root = item then some root
    else do
      let tmp ← treeFind self item n (self.left root)
      if tmp ≠ nil then pure tmp else treeFind self item n (self.right root)

/-! The calls. -/

def newNode (item : Option α) (index : ℤ) (self : Bag α) : Bag α :=
  { self with
    links :=
      (((self.links.setParent self.next nil).setChild .left self.next nil).setChild .right self.next nil)
    color := Function.update self.color self.next .unset
    data := Function.update self.data self.next item
    index := Function.update self.index self.next index
    next := self.next + 1 }

def countUp (n : ℤ) (self : Bag α) : Bag α := { self with count := wrap32 (self.count + n) }

def addNode (item : Option α) (index : ℤ) (self : Bag α) : Option (Bag α) :=
  (self.newNode item index).rbTreeInsert self.next

def putInBag (item : Option α) (self : Bag α) : Option (Bag α) := do
  let self ← self.addNode item self.count
  pure (self.countUp 1)

/-- The indexes of all nodes behind `ptr` are changed by `n`. -/
def shiftBehind (n : ℤ) : ℕ → ℕ → Bag α → Option (Bag α)
  | 0, _, _ => none
  | steps + 1, ptr, self => do
    let ptr ← self.treeSuccessor ptr
    if ptr ≠ nil then
      shiftBehind n steps ptr { self with index := Function.update self.index ptr (wrap32 (self.index ptr + n)) }
    else pure self

def insertInBag (index : ℤ) (item : Option α) (self : Bag α) : Option (Bag α) := do
  let ptr := self.next
  let self ← self.addNode item index
  let self ← shiftBehind 1 self.fuel ptr self
  pure (self.countUp 1)

def destroy (node : ℕ) (self : Bag α) : Bag α :=
  if self.destructor then { self with destroyed := self.destroyed ++ [self.data node] } else self

/-- The tail of every call that takes an item out; the node is freed. -/
def takeOut (node : ℕ) (self : Bag α) : Option (Bag α) := do
  let (y, self) ← self.rbTreeDelete node
  pure (self.destroy y)

def treeDeleteNode (ptr : ℕ) (self : Bag α) : Option (Bag α) :=
  if ptr ≠ nil then do
    let self ← shiftBehind (-1) self.fuel ptr (self.countUp (-1))
    self.takeOut ptr
  else some self

def removeFromBag [DecidableEq α] (item : Option α) (self : Bag α) : Option (Bag α) := do
  let ptr ← self.treeFind item self.fuel self.links.root
  self.treeDeleteNode ptr

def eraseFromBag (index : ℤ) (self : Bag α) : Option (Bag α) := do
  let ptr ← self.search index
  if ptr ≠ nil then (self.countUp (-1)).takeOut ptr else pure self

def deleteFromBag (index : ℤ) (self : Bag α) : Option (Bag α) := do
  let ptr ← self.search index
  self.treeDeleteNode ptr

def getFromBag (index : ℤ) (self : Bag α) : Option (Option α) := do
  let node ← self.search index
  pure (if node ≠ nil then self.data node else none)

/-- `NULL` as the item takes the node out, and frees the sentinel when there is none. -/
def replaceInBag (index : ℤ) (item : Option α) (self : Bag α) : Option (Bag α) := do
  let ptr ← self.search index
  match item with
  | none => if ptr ≠ nil then (self.countUp (-1)).takeOut ptr else none
  | some item =>
    if ptr ≠ nil then pure { self with data := Function.update self.data ptr (some item) }
    else do
      let self ← self.addNode (some item) index
      pure (self.countUp 1)

/-- The nodes of a walk, from `ptr` on. -/
def walk (self : Bag α) (s : Side) : ℕ → ℕ → Option (List ℕ)
  | 0, _ => none
  | n + 1, ptr =>
    if ptr = nil then some []
    else do
      let next ← self.links.neighbour s self.fuel ptr
      let rest ← walk self s n next
      pure (ptr :: rest)

/-- `WMBagFirst` and `WMBagNext` up to the end. -/
def forward (self : Bag α) : Option (List ℕ) := do
  let first ← self.treeMinimum self.links.root
  self.walk .right self.fuel first

/-- `WMBagLast` and `WMBagPrevious` up to the end. -/
def backward (self : Bag α) : Option (List ℕ) := do
  let last ← self.treeMaximum self.links.root
  self.walk .left self.fuel last

/-- The items of the other bag up to the first that is `NULL`. -/
def appendBag (bag self : Bag α) : Option (Bag α) := do
  let nodes ← bag.forward
  ((nodes.map bag.data).takeWhile Option.isSome).foldlM (fun self item => self.putInBag item) self

def renumber (nodes : List ℕ) (items : List (Option α)) (self : Bag α) : Bag α :=
  ((nodes.zip items).zipIdx).foldl (fun self node =>
    { self with
      index := Function.update self.index node.1.1 node.2
      data := Function.update self.data node.1.1 node.1.2 }) self

/-- `sort` is `qsort` with the comparer. -/
def sortBag (sort : List (Option α) → List (Option α)) (self : Bag α) : Option (Bag α) :=
  if self.count = 0 then some self
  else do
    let nodes ← self.forward
    pure (self.renumber nodes (sort (nodes.map self.data)))

def deleteTree : ℕ → ℕ → Bag α → Option (Bag α)
  | 0, _, _ => none
  | n + 1, node, self =>
    if node = nil then some self
    else do
      let self ← deleteTree n (self.left node) self
      deleteTree n (self.right node) (self.destroy node)

def emptyBag (self : Bag α) : Option (Bag α) := do
  let self ← deleteTree self.fuel self.links.root self
  pure { self with links := { self.links with root := nil }, count := 0 }

/-! What else is read. -/

/-- `WBNotFound` when there is none. -/
def getFirstInBag [DecidableEq α] (item : Option α) (self : Bag α) : Option ℤ := do
  let node ← self.treeFind item self.fuel self.links.root
  pure (if node ≠ nil then self.index node else notFound)

def treeCount [DecidableEq α] (self : Bag α) (item : Option α) : ℕ → ℕ → Option ℤ
  | 0, _ => none
  | n + 1, root =>
    if root = nil then some 0
    else do
      let left ← (if self.left root ≠ nil then treeCount self item n (self.left root) else some 0 : Option ℤ)
      let right ← (if self.right root ≠ nil then treeCount self item n (self.right root) else some 0 : Option ℤ)
      pure (wrap32 (wrap32 ((if self.data root = item then 1 else 0) + left) + right))

def countInBag [DecidableEq α] (item : Option α) (self : Bag α) : Option ℤ :=
  self.treeCount item self.fuel self.links.root

/-- `function` makes a new state of an item and the old one. -/
def mapTree {σ : Type} (self : Bag α) (function : Option α → σ → σ) : ℕ → ℕ → σ → Option σ
  | 0, _, _ => none
  | n + 1, node, data =>
    if node = nil then some data
    else do
      let data ← mapTree self function n (self.left node) data
      mapTree self function n (self.right node) (function (self.data node) data)

def mapBag {σ : Type} (function : Option α → σ → σ) (data : σ) (self : Bag α) : Option σ :=
  self.mapTree function self.fuel self.links.root data

def findInTree (self : Bag α) (function : Option α → Bool) : ℕ → ℕ → Option ℤ
  | 0, _ => none
  | n + 1, node =>
    if node = nil then some notFound
    else do
      let index ← findInTree self function n (self.left node)
      if index ≠ notFound then pure index
      else if function (self.data node) then pure (self.index node)
      else findInTree self function n (self.right node)

def findInBag (match? : Option α → Bool) (self : Bag α) : Option ℤ := self.findInTree match? self.fuel self.links.root

end Bag

end Xperimentum.WMcore.BagTree
