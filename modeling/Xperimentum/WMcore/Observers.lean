import Xperimentum.Lib.Partial

/-! The notification center: observers in linked lists of records, and posts that call them from lists that
the called observers may change. -/

namespace Xperimentum.WMcore.Observers

open Lib.Partial

abbrev Address := ℕ

/-- An action, and pointers to an observer, to a name and to an object. -/
structure Registration (A P N : Type) where
  observerAction : Option A
  observer : P
  name : Option N
  object : Option P

structure NotificationObserver (A P N : Type) extends Registration A P N where
  prev : Option Address
  next : Option Address
  nextAction : Option Address

/-- The lists: of a name's string, of an object, and of observers that catch everything. -/
inductive Slot (P S : Type)
  | name (string : S)
  | object (object : P)
  | catchAll
  deriving DecidableEq

/-- A record that is not there has been freed. The number of registrations made is the bound of the loops. -/
structure NotificationCenter (A P N S : Type) where
  record : Address → Option (NotificationObserver A P N)
  nameTable : S → Option Address
  objectTable : P → Option Address
  nilList : Option Address
  observerTable : P → Option Address
  registrations : ℕ

inductive Phase
  | names
  | objects
  | nils
  deriving DecidableEq

/-- A post in progress: the notification, the list it goes through and the next record, and whether it is in an
observer's action. What it has called and which registrations have been there since it began are its history. -/
structure Post (P N : Type) where
  name : N
  object : Option P
  phase : Phase
  cursor : Option Address
  calling : Bool
  called : List Address
  throughout : Address → Bool

structure State (A P N S : Type) where
  center : NotificationCenter A P N S
  posts : List (Post P N)

/-- `resume` is the next turn of the innermost post's loop; the address of an addition is the allocated one. -/
inductive Event (A P N : Type)
  | add (address : Address) (registration : Registration A P N)
  | remove (observer : P)
  | removeWithName (observer : P) (name : Option N) (object : Option P)
  | post (name : N) (object : Option P)
  | resume

variable {A P N S : Type} [DecidableEq P] [DecidableEq N] [DecidableEq S] (string : N → S)

def Registration.slot (r : Registration A P N) : Slot P S :=
  match r.name, r.object with
  | some name, _ => .name (string name)
  | none, some object => .object object
  | none, none => .catchAll

namespace NotificationCenter

variable (c : NotificationCenter A P N S)

def initial : NotificationCenter A P N S := ⟨fun _ => none, fun _ => none, fun _ => none, none, fun _ => none, 0⟩

def head : Slot P S → Option Address
  | .name s => c.nameTable s
  | .object o => c.objectTable o
  | .catchAll => c.nilList

def setHead (k : Slot P S) (a : Option Address) : NotificationCenter A P N S :=
  match k with
  | .name s => { c with nameTable := Function.update c.nameTable s a }
  | .object o => { c with objectTable := Function.update c.objectTable o a }
  | .catchAll => { c with nilList := a }

/-- A write to a record, if the pointer is not null. -/
def write (a : Option Address) (f : NotificationObserver A P N → NotificationObserver A P N) :
    Option (NotificationCenter A P N S) :=
  match a with
  | none => some c
  | some a => (c.record a).map fun r => { c with record := Function.update c.record a (some (f r)) }

def free (a : Address) : NotificationCenter A P N S := { c with record := Function.update c.record a none }

def addNotificationObserver (a : Address) (r : Registration A P N) : Option (NotificationCenter A P N S) := do
  let oRec : NotificationObserver A P N :=
    { r with prev := none, next := c.head (r.slot string), nextAction := c.observerTable r.observer }
  let c' := { c with
    record := Function.update c.record a (some oRec)
    observerTable := Function.update c.observerTable r.observer (some a)
    registrations := c.registrations + 1 }
  let c' ← c'.write oRec.next fun rec => { rec with prev := some a }
  return c'.setHead (r.slot string) (some a)

/-- A record is taken out of its list and freed. -/
def unlink (a : Address) (orec : NotificationObserver A P N) : Option (NotificationCenter A P N S) := do
  let c := if c.head (orec.slot string) = some a then c.setHead (orec.slot string) orec.next else c
  let c ← c.write orec.prev fun rec => { rec with next := orec.next }
  let c ← c.write orec.next fun rec => { rec with prev := orec.prev }
  return c.free a

def removeActions : ℕ → Option Address → NotificationCenter A P N S → Option (NotificationCenter A P N S)
  | _, none, c => some c
  | 0, some _, _ => none
  | fuel + 1, some a, c => do
    let orec ← c.record a
    removeActions fuel orec.nextAction (← c.unlink string a orec)

def removeNotificationObserver (observer : P) : Option (NotificationCenter A P N S) := do
  let c ← removeActions string c.registrations (c.observerTable observer) c
  return { c with observerTable := Function.update c.observerTable observer none }

def lastAction : ℕ → Address → Option Address
  | 0, _ => none
  | fuel + 1, p => do
    match (← c.record p).nextAction with
    | none => return p
    | some q => lastAction fuel q

/-- The list of the actions that are kept goes along, and ends in a null pointer. -/
def rebuildActions (name : Option N) (object : Option P) : ℕ → Option Address → Option Address →
    NotificationCenter A P N S → Option (Option Address × NotificationCenter A P N S)
  | _, none, newList, c => some (newList, c)
  | 0, some _, _, _ => none
  | fuel + 1, some a, newList, c => do
    let orec ← c.record a
    if orec.name = name ∧ orec.object = object then
      rebuildActions name object fuel orec.nextAction newList (← c.unlink string a orec)
    else
      let c ← c.write (some a) fun rec => { rec with nextAction := none }
      match newList with
      | none => rebuildActions name object fuel orec.nextAction (some a) c
      | some p =>
        let last ← c.lastAction c.registrations p
        let c ← c.write (some last) fun rec => { rec with nextAction := some a }
        rebuildActions name object fuel orec.nextAction newList c

def removeNotificationObserverWithName (observer : P) (name : Option N) (object : Option P) :
    Option (NotificationCenter A P N S) := do
  let first := c.observerTable observer
  let c := { c with observerTable := Function.update c.observerTable observer none }
  let (newList, c) ← rebuildActions string name object c.registrations first none c
  return { c with observerTable := Function.update c.observerTable observer newList }

end NotificationCenter

namespace Post

variable (f : Post P N)

def list : Option (Slot P S) :=
  match f.phase with
  | .names => some (.name (string f.name))
  | .objects => f.object.map .object
  | .nils => some .catchAll

/-- The test in front of the call; only the list of a name has observers of several objects. -/
def calls (r : Registration A P N) : Bool :=
  r.observerAction.isSome && (f.phase ≠ .names || r.object = none || f.object = none || r.object = f.object)

def callee (c : NotificationCenter A P N S) : Option Address :=
  f.cursor.filter fun a => (c.record a).any fun r => f.calls r.toRegistration

end Post

def control (posts : List (Post P N)) : Bool := posts.head?.all fun f => f.calling

/-- The registrations that are still there. -/
def kept (c : NotificationCenter A P N S) (posts : List (Post P N)) : List (Post P N) :=
  posts.map fun f => { f with throughout := fun a => f.throughout a && (c.record a).isSome }

/-- A post that is at the end of its last list returns to the observer that made it. -/
def resume (s : State A P N S) : List (Post P N) → Option (State A P N S)
  | [] => some s
  | f :: posts =>
    match f.cursor, f.phase with
    | some a, _ => do
      let orec ← s.center.record a
      let callee := f.callee s.center
      return { s with
        posts := { f with
          cursor := orec.next
          calling := callee.isSome
          called := f.called ++ callee.toList } :: posts }
    | none, .names =>
      some { s with
        posts := { f with
          phase := .objects
          cursor := f.object.bind s.center.objectTable
          calling := false } :: posts }
    | none, .objects =>
      some { s with
        posts := { f with
          phase := .nils
          cursor := s.center.nilList
          calling := false } :: posts }
    | none, .nils => some { s with posts := posts }

/-- There is no next state where a freed record is read. -/
def step (s : State A P N S) : Event A P N → Option (State A P N S)
  | .add a r => (s.center.addNotificationObserver string a r).map fun c => { s with center := c }
  | .remove observer =>
    (s.center.removeNotificationObserver string observer).map fun c => ⟨c, kept c s.posts⟩
  | .removeWithName observer name object =>
    (s.center.removeNotificationObserverWithName string observer name object).map fun c => ⟨c, kept c s.posts⟩
  | .post name object =>
    some { s with
      posts := ⟨name, object, .names, s.center.nameTable (string name), false, [],
        fun a => (s.center.record a).isSome⟩ :: s.posts }
  | .resume => resume s s.posts

def initial : State A P N S := ⟨.initial, []⟩

end Xperimentum.WMcore.Observers
