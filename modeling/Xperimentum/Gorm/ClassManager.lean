import Mathlib

/-! The class table of a document: classes, their superclasses, and the lists of actions and outlets. -/

namespace Xperimentum.Gorm

abbrev Name := List Char

def firstResponder : Name := ['F', 'i', 'r', 's', 't', 'R', 'e', 's', 'p', 'o', 'n', 'd', 'e', 'r']

def application : Name := ['N', 'S', 'A', 'p', 'p', 'l', 'i', 'c', 'a', 't', 'i', 'o', 'n']

inductive MemberKind where
  | action
  | outlet
  deriving DecidableEq

/-- `Actions`, `ExtraActions` and `AllActions` of a class, or the same for outlets. -/
structure Members where
  own : Option (List Name) := none
  extra : Option (List Name) := none
  all : Option (List Name) := none
  deriving DecidableEq

structure ClassInfo where
  superName : Option Name := none
  actions : Members := {}
  outlets : Members := {}
  deriving DecidableEq

def ClassInfo.members (info : ClassInfo) : MemberKind → Members
  | .action => info.actions
  | .outlet => info.outlets

def ClassInfo.setMembers (info : ClassInfo) (kind : MemberKind) (members : Members) : ClassInfo :=
  match kind with
  | .action => { info with actions := members }
  | .outlet => { info with outlets := members }

/-- The class below another superclass, without the lists that it had from the old one. -/
def ClassInfo.inherit (info : ClassInfo) (superclass : Name) : ClassInfo :=
  { superName := some superclass
    actions := { info.actions with all := none }
    outlets := { info.outlets with all := none } }

abbrev ClassTable := AList fun _ : Name => ClassInfo

structure ClassManager where
  classInformation : ClassTable
  customClasses : List Name := []
  categoryClasses : List Name := []
  customClassMap : AList (fun _ : Name => Name) := ∅
  ownerClassName : Name := application

/-! Arrays of names. -/

def lowercase (name : Name) : Name := name.map Char.toLower

def sortByCompare (names : List Name) : List Name := names.insertionSort fun a b => a ≤ b

def sortCaseInsensitive (names : List Name) : List Name := names.insertionSort fun a b => lowercase a ≤ lowercase b

def mergeObject (array : List Name) (object : Name) : List Name :=
  if object ∈ array then array else sortByCompare (array ++ [object])

/-- Merging from nil adds nothing. -/
def mergeObjectsFromArray (array : List Name) (objects : Option (List Name)) : List Name :=
  (objects.getD []).foldl mergeObject array

def removeObjectsInArray (array : List Name) (objects : Option (List Name)) : List Name :=
  array.filter fun object => object ∉ objects.getD []

namespace ClassManager

variable (s : ClassManager)

def classInfo (className : Name) : Option ClassInfo := s.classInformation.lookup className

def isKnownClass (className : Name) : Bool := (s.classInfo className).isSome

/-- The dictionary of a class, changed in place. -/
def modify (className : Name) (change : ClassInfo → ClassInfo) : ClassManager :=
  match s.classInfo className with
  | none => s
  | some info => { s with classInformation := s.classInformation.replace className (change info) }

def setAll (kind : MemberKind) (className : Name) (all : List Name) : ClassManager :=
  s.modify className fun info => info.setMembers kind { info.members kind with all := some all }

def isCustomClass (className : Name) : Bool := className ∈ s.customClasses

def isNonCustomClass (className : Name) : Bool := !s.isCustomClass className

def superClassNameForClassNamed (className : Name) : Option Name := (s.classInfo className).bind ClassInfo.superName

/-- A class name of nil, an unknown class and a class without a superclass all count. -/
def isRootClass (className : Option Name) : Bool := (className.bind s.superClassNameForClassNamed).isNone

/-! The queries that follow superclasses or subclasses give no result where the depth is not enough. -/

@[grind =] def isSuperclassLinkedToClass (superclass : Name) : ℕ → Option Name → Option Bool
  | 0, _ => none
  | _ + 1, none => some false
  | depth + 1, some subclass =>
    let ssclass := s.superClassNameForClassNamed subclass
    if ssclass = some superclass then some true else isSuperclassLinkedToClass superclass depth ssclass

def allSuperClassesOf : ℕ → Name → Option (List Name)
  | 0, _ => none
  | depth + 1, className =>
    match s.superClassNameForClassNamed className with
    | none => some []
    | some superName => (allSuperClassesOf depth superName).map (· ++ [superName])

@[grind =] def allSubclassesInto (classList : List Name) : ℕ → Option Name → Option (List Name)
  | 0, _ => none
  | depth + 1, superclass =>
    (classList.mapM fun object =>
      if s.superClassNameForClassNamed object = superclass then
        (allSubclassesInto classList depth (some object)).map (object :: ·)
      else some []).map List.flatten

def allSubclassesOf (depth : ℕ) (superClass : Option Name) : Option (List Name) :=
  (s.allSubclassesInto s.classInformation.keys depth superClass).map sortCaseInsensitive

def subClassesOf (superclass : Option Name) : List Name :=
  sortCaseInsensitive
    (s.classInformation.keys.filter fun object => s.superClassNameForClassNamed object = superclass)

end ClassManager

/-- What a class has with its inherited members; the own list is copied as it is where nothing is inherited. -/
def combine (members : Members) : Option (List Name) → List Name
  | none => mergeObjectsFromArray (members.own.getD []) members.extra
  | some superMembers => mergeObjectsFromArray (mergeObjectsFromArray superMembers members.own) members.extra

/-- `allActionsForClassNamed` and `allOutletsForClassNamed`. Nothing is inherited by the first responder's actions. -/
@[grind =] def allMembersForClassNamed (kind : MemberKind) :
    ℕ → ClassManager → Name → Option (ClassManager × Option (List Name))
  | 0, _, _ => none
  | depth + 1, s, className =>
    match s.classInfo className with
    | none => some (s, none)
    | some info =>
      match (info.members kind).all with
      | some all => some (s, some all)
      | none =>
        let inherited : Option (ClassManager × Option (List Name)) :=
          match info.superName with
          | none => some (s, none)
          | some superName =>
            if kind = .action ∧ className = firstResponder then some (s, none)
            else allMembersForClassNamed kind depth s superName
        inherited.map fun (s, superMembers) =>
          let all := combine (info.members kind) superMembers
          (s.setAll kind className all, some all)

def allActionsForClassNamed : ℕ → ClassManager → Name → Option (ClassManager × Option (List Name)) :=
  allMembersForClassNamed .action

def allOutletsForClassNamed : ℕ → ClassManager → Name → Option (ClassManager × Option (List Name)) :=
  allMembersForClassNamed .outlet

/-- For nil there is no answer. -/
def allMembersForSuperClass (kind : MemberKind) (depth : ℕ) (s : ClassManager) :
    Option Name → Option (ClassManager × Option (List Name))
  | none => some (s, none)
  | some superClassName => allMembersForClassNamed kind depth s superClassName

/-! Adding members. -/

/-- What `addAction` and `addOutlet` share: the class, then `mirror`, then its subclasses. -/
def addMember (kind : MemberKind) (mirror : ClassManager → Option ClassManager) (depth : ℕ) (s : ClassManager)
    (member className : Name) : Option ClassManager :=
  (s.allSubclassesOf depth (some className)).bind fun subClasses =>
    let members := ((s.classInfo className).map (·.members kind)).getD {}
    if member ∈ members.all.getD [] then some s
    else
      let s :=
        if kind = .action ∧ s.isNonCustomClass className ∧ className ∉ s.categoryClasses then
          { s with categoryClasses := s.categoryClasses ++ [className] }
        else s
      let s := s.modify className fun info =>
        info.setMembers kind
          { info.members kind with
            extra := some (mergeObject (members.extra.getD []) member)
            all := members.all.map fun all => mergeObject all member }
      (mirror s).map fun s =>
        subClasses.foldl (fun s subclassName =>
          s.modify subclassName fun info =>
            info.setMembers kind
              { info.members kind with all := (info.members kind).all.map fun all => mergeObject all member }) s

def addAction (depth : ℕ) (s : ClassManager) (action className : Name) : Option ClassManager :=
  addMember .action
    (fun s => if className = firstResponder then some s else addMember .action some depth s action firstResponder)
    depth s action className

def addOutlet (depth : ℕ) (s : ClassManager) (outlet className : Name) : Option ClassManager :=
  addMember .outlet some depth s outlet className

/-! Editing the table of classes. -/

def addClassNamed (depth : ℕ) (s : ClassManager) (className : Name) (superClassName : Option Name)
    (actions outlets : List Name) (isCustom : Bool) : Option (ClassManager × Bool) :=
  if s.isRootClass superClassName = true ∨
      ∃ superName ∈ superClassName, s.isKnownClass superName = true ∧ superName ≠ firstResponder then
    if s.isKnownClass className then some (s, false)
    else
      (allMembersForSuperClass .action depth s superClassName).bind fun (s, superActions) =>
      (allMembersForSuperClass .outlet depth s superClassName).bind fun (s, superOutlets) =>
        let actions := removeObjectsInArray actions superActions
        let outlets := removeObjectsInArray outlets superOutlets
        let classInfo : ClassInfo :=
          { superName := superClassName, actions := { own := some actions }, outlets := { own := some outlets } }
        let s := { s with
          classInformation := s.classInformation.insert className classInfo
          customClasses := if isCustom then s.customClasses ++ [className] else s.customClasses }
        (actions.foldlM (fun s action => addAction depth s action firstResponder) s).map fun s => (s, true)
  else some (s, false)

def setSuperClassNamed (depth : ℕ) (s : ClassManager) (superclass subclass : Name) : Option (ClassManager × Bool) :=
  if s.isKnownClass subclass = true ∧ (s.isKnownClass superclass = true ∨ s.isRootClass (some superclass) = true) then
    (s.isSuperclassLinkedToClass subclass depth (some superclass)).bind fun linked =>
      if linked then some (s, false)
      else
        let s := s.modify subclass fun info => info.inherit superclass
        (allActionsForClassNamed depth s subclass).bind fun (s, _) =>
        (allOutletsForClassNamed depth s subclass).map fun (s, _) => (s, true)
  else some (s, false)

def removeClassNamed (s : ClassManager) (className : Name) : ClassManager :=
  let s :=
    if s.isCustomClass className then
      { s with
        customClasses := s.customClasses.filter (· ≠ className)
        customClassMap :=
          (s.customClassMap.keys.filter fun object => s.customClassMap.lookup object = some className).foldl
            (fun map object => map.erase object) s.customClassMap
        ownerClassName := if className = s.ownerClassName then application else s.ownerClassName }
    else s
  { s with classInformation := s.classInformation.erase className }

/-- The subclasses get the new name only where the class is a custom one. -/
def renameClassNamed (depth : ℕ) (s : ClassManager) (oldName newName : Name) : Option (ClassManager × Bool) :=
  match s.classInfo oldName with
  | none => some (s, false)
  | some classInfo =>
    if s.isKnownClass newName then some (s, false)
    else
      let subclasses := s.subClassesOf (some oldName)
      let s := { s with classInformation := (s.classInformation.erase oldName).insert newName classInfo }
      if s.isCustomClass oldName then
        let s := { s with
          customClasses := s.customClasses.replace oldName newName
          customClassMap :=
            (s.customClassMap.keys.filter fun object => s.customClassMap.lookup object = some oldName).foldl
              (fun map object => map.replace object newName) s.customClassMap }
        (subclasses.foldlM (fun s sc => (setSuperClassNamed depth s newName sc).map Prod.fst) s).map fun s => (s, true)
      else some (s, true)

/-- An entry of a file of classes; comments and version numbers are strings. -/
inductive ClassEntry where
  | dictionary (classDict : ClassInfo)
  | text (value : Name)
  deriving DecidableEq

def loadCategory (s : ClassManager) (key : Name) (info classDict : ClassInfo) : ClassManager :=
  let actions :=
    match info.actions.own with
    | none => classDict.actions.own.getD []
    | some _ => removeObjectsInArray (classDict.actions.own.getD []) info.actions.own
  let s :=
    match info.actions.own with
    | none => s
    | some origActions => s.setAll .action key (origActions ++ actions)
  if actions.length > 0 then
    { s.modify key fun info => { info with actions := { info.actions with extra := some actions } } with
      categoryClasses := s.categoryClasses ++ [key] }
  else s

def loadEntry (s : ClassManager) (key : Name) : ClassEntry → ClassManager
  | .text _ => s
  | .dictionary classDict =>
    match s.classInfo key with
    | none =>
      { s with
        customClasses := s.customClasses ++ [key]
        classInformation := s.classInformation.insert key classDict }
    | some info => loadCategory s key info classDict

def loadCustomClassesWithDict (s : ClassManager) (dict : AList fun _ : Name => ClassEntry) : ClassManager :=
  dict.entries.foldl (fun s e => loadEntry s e.1 e.2) s

section MemberEdits

open ClassManager

def Members.replace (members : Members) (oldMember newMember : Name) : Members where
  own := members.own.map fun own => own.replace oldMember newMember
  extra := members.extra.map fun extra => extra.replace oldMember newMember
  all := members.all.map fun all => all.replace oldMember newMember

def ClassManager.members (s : ClassManager) (kind : MemberKind) (className : Name) : Members :=
  ((s.classInfo className).map (·.members kind)).getD {}

/-- The lists of one class, changed in place. -/
def ClassManager.modifyMembers (s : ClassManager) (kind : MemberKind) (className : Name)
    (change : Members → Members) : ClassManager :=
  s.modify className fun info => info.setMembers kind (change (info.members kind))

/-- `replaceAction` and `replaceOutlet`: the class, its subclasses, and for actions the first responder. -/
def replaceMember (kind : MemberKind) (oldMember newMember : Name) :
    ℕ → ClassManager → Name → Option ClassManager
  | 0, _, _ => none
  | depth + 1, s, className =>
    let members := s.members kind className
    if newMember ∈ members.all.getD [] ∨ newMember ∈ members.extra.getD [] then some s
    else
      let subclasses := s.subClassesOf (some className)
      let s := s.modifyMembers kind className fun members => members.replace oldMember newMember
      (subclasses.foldlM (replaceMember kind oldMember newMember depth) s).bind fun s =>
        if kind = .action ∧ className ≠ firstResponder then
          replaceMember kind oldMember newMember depth s firstResponder
        else some s

def replaceAction (depth : ℕ) (s : ClassManager) (oldAction newAction className : Name) : Option ClassManager :=
  replaceMember .action oldAction newAction depth s className

def replaceOutlet (depth : ℕ) (s : ClassManager) (oldOutlet newOutlet className : Name) : Option ClassManager :=
  replaceMember .outlet oldOutlet newOutlet depth s className

def Members.remove (members : Members) (member : Name) : Members where
  own := members.own.map fun own => own.filter (· ≠ member)
  extra := members.extra
  all := members.all.map fun all => all.filter (· ≠ member)

def Members.removeExtra (members : Members) (member : Name) : Members :=
  { members with extra := members.extra.map fun extra => extra.filter (· ≠ member) }

/-- The part of `removeAction` and `removeOutlet` that is about the class itself. -/
def removeFromClass (kind : MemberKind) (member : Name) (depth : ℕ) (s : ClassManager) (className : Name) :
    Option ClassManager :=
  let members := s.members kind className
  if member ∈ members.extra.getD [] ∨ member ∈ members.all.getD [] then
    (allMembersForSuperClass kind depth s (s.superClassNameForClassNamed className)).map fun (s, superMembers) =>
      let s :=
        if member ∈ superMembers.getD [] then s
        else s.modifyMembers kind className fun members => members.remove member
      s.modifyMembers kind className fun members => members.removeExtra member
  else some s

def dropCategory (s : ClassManager) (kind : MemberKind) (className : Name) : ClassManager :=
  if kind = .action ∧ className ∈ s.categoryClasses ∧ (s.members kind className).extra.getD [] = [] then
    { s with categoryClasses := s.categoryClasses.filter (· ≠ className) }
  else s

/-- `removeAction` and `removeOutlet`: the class, for actions the first responder, and the subclasses. -/
def removeMember (kind : MemberKind) (member : Name) : ℕ → ClassManager → Name → Option ClassManager
  | 0, _, _ => none
  | depth + 1, s, className =>
    let subclasses := s.subClassesOf (some className)
    (removeFromClass kind member depth s className).bind fun s =>
      let s := dropCategory s kind className
      (if kind = .action ∧ className ≠ firstResponder then removeMember kind member depth s firstResponder
        else some s).bind fun s =>
        subclasses.foldlM (removeMember kind member depth) s

def removeAction (depth : ℕ) (s : ClassManager) (action className : Name) : Option ClassManager :=
  removeMember .action action depth s className

def removeOutlet (depth : ℕ) (s : ClassManager) (outlet className : Name) : Option ClassManager :=
  removeMember .outlet outlet depth s className

end MemberEdits

end Xperimentum.Gorm
