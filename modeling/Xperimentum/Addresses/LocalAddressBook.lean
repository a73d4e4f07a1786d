import Mathlib.Tactic
import Xperimentum.Lib.Partial

/-! `ADLocalAddressBook`: records, the groups they are members of, and their removal. A call that does not come back
has no result, however much fuel it is given. -/

namespace Xperimentum.Addresses

structure Record (Id : Type) where
  isGroup : Bool
  memberIds : List Id
  toplevel : Bool

/-- The ids of the record files, the changed records and the deleted ones. -/
structure AddressBook (Id : Type) where
  files : List Id
  unsaved : List Id
  deleted : List Id
  record : Id → Record Id

variable {Id : Type} [DecidableEq Id]

namespace AddressBook

/-- `recordForUniqueId:` finds a record. -/
def holds (b : AddressBook Id) (uid : Id) : Bool := uid ∉ b.deleted && (uid ∈ b.unsaved || uid ∈ b.files)

def isToplevelGroup (b : AddressBook Id) (uid : Id) : Bool := (b.record uid).isGroup && (b.record uid).toplevel

/-- A changed record is among them even if it is deleted. -/
def groups (b : AddressBook Id) : List Id :=
  let ppl := b.files.filter fun uid => b.holds uid && b.isToplevelGroup uid
  ppl ++ b.unsaved.filter fun uid => uid ∉ ppl && b.isToplevelGroup uid

def setMemberIds (b : AddressBook Id) (group : Id) (memberIds : List Id) : AddressBook Id :=
  { b with record := Function.update b.record group { b.record group with memberIds := memberIds } }

/-- `setValue:forProperty:` also makes the record one of the changed ones. -/
def setValue (b : AddressBook Id) (group : Id) (memberIds : List Id) : AddressBook Id :=
  { b.setMemberIds group memberIds with unsaved := if group ∈ b.unsaved then b.unsaved else b.unsaved ++ [group] }

/-- Members that there is no record for are taken out of the list on the way. -/
def subgroupsForGroup (b : AddressBook Id) (group : Id) : List Id × AddressBook Id :=
  let memberIds := (b.record group).memberIds.filter b.holds
  (memberIds.filter fun uid => (b.record uid).isGroup, b.setMemberIds group memberIds)

/-- `_allSubgroupsBelowGroup:`. -/
def allSubgroupsBelowGroup : ℕ → AddressBook Id → Id → Option (List Id × AddressBook Id)
  | 0, _, _ => none
  | n + 1, b, group =>
    (b.subgroupsForGroup group).1.foldlM (fun s otherGroup =>
      (allSubgroupsBelowGroup n s.2 otherGroup).map fun found => (s.1 ++ otherGroup :: found.1, found.2))
      ([], (b.subgroupsForGroup group).2)

def allGroupsEverywhere (n : ℕ) (b : AddressBook Id) : Option (List Id × AddressBook Id) :=
  b.groups.foldlM (fun s group =>
    (allSubgroupsBelowGroup n s.2 group).map fun found => (s.1 ++ group :: found.1, found.2)) ([], b)

def parentGroupsForGroup (n : ℕ) (b : AddressBook Id) (group : Id) : Option (List Id × AddressBook Id) :=
  (allGroupsEverywhere n b).map fun found =>
    (found.1.filter fun g => group ∈ (found.2.record g).memberIds, found.2)

section Removal

-- What the flag holds when nothing has been assigned to it.
variable (doneAnything : AddressBook Id → Id → Bool)

def removeMemberId (b : AddressBook Id) (uid group : Id) : AddressBook Id :=
  let memberIds := (b.record group).memberIds
  if uid ∈ memberIds || doneAnything b group then b.setValue group (memberIds.filter (· ≠ uid)) else b

/-- `removeRecord:forGroup:recursive:`, which goes on with the same group for each of its subgroups. -/
def removeRecordForGroup : ℕ → AddressBook Id → Id → Id → Bool → Option (AddressBook Id)
  | 0, _, _, _, _ => none
  | n + 1, b, uid, group, recursive =>
    let b := removeMemberId doneAnything b uid group
    if recursive then
      (b.subgroupsForGroup group).1.foldlM (fun b _ => removeRecordForGroup n b uid group true)
        (b.subgroupsForGroup group).2
    else some b

/-- `removeSubgroup:forGroup:`. A group without a parent group is deleted. -/
def removeSubgroup : ℕ → AddressBook Id → Id → Id → Option (AddressBook Id)
  | 0, _, _, _ => none
  | n + 1, b, g1, g2 => do
    let b ← (b.subgroupsForGroup g1).1.foldlM (fun b g => removeSubgroup n b g g1) (b.subgroupsForGroup g1).2
    let parents ← parentGroupsForGroup n (removeMemberId doneAnything b g1 g2) g1
    return if parents.1 = [] then { parents.2 with deleted := g1 :: parents.2.deleted } else parents.2

def removeSubgroups : ℕ → AddressBook Id → Id → Option (AddressBook Id)
  | 0, _, _ => none
  | n + 1, b, group =>
    match (b.subgroupsForGroup group).1 with
    | [] => some (b.subgroupsForGroup group).2
    | g :: _ => (removeSubgroup doneAnything n (b.subgroupsForGroup group).2 g group).bind fun b =>
        removeSubgroups n b group

def removeRecord (n : ℕ) (b : AddressBook Id) (uid : Id) : Option (AddressBook Id) :=
  let b := { b with unsaved := b.unsaved.filter (· ≠ uid) }
  (if (b.record uid).isGroup then removeSubgroups doneAnything n b uid else some b).bind fun b =>
    let b := { b with deleted := uid :: b.deleted }
    b.groups.foldlM (fun b g => removeRecordForGroup doneAnything n b uid g true) b

end Removal

end AddressBook

end Xperimentum.Addresses
