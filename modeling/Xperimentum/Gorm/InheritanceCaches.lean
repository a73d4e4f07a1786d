import Xperimentum.Gorm.ClassRenaming
import Xperimentum.Gorm.MemberReplacing
import Xperimentum.Gorm.MemberRemoving

/-! The filled lists over a whole run of edits and queries. -/

namespace Xperimentum.Gorm

open Lib.Hierarchies Relation ClassManager

variable {s t : ClassManager} {depth : ℕ}

inductive TableEdit where
  | addClass (className : Name) (superClassName : Option Name) (actions outlets : List Name) (isCustom : Bool)
  | addAction (action className : Name)
  | addOutlet (outlet className : Name)
  | replaceAction (oldAction newAction className : Name)
  | replaceOutlet (oldOutlet newOutlet className : Name)
  | removeAction (action className : Name)
  | removeOutlet (outlet className : Name)
  | setSuperClass (superclass subclass : Name)
  | rename (oldName newName : Name)
  | remove (className : Name)
  | query (kind : MemberKind) (className : Name)

def tableEdit (depth : ℕ) (s : ClassManager) : TableEdit → Option ClassManager
  | .addClass className superClassName actions outlets isCustom =>
    (addClassNamed depth s className superClassName actions outlets isCustom).map Prod.fst
  | .addAction action className => addAction depth s action className
  | .addOutlet outlet className => addOutlet depth s outlet className
  | .replaceAction oldAction newAction className => replaceAction depth s oldAction newAction className
  | .replaceOutlet oldOutlet newOutlet className => replaceOutlet depth s oldOutlet newOutlet className
  | .removeAction action className => removeAction depth s action className
  | .removeOutlet outlet className => removeOutlet depth s outlet className
  | .setSuperClass superclass subclass => (setSuperClassNamed depth s superclass subclass).map Prod.fst
  | .rename oldName newName => (renameClassNamed depth s oldName newName).map Prod.fst
  | .remove className => some (removeClassNamed s className)
  | .query kind className => (allMembersForClassNamed kind depth s className).map Prod.fst

/-- The edit comes to an end in the second state, and no class is above itself there. -/
def KeepsAcyclic (s : ClassManager) (e : TableEdit) (t : ClassManager) : Prop :=
  (∃ depth, tableEdit depth s e = some t) ∧ Acyclic t.superClassNameForClassNamed

/-- Queries are exact in every state of the run. -/
def StaysExact : ClassManager → List TableEdit → Prop
  | s, [] => QueriesExact s
  | s, e :: edits => QueriesExact s ∧ ∀ t, KeepsAcyclic s e t → StaysExact t edits

/-- What an edit needs so that the filled lists stay right. -/
def MayEdit (s : ClassManager) : TableEdit → Prop
  | .addClass className superClassName actions outlets _ => MayAdd s className superClassName actions outlets
  | .addAction _ className =>
    (s.isKnownClass className = true ∨ Unfilled s .action className) ∧
      (s.isKnownClass firstResponder = true ∨ Unfilled s .action firstResponder)
  | .addOutlet _ className => s.isKnownClass className = true ∨ Unfilled s .outlet className
  | .replaceAction oldAction newAction className =>
    Passed (s.members .action className) newAction ∨ MayReplace s .action oldAction newAction className
  | .replaceOutlet oldOutlet newOutlet className =>
    Passed (s.members .outlet className) newOutlet ∨ MayReplace s .outlet oldOutlet newOutlet className
  | .removeAction _ _ => s.superClassNameForClassNamed firstResponder = none
  | .removeOutlet _ _ => True
  | .setSuperClass superclass subclass => MayMove s superclass subclass
  | .rename oldName newName => MayRename s oldName newName
  | .remove className => MayRemove s className
  | .query _ _ => True

def MayRun : ClassManager → List TableEdit → Prop
  | _, [] => True
  | s, e :: edits => MayEdit s e ∧ ∀ t, KeepsAcyclic s e t → MayRun t edits

lemma ListsRight.tableEdit (hs : ListsRight s) (ha : Acyclic s.superClassNameForClassNamed) {e : TableEdit}
    (hmay : MayEdit s e) (h : KeepsAcyclic s e t) : ListsRight t := by
  obtain ⟨⟨depth, h⟩, ht⟩ := h
  cases e with
  | addClass className superClassName actions outlets isCustom =>
    obtain ⟨⟨u, result⟩, hu, rfl⟩ := Option.map_eq_some_iff.mp h
    exact hs.addClass ha ht hmay hu
  | addAction action className => exact hs.addAction hmay.1 hmay.2 h
  | addOutlet outlet className => exact hs.addOutlet hmay h
  | replaceAction oldAction newAction className => exact hs.replaceMember ha hmay h
  | replaceOutlet oldOutlet newOutlet className => exact hs.replaceMember ha hmay h
  | removeAction action className => exact hs.removeMember ha (fun _ => hmay) h
  | removeOutlet outlet className =>
    have hfirst : FirstAlone s .outlet := fun hkind => nomatch hkind
    exact hs.removeMember ha hfirst h
  | setSuperClass superclass subclass =>
    obtain ⟨⟨u, result⟩, hu, rfl⟩ := Option.map_eq_some_iff.mp h
    exact hs.setSuper ht hmay hu
  | rename oldName newName =>
    obtain ⟨⟨u, result⟩, hu, rfl⟩ := Option.map_eq_some_iff.mp h
    exact hs.rename ha hmay hu
  | remove className => exact Option.some.inj h ▸ hs.remove hmay
  | query kind className =>
    obtain ⟨⟨u, result⟩, hu, rfl⟩ := Option.map_eq_some_iff.mp h
    exact hs.query ha hu

/-- Where the lists are right at first and every edit is one of these, queries stay exact. -/
theorem staysExact (s : ClassManager) (edits : List TableEdit) (ha : Acyclic s.superClassNameForClassNamed)
    (hs : ListsRight s) (hmay : MayRun s edits) : StaysExact s edits := by
  induction edits generalizing s with
  | nil => exact hs.queriesExact ha
  | cons e edits ih =>
    obtain ⟨hmay, hrest⟩ := hmay
    exact ⟨hs.queriesExact ha, fun t ht => ih t ht.2 (hs.tableEdit ha hmay ht) (hrest t ht)⟩

/-! A class `C` below `B`, and another class `A` with an outlet. -/

def threeClasses : ClassManager where
  classInformation :=
    (((∅ : ClassTable).insert ['A'] { outlets := { own := some [['x']] } }).insert ['B'] {}).insert ['C']
      { superName := some ['B'] }

lemma classInfo_threeClasses (c : Name) : threeClasses.classInfo c =
    if c = ['C'] then some { superName := some ['B'] }
    else if c = ['B'] then some {}
    else if c = ['A'] then some { outlets := { own := some [['x']] } }
    else none := by
  rw [ClassManager.classInfo, threeClasses]
  split
  · next hc => rw [hc, AList.lookup_insert]
  · next hc =>
    rw [AList.lookup_insert_ne hc]
    split
    · next hc => rw [hc, AList.lookup_insert]
    · next hc =>
      rw [AList.lookup_insert_ne hc]
      split
      · next hc => rw [hc, AList.lookup_insert]
      · next hc => rw [AList.lookup_insert_ne hc, AList.lookup_empty]

lemma super_threeClasses (c : Name) :
    threeClasses.superClassNameForClassNamed c = if c = ['C'] then some ['B'] else none := by
  rw [superClassNameForClassNamed, classInfo_threeClasses]
  split
  · rfl
  · split
    · rfl
    · split
      · rfl
      · rfl

lemma forest_threeClasses : Forest threeClasses := by
  refine ⟨acyclic_of_rank (fun c => if c = ['C'] then 1 else 0) fun a b hab => ?_, fun c p hc => ?_⟩
  · rw [super_threeClasses] at hab
    split at hab
    · next ha =>
      obtain rfl := Option.some.inj hab
      rw [if_pos ha]
      decide
    · cases hab
  · rw [super_threeClasses] at hc
    split at hc
    · obtain rfl := Option.some.inj hc
      decide
    · cases hc

lemma listsRight_threeClasses : ListsRight threeClasses := by
  have hmembers (kind : MemberKind) (c : Name) : (threeClasses.members kind c).all = none ∧
      ((threeClasses.members kind c).own.getD []).Nodup := by
    rw [ClassManager.members, classInfo_threeClasses]
    split
    · cases kind <;> exact ⟨rfl, List.nodup_nil⟩
    · split
      · cases kind <;> exact ⟨rfl, List.nodup_nil⟩
      · split
        · cases kind
          · exact ⟨rfl, List.nodup_nil⟩
          · exact ⟨rfl, List.nodup_singleton _⟩
        · exact ⟨rfl, List.nodup_nil⟩
  refine ⟨fun kind c all hall => ?_, fun kind c _ _ => (hmembers kind c).2⟩
  rw [(hmembers kind c).1] at hall
  cases hall

theorem staysExact_removed : StaysExact threeClasses [.query .outlet ['C'], .removeOutlet ['x'] ['A']] :=
  staysExact threeClasses [.query .outlet ['C'], .removeOutlet ['x'] ['A']] forest_threeClasses.acyclic
    listsRight_threeClasses ⟨trivial, fun _ _ => ⟨trivial, fun _ _ => trivial⟩⟩

def asked : ClassManager := ((tableEdit 5 threeClasses (.query .outlet ['C'])).getD threeClasses)

def movedB : ClassManager := (tableEdit 5 asked (.setSuperClass ['A'] ['B'])).getD asked

/-- What the model computes about these tables. -/
lemma computed :
    (allMembersForClassNamed .outlet 5 threeClasses ['C']).map Prod.snd = some (some []) ∧
      (setSuperClassNamed 5 asked ['A'] ['B']).map Prod.snd = some true ∧
        (allMembersForClassNamed .outlet 5 movedB ['C']).map Prod.snd = some (some []) ∧
          ['x'] ∈ (movedB.members .outlet ['A']).own.getD [] ∧ movedB.parent .outlet ['B'] = some ['A'] ∧
            movedB.parent .outlet ['C'] = some ['B'] := by
  decide +kernel

lemma query_asked : allMembersForClassNamed .outlet 5 threeClasses ['C'] = some (asked, some []) := by
  obtain ⟨⟨t, answer⟩, hquery, rfl⟩ := Option.map_eq_some_iff.mp computed.1
  rw [asked, tableEdit, hquery, Option.map_some, Option.getD_some]

lemma setSuper_movedB : setSuperClassNamed 5 asked ['A'] ['B'] = some (movedB, true) := by
  obtain ⟨⟨t, done⟩, hset, rfl⟩ := Option.map_eq_some_iff.mp computed.2.1
  rw [movedB, tableEdit, hset, Option.map_some, Option.getD_some]

/-- The list of a class below the one that gets another superclass is kept. -/
theorem movedB_stale : ¬∀ s edits, Acyclic s.superClassNameForClassNamed → ListsRight s → StaysExact s edits := by
  intro h
  have hasked : Forest asked := forest_threeClasses.of_sameClasses (sameClasses_allMembers query_asked)
  have hmoved : Forest movedB :=
    (forest_setSuper hasked setSuper_movedB).mpr fun _ => ⟨by decide +kernel, by decide +kernel⟩
  have hfirst : tableEdit 5 threeClasses (.query .outlet ['C']) = some asked := by
    rw [tableEdit, query_asked, Option.map_some]
  have hsecond : tableEdit 5 asked (.setSuperClass ['A'] ['B']) = some movedB := by
    rw [tableEdit, setSuper_movedB, Option.map_some]
  obtain ⟨-, hall⟩ := h threeClasses [.query .outlet ['C'], .setSuperClass ['A'] ['B']]
    forest_threeClasses.acyclic listsRight_threeClasses
  obtain ⟨-, hall⟩ := hall asked ⟨⟨5, hfirst⟩, hasked.acyclic⟩
  have hexact := hall movedB ⟨⟨5, hsecond⟩, hmoved.acyclic⟩
  obtain ⟨-, -, hempty, hdefines, hparentB, hparentC⟩ := computed
  obtain ⟨⟨t, answer⟩, hanswer, rfl⟩ := Option.map_eq_some_iff.mp hempty
  -- The class `C` is two below `A`, whose outlet it should have.
  have hA : movedB.Inherits .outlet ['A'] ['x'] := .own (.inl hdefines)
  have hB : movedB.Inherits .outlet ['B'] ['x'] := .super hparentB hA
  have hx : movedB.Inherits .outlet ['C'] ['x'] := .super hparentC hB
  exact absurd (((hexact.answer .outlet ['C'] 5 t [] hanswer).2 ['x']).mpr hx) List.not_mem_nil

end Xperimentum.Gorm
