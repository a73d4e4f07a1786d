import Mathlib.Tactic
import Xperimentum.Lib.Runs

/-! The visible messages of a folder, which are kept between two changes of the folder. -/

namespace Xperimentum.Pantomime.FolderCache

open Lib.Runs

structure Flags where
  deleted : Bool
  seen : Bool

/-- The messages `Message` are objects, and `flags` are the flags they have at the moment. -/
structure Folder (Message : Type) where
  allMessages : Option (List Message)
  allVisibleMessages : Option (List Message)
  showDeleted : Bool
  showRead : Bool
  flags : Message → Flags

variable {Message : Type} [DecidableEq Message]

def initWithName (flags : Message → Flags) : Folder Message := ⟨some [], none, false, true, flags⟩

def updateCache (f : Folder Message) : Folder Message := { f with allVisibleMessages := none }

/-- A message that is `nil` is not appended. -/
def appendMessage (theMessage : Option Message) (f : Folder Message) : Folder Message :=
  match theMessage with
  | none => f
  | some m =>
    { f with
      allMessages := f.allMessages.map (· ++ [m]), allVisibleMessages := f.allVisibleMessages.map (· ++ [m]) }

def removeObject (m : Message) (messages : List Message) : List Message := messages.filter (· ≠ m)

def removeMessage (theMessage : Option Message) (f : Folder Message) : Folder Message :=
  match theMessage with
  | none => f
  | some m =>
    { f with
      allMessages := f.allMessages.map (removeObject m)
      allVisibleMessages := f.allVisibleMessages.map (removeObject m) }

def setMessages (theMessages : Option (List Message)) (f : Folder Message) : Folder Message :=
  { f with allMessages := theMessages, allVisibleMessages := none }

def setShowDeleted (b : Bool) (f : Folder Message) : Folder Message :=
  if b ≠ f.showDeleted then { f with showDeleted := b, allVisibleMessages := none } else f

def setShowRead (b : Bool) (f : Folder Message) : Folder Message :=
  if b ≠ f.showRead then { f with showRead := b, allVisibleMessages := none } else f

def addOnce (m : Message) (visible : List Message) : List Message :=
  if m ∈ visible then visible else visible ++ [m]

/-- One message of the loop in `allMessages`. -/
def showOrHide (f : Folder Message) (visible : List Message) (m : Message) : List Message :=
  if !f.showDeleted && (f.flags m).deleted then visible
  else
    let visible := visible ++ [m]
    if f.showRead then addOnce m visible
    else if (f.flags m).seen then
      if !(f.flags m).deleted then removeObject m visible else visible
    else addOnce m visible

def visibleMessages (f : Folder Message) : List Message :=
  match f.allVisibleMessages with
  | some visible => visible
  | none =>
    if f.showDeleted && f.showRead then f.allMessages.getD []
    else (f.allMessages.getD []).foldl (showOrHide f) []

/-- `allMessages`, which also answers `count` and `messageAtIndex:`. -/
def allMessages (f : Folder Message) : Folder Message :=
  { f with allVisibleMessages := some (visibleMessages f) }

inductive Event (Message : Type)
  | appendMessage (theMessage : Option Message)
  | removeMessage (theMessage : Option Message)
  | setMessages (theMessages : Option (List Message))
  | setShowDeleted (b : Bool)
  | setShowRead (b : Bool)
  /-- Flags change, and `updateCache` is called. -/
  | changeFlags (flags : Message → Flags)
  | allMessages

def step (f : Folder Message) : Event Message → Folder Message
  | .appendMessage theMessage => appendMessage theMessage f
  | .removeMessage theMessage => removeMessage theMessage f
  | .setMessages theMessages => setMessages theMessages f
  | .setShowDeleted b => setShowDeleted b f
  | .setShowRead b => setShowRead b f
  | .changeFlags flags => updateCache { f with flags := flags }
  | .allMessages => allMessages f

/-- A message that is deleted is shown with the deleted ones, read or not. -/
def isShown (f : Folder Message) (m : Message) : Bool :=
  if (f.flags m).deleted then f.showDeleted else f.showRead || !(f.flags m).seen

/-- While the list of the visible messages is kept, no message is appended that is not to be shown, and
there are messages at all. -/
def Appends (f : Folder Message) : Event Message → Prop
  | .appendMessage (some m) => f.allVisibleMessages = none ∨ f.allMessages.isSome = true ∧ isShown f m = true
  | _ => True

variable {f : Folder Message} {m : Message} {visible : List Message}

section Rebuilding

lemma addOnce_last (m : Message) (visible : List Message) : addOnce m (visible ++ [m]) = visible ++ [m] :=
  if_pos (List.mem_append_right _ List.mem_cons_self)

lemma removeObject_last (hm : m ∉ visible) : removeObject m (visible ++ [m]) = visible := by
  have hkept : removeObject m visible = visible := by
    refine List.filter_eq_self.mpr fun x hx => decide_eq_true ?_
    rintro rfl
    exact hm hx
  have hlast : removeObject m [m] = [] := by simp [removeObject]
  rw [removeObject, List.filter_append]
  exact (congrArg₂ _ hkept hlast).trans (List.append_nil _)

lemma showOrHide_eq (hvisible : ∀ x ∈ visible, isShown f x = true) :
    showOrHide f visible m = if isShown f m then visible ++ [m] else visible := by
  have hout (h : isShown f m = false) : m ∉ visible := by
    intro hmem
    rw [hvisible m hmem] at h
    cases h
  rw [showOrHide, isShown]
  rw [isShown] at hout
  simp only [addOnce_last]
  cases hdeleted : (f.flags m).deleted <;> cases hseen : (f.flags m).seen <;> cases hd : f.showDeleted <;>
    cases hr : f.showRead <;> simp only [hdeleted, hseen, hr, hd] at hout ⊢ <;>
    first
    | rfl
    | exact removeObject_last (hout rfl)

lemma foldl_showOrHide (messages : List Message) (hvisible : ∀ x ∈ visible, isShown f x = true) :
    messages.foldl (showOrHide f) visible = visible ++ messages.filter (isShown f) := by
  induction messages generalizing visible with
  | nil => exact (List.append_nil _).symm
  | cons m messages ih =>
    rw [List.foldl_cons, showOrHide_eq hvisible, List.filter_cons]
    by_cases hm : isShown f m = true
    · have hnext : ∀ x ∈ visible ++ [m], isShown f x = true := by
        intro x hx
        rcases List.mem_append.mp hx with hx | hx
        · exact hvisible x hx
        · rw [List.mem_singleton.mp hx, hm]
      rw [if_pos hm, if_pos hm, ih hnext, List.append_assoc]
      rfl
    · rw [if_neg hm, if_neg hm, ih hvisible]

end Rebuilding

section Runs

/-- What is kept is what would be found anew. -/
def Current (f : Folder Message) : Prop :=
  ∀ visible ∈ f.allVisibleMessages, visible = (f.allMessages.getD []).filter (isShown f)

lemma visibleMessages_eq (hf : Current f) :
    visibleMessages f = (f.allMessages.getD []).filter (isShown f) := by
  rw [visibleMessages]
  cases hvisible : f.allVisibleMessages with
  | some visible => exact hf visible hvisible
  | none =>
    split_ifs with hall
    · obtain ⟨hd, hr⟩ := Bool.and_eq_true_iff.mp hall
      refine (List.filter_eq_self.mpr fun m _ => ?_).symm
      rw [isShown, hd, hr, Bool.true_or, ite_self]
    · exact foldl_showOrHide _ nofun

lemma current_none (h : f.allVisibleMessages = none) : Current f := by
  rw [Current, h]
  nofun

lemma appendMessage_current (hf : Current f)
    (hm : f.allVisibleMessages = none ∨ f.allMessages.isSome = true ∧ isShown f m = true) :
    Current (appendMessage (some m) f) := by
  intro visible hvisible
  obtain ⟨kept, hkept, rfl⟩ := Option.map_eq_some_iff.mp hvisible
  rcases hm with hnone | ⟨hmessages, hshown⟩
  · rw [hnone] at hkept
    cases hkept
  · obtain ⟨messages, hall⟩ := Option.isSome_iff_exists.mp hmessages
    have hcurrent := hf kept hkept
    rw [hall, Option.getD_some] at hcurrent
    have hlast : [m].filter (isShown f) = [m] := List.filter_cons_of_pos hshown
    rw [hcurrent, appendMessage, hall, Option.map_some, Option.getD_some, List.filter_append]
    exact congrArg _ hlast.symm

lemma removeMessage_current (hf : Current f) : Current (removeMessage (some m) f) := by
  intro visible hvisible
  obtain ⟨kept, hkept, rfl⟩ := Option.map_eq_some_iff.mp hvisible
  have hremoved : (f.allMessages.map (removeObject m)).getD [] = removeObject m (f.allMessages.getD []) := by
    cases f.allMessages <;> rfl
  rw [hf kept hkept, removeMessage, hremoved]
  exact List.filter_comm ..

lemma step_current (f : Folder Message) (e : Event Message) (hf : Current f) (he : Appends f e) :
    Current (step f e) := by
  cases e with
  | appendMessage theMessage =>
    cases theMessage with
    | none => exact hf
    | some m => exact appendMessage_current hf he
  | removeMessage theMessage =>
    cases theMessage with
    | none => exact hf
    | some m => exact removeMessage_current hf
  | setMessages theMessages => exact current_none rfl
  | setShowDeleted b =>
    rw [step, setShowDeleted]
    split_ifs
    · exact current_none rfl
    · exact hf
  | setShowRead b =>
    rw [step, setShowRead]
    split_ifs
    · exact current_none rfl
    · exact hf
  | changeFlags flags => exact current_none rfl
  | allMessages =>
    intro visible hvisible
    rw [← Option.some.inj hvisible]
    exact visibleMessages_eq hf

theorem visibleMessages_run (flags : Message → Flags) (es : List (Event Message))
    (h : Along step Appends (initWithName flags) es) :
    visibleMessages (run step (initWithName flags) es) =
      ((run step (initWithName flags) es).allMessages.getD []).filter
        (isShown (run step (initWithName flags) es)) :=
  visibleMessages_eq (run_invariant step_current (current_none rfl) h)

/-- Of two messages the deleted one is hidden; the other one is removed after that. -/
theorem visibleMessages_run_removed :
    visibleMessages (run step (initWithName fun m : Fin 2 => ⟨m = 0, false⟩)
      [.appendMessage (some 0), .appendMessage (some 1), .allMessages, .removeMessage (some 1)]) =
    ((run step (initWithName fun m : Fin 2 => ⟨m = 0, false⟩)
      [.appendMessage (some 0), .appendMessage (some 1), .allMessages, .removeMessage (some 1)]
        ).allMessages.getD []).filter (isShown (run step (initWithName fun m : Fin 2 => ⟨m = 0, false⟩)
          [.appendMessage (some 0), .appendMessage (some 1), .allMessages, .removeMessage (some 1)])) :=
  visibleMessages_run _ _ ⟨.inl rfl, .inl rfl, trivial, trivial, trivial⟩

def deletedAndRead : Folder Unit :=
  run step (initWithName fun _ => ⟨true, true⟩)
    [.appendMessage (some ()), .setShowDeleted true, .setShowRead false]

/-- Deleted messages are shown and read ones are not, and the only message is deleted and read. -/
theorem deleted_stays_visible :
    visibleMessages deletedAndRead ≠ (deletedAndRead.allMessages.getD []).filter fun m =>
      (deletedAndRead.showDeleted || !(deletedAndRead.flags m).deleted) &&
        (deletedAndRead.showRead || !(deletedAndRead.flags m).seen) := by
  decide

end Runs

end Xperimentum.Pantomime.FolderCache
