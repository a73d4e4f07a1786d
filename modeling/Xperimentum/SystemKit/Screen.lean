import Xperimentum.SystemKit.Display

/-! `OSEScreen`: layouts of the connected displays, and applying one. Gamma values, the choice of the main display,
physical sizes and the saved configuration change no frame and are left out. -/

namespace Xperimentum.SystemKit

/-- What the code compares a layout's string with. -/
inductive Flag where
  | yes
  | no
  | other
deriving DecidableEq

/-- The description of a display in a layout; `none` stands for the blank that replaces a missing identifier. -/
structure Entry where
  id : Option UniqueID
  name : String
  frame : Frame
  frameRate : ℚ
  isActive : Flag
  hasGamma : Bool
deriving DecidableEq

/-- What the screen is given by the system: hashes of identifiers, the sort of arrays, and the state of the lid. -/
structure Surroundings where
  hash : Option UniqueID → ℕ
  sortedArrayUsingFunction : (Entry → Entry → Ordering) → List Entry → List Entry
  isLidClosed : Bool

/-- The displays, by the names of their outputs. -/
structure OSEScreen where
  outputs : List String
  nodup : outputs.Nodup
  display : String → OSEDisplay
  width : ℤ
  height : ℤ
  server : Server

namespace OSEScreen

variable (e : Surroundings) (s : OSEScreen)

def setDisplay (name : String) (d : OSEDisplay) : OSEScreen :=
  { s with display := Function.update s.display name d }

def connectedDisplays : List String := s.outputs.filter fun name => (s.display name).isConnected

def displayWithID (id : Option UniqueID) : Option String :=
  s.outputs.find? fun name => (s.display name).uniqueID.any fun uid => e.hash (some uid) = e.hash id

/-- The size extended by the frame of a display. -/
def enclose (size : ℤ × ℤ) (d : Entry) : ℤ × ℤ :=
  if d.isActive = .no then size
  else (max size.1 (d.frame.x + d.frame.width), max size.2 (d.frame.y + d.frame.height))

def sizeInPixelsForLayout (layout : List Entry) : ℤ × ℤ := layout.foldl enclose (0, 0)

def entry (name : String) : Entry :=
  let d := s.display name
  ⟨d.uniqueID, name, d.frame, d.activeResolution.rate, if d.isActive then .yes else .no, true⟩

def currentLayout : List Entry := s.connectedDisplays.map s.entry

def validateLayout (layout : List Entry) : Bool :=
  layout.all fun d =>
    (s.displayWithID e d.id).isSome && !(d.isActive = .yes && (d.frame.width ≤ 0 || d.frame.height ≤ 0)) && d.hasGamma

/-- A display that is switched off, with its request to the server. -/
def disable (name : String) (d : OSEDisplay) : OSEScreen :=
  let (d', server) := d.setResolution name zeroResolution d.hiddenFrame.x d.hiddenFrame.y s.server
  { s.setDisplay name d' with server := server }

def applyEntry (s : OSEScreen) (d : Entry) : OSEScreen :=
  if d.name ∉ s.outputs then s
  else
    let display := s.display d.name
    if d.isActive = .yes then
      if display.isBuiltin && e.isLidClosed then
        s.disable d.name (OSEDisplay.setActive { display with frame := d.frame } false)
      else
        let (resolution, display') := display.resolutionWithWidth d.frame.width d.frame.height d.frameRate
        let (display'', server) := display'.setResolution d.name resolution d.frame.x d.frame.y s.server
        { s.setDisplay d.name display'' with server := server }
    else s.disable d.name display

def setScreenSize (width height : ℤ) : OSEScreen := { s with server := s.server.setScreenSize width height }

def applyDisplayLayout (layout : List Entry) : OSEScreen :=
  if s.validateLayout e layout then
    let newPixSize := sizeInPixelsForLayout layout
    let bigger := if newPixSize.1 > s.width ∧ newPixSize.2 > s.height then
      s.setScreenSize newPixSize.1 newPixSize.2 else s
    let placed := layout.foldl (applyEntry e) bigger
    let resized := if newPixSize.1 < s.width ∨ newPixSize.2 < s.height then
      placed.setScreenSize newPixSize.1 newPixSize.2 else placed
    { resized with width := newPixSize.1, height := newPixSize.2 }
  else s

/-- Both tests for an active display look at the second one. -/
def compareLayoutEntries (displayA displayB : Entry) : Ordering :=
  if displayA.frame.x < displayB.frame.x ∧ displayB.isActive = .yes then .lt
  else if displayA.frame.x > displayB.frame.x ∧ displayB.isActive = .yes then .gt
  else .eq

def arrange : ℤ → List Entry → List Entry
  | _, [] => []
  | maxX, d :: layout =>
    if d.isActive = .no then d :: arrange maxX layout
    else { d with frame := { d.frame with x := maxX } } :: arrange (maxX + d.frame.width) layout

def arrangedDisplayLayout : List Entry :=
  arrange 0 (e.sortedArrayUsingFunction compareLayoutEntries s.currentLayout)

def activateDisplay (name : String) : OSEScreen :=
  let s' := s.setDisplay name ((s.display name).setActive true)
  s'.applyDisplayLayout e (s'.arrangedDisplayLayout e)

def deactivateDisplay (name : String) : OSEScreen :=
  let s' := s.setDisplay name ((s.display name).setActive false)
  s'.applyDisplayLayout e (s'.arrangedDisplayLayout e)

section Fixed

variable {e : Surroundings} {s t u : OSEScreen} {d : Entry} {name : String} {x : OSEDisplay}

/-- The same displays, with other frames. -/
structure Kin (s t : OSEScreen) : Prop where
  outputs : t.outputs = s.outputs
  fixed : ∀ name, (t.display name).fixed = (s.display name).fixed

lemma Kin.refl (s : OSEScreen) : Kin s s := ⟨rfl, fun _ => rfl⟩

lemma Kin.trans (h : Kin s t) (h' : Kin t u) : Kin s u := ⟨h'.1.trans h.1, fun n => (h'.2 n).trans (h.2 n)⟩

lemma Kin.uniqueID (h : Kin s t) (name : String) : (t.display name).uniqueID = (s.display name).uniqueID :=
  congrArg Prod.fst (h.fixed name)

lemma Kin.isConnected (h : Kin s t) (name : String) : (t.display name).isConnected = (s.display name).isConnected :=
  congrArg (fun f => f.2.1) (h.fixed name)

lemma Kin.isBuiltin (h : Kin s t) (name : String) : (t.display name).isBuiltin = (s.display name).isBuiltin :=
  congrArg (fun f => f.2.2.1) (h.fixed name)

lemma Kin.modes (h : Kin s t) (name : String) : (t.display name).modes = (s.display name).modes :=
  congrArg (fun f => f.2.2.2) (h.fixed name)

lemma kin_setDisplay (hfixed : x.fixed = (s.display name).fixed) (v : Server) :
    Kin s { s.setDisplay name x with server := v } := by
  refine ⟨rfl, fun n => ?_⟩
  by_cases hn : n = name
  · subst hn
    simpa [setDisplay] using hfixed
  · simp [setDisplay, Function.update_of_ne hn]

lemma kin_disable (hfixed : x.fixed = (s.display name).fixed) : Kin s (s.disable name x) :=
  kin_setDisplay (x := (x.setResolution name zeroResolution x.hiddenFrame.x x.hiddenFrame.y s.server).1) hfixed _

lemma fixed_resolutionWithWidth (x : OSEDisplay) (width height : ℤ) (rate : ℚ) :
    (x.resolutionWithWidth width height rate).2.fixed = x.fixed := by
  obtain ⟨l, hl⟩ := x.resolutionWithWidth_display width height rate
  rw [hl]
  rfl

lemma kin_applyEntry (e : Surroundings) (s : OSEScreen) (d : Entry) : Kin s (applyEntry e s d) := by
  simp only [applyEntry]
  split
  · exact .refl s
  · split
    · split
      · exact kin_disable rfl
      · apply kin_setDisplay
        exact fixed_resolutionWithWidth (s.display d.name) d.frame.width d.frame.height d.frameRate
    · exact kin_disable rfl

lemma kin_foldl (e : Surroundings) (s : OSEScreen) (layout : List Entry) : Kin s (layout.foldl (applyEntry e) s) := by
  induction layout generalizing s with
  | nil => exact .refl s
  | cons d layout ih => exact (kin_applyEntry e s d).trans (ih _)

end Fixed

end OSEScreen

end Xperimentum.SystemKit
