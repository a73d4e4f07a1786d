import Mathlib.Tactic

/-! `OSEDisplay` and the X server it talks to. A CRTC of the server is known by the output it drives, and coordinates
are whole pixels. -/

namespace Xperimentum.SystemKit

structure Frame where
  x : ℤ
  y : ℤ
  width : ℤ
  height : ℤ
deriving DecidableEq

def Frame.zero : Frame := ⟨0, 0, 0, 0⟩

def Frame.isEmpty (f : Frame) : Bool := f.width ≤ 0 || f.height ≤ 0

/-- The frame lies inside a screen of that size. -/
def Frame.Fits (f : Frame) (width height : ℤ) : Prop :=
  0 ≤ f.x ∧ 0 ≤ f.y ∧ f.x + f.width ≤ width ∧ f.y + f.height ≤ height

instance (f : Frame) (width height : ℤ) : Decidable (f.Fits width height) :=
  inferInstanceAs (Decidable (_ ∧ _ ∧ _ ∧ _))

structure Mode where
  id : ℕ
  width : ℤ
  height : ℤ
deriving DecidableEq

structure CRTC where
  output : String
  mode : Mode
  x : ℤ
  y : ℤ
deriving DecidableEq

def CRTC.frame (c : CRTC) : Frame := ⟨c.x, c.y, c.mode.width, c.mode.height⟩

inductive Request where
  | setScreenSize (width height : ℤ)
  | setCrtcConfig (crtc : CRTC)
deriving DecidableEq

/-- The screen, its enabled CRTCs, and the requests that were rejected. -/
structure Server where
  width : ℤ
  height : ℤ
  crtcs : List CRTC
  rejected : List Request
deriving DecidableEq

namespace Server

def crtc (v : Server) (output : String) : Option CRTC := v.crtcs.find? fun c => c.output = output

def others (v : Server) (output : String) : List CRTC := v.crtcs.filter fun c => c.output ≠ output

def setScreenSize (v : Server) (width height : ℤ) : Server :=
  if ∀ c ∈ v.crtcs, c.frame.Fits width height then { v with width := width, height := height }
  else { v with rejected := v.rejected ++ [.setScreenSize width height] }

/-- `XRRSetCrtcConfig`; without a mode the CRTC of the output is disabled. -/
def setCrtcConfig (v : Server) (output : String) (x y : ℤ) (mode : Option Mode) : Server :=
  match mode with
  | none => { v with crtcs := v.others output }
  | some m =>
    let c : CRTC := ⟨output, m, x, y⟩
    if c.frame.Fits v.width v.height then { v with crtcs := c :: v.others output }
    else { v with rejected := v.rejected ++ [.setCrtcConfig c] }

end Server

structure Resolution where
  width : ℤ
  height : ℤ
  rate : ℚ
deriving DecidableEq

def zeroResolution : Resolution := ⟨0, 0, 0⟩

abbrev UniqueID := List UInt8

structure OSEDisplay where
  uniqueID : Option UniqueID
  isConnected : Bool
  isBuiltin : Bool
  modes : List Mode
  allResolutions : List Resolution
  frame : Frame
  hiddenFrame : Frame
  activeResolution : Resolution

namespace OSEDisplay

def isActive (d : OSEDisplay) : Bool := !d.frame.isEmpty

/-- What no layout changes. -/
def fixed (d : OSEDisplay) : Option UniqueID × Bool × Bool × List Mode :=
  (d.uniqueID, d.isConnected, d.isBuiltin, d.modes)

def bestResolution (d : OSEDisplay) : Resolution := d.allResolutions.headD zeroResolution

/-- The last mode of that size. -/
def modeForResolution (d : OSEDisplay) (resolution : Resolution) : Option Mode :=
  d.modes.reverse.find? fun m => m.width = resolution.width ∧ m.height = resolution.height

/-- The resolution found so far, with its rate. -/
def higherRate (best : Option Resolution × ℚ) (res : Resolution) : Option Resolution × ℚ :=
  if best.2 < res.rate then (some res, res.rate) else best

def withRate (rate : ℚ) (resolutions : List Resolution) : Option Resolution :=
  if rate ≠ 0 then resolutions.find? fun res => res.rate = rate
  else (resolutions.foldl higherRate (none, 0)).1

/-- A size that the display does not know is added to its resolutions. -/
def resolutionWithWidth (d : OSEDisplay) (width height : ℤ) (rate : ℚ) : Resolution × OSEDisplay :=
  match withRate rate (d.allResolutions.filter fun res => res.width = width ∧ res.height = height) with
  | some resolution => (resolution, d)
  | none =>
    let resolution : Resolution := ⟨width, height, rate⟩
    (resolution, { d with allResolutions := resolution :: d.allResolutions })

/-- The request is sent when mode or position differ; the display keeps the values whatever becomes of it. -/
def setResolution (d : OSEDisplay) (output : String) (resolution : Resolution) (x y : ℤ) (v : Server) :
    OSEDisplay × Server :=
  let rr_mode := if resolution.width = 0 ∨ resolution.height = 0 then none else d.modeForResolution resolution
  let crtc := v.crtc output
  let v' :=
    if crtc.map (·.mode) ≠ rr_mode ∨ crtc.elim 0 (·.x) ≠ x ∨ crtc.elim 0 (·.y) ≠ y then
      v.setCrtcConfig output x y rr_mode
    else v
  ({ d with frame := ⟨x, y, resolution.width, resolution.height⟩, activeResolution := resolution }, v')

def setActive (d : OSEDisplay) (active : Bool) : OSEDisplay :=
  if active then
    let d' := if ¬d.hiddenFrame.isEmpty then { d with frame := d.hiddenFrame, hiddenFrame := .zero }
      else { d with frame := { d.frame with width := d.bestResolution.width, height := d.bestResolution.height } }
    let (resolution, d'') := d'.resolutionWithWidth d'.frame.width d'.frame.height 0
    { d'' with activeResolution := resolution }
  else { d with hiddenFrame := d.frame, frame := .zero, activeResolution := zeroResolution }

section Resolutions

variable (d : OSEDisplay) (width height : ℤ) (rate : ℚ)

lemma foldl_higherRate {resolutions : List Resolution} {best : Option Resolution × ℚ} {r : Resolution}
    (h : (resolutions.foldl higherRate best).1 = some r) : best.1 = some r ∨ r ∈ resolutions := by
  induction resolutions generalizing best with
  | nil => exact Or.inl h
  | cons x l ih =>
    rcases ih h with hbest | hl
    · rw [higherRate] at hbest
      split at hbest
      · obtain rfl := Option.some.inj hbest
        exact Or.inr List.mem_cons_self
      · exact Or.inl hbest
    · exact Or.inr (List.mem_cons_of_mem x hl)

lemma withRate_mem {resolutions : List Resolution} {r : Resolution} (h : withRate rate resolutions = some r) :
    r ∈ resolutions := by
  rw [withRate] at h
  split at h
  · exact List.mem_of_find?_eq_some h
  · rcases foldl_higherRate h with hnone | hmem
    · cases hnone
    · exact hmem

/-- The resolutions of the size that is asked for. -/
abbrev ofSize : List Resolution := d.allResolutions.filter fun res => res.width = width ∧ res.height = height

lemma resolutionWithWidth_size :
    (d.resolutionWithWidth width height rate).1.width = width ∧
      (d.resolutionWithWidth width height rate).1.height = height := by
  cases h : withRate rate (d.ofSize width height) with
  | none => simp only [resolutionWithWidth, h, and_self]
  | some r =>
    simp only [resolutionWithWidth, h]
    simpa using (List.mem_filter.mp (withRate_mem rate h)).2

lemma resolutionWithWidth_display : ∃ l, (d.resolutionWithWidth width height rate).2 = { d with allResolutions := l } := by
  cases h : withRate rate (d.ofSize width height) with
  | none => exact ⟨_, by simp only [resolutionWithWidth, h]; rfl⟩
  | some r => exact ⟨d.allResolutions, by simp only [resolutionWithWidth, h]⟩

end Resolutions

section Requests

variable {d : OSEDisplay} {v : Server} {output : String} {resolution : Resolution} {x y : ℤ} {m : Mode}

lemma crtc_eq_some {c : CRTC} (h : v.crtc output = some c) : c ∈ v.crtcs ∧ c.output = output :=
  ⟨List.mem_of_find?_eq_some h, by simpa using List.find?_some h⟩

lemma others_of_crtc_none (h : v.crtc output = none) : v.others output = v.crtcs := by
  rw [Server.others, List.filter_eq_self]
  exact fun c hc => by simpa using List.find?_eq_none.mp h c hc

lemma setResolution_off (hoff : resolution.width = 0 ∨ resolution.height = 0) :
    (d.setResolution output resolution x y v).2 = { v with crtcs := v.others output } := by
  simp only [setResolution, if_pos hoff]
  split
  · rfl
  · next h =>
    have hnone : v.crtc output = none := by simpa using (not_or.mp h).1
    rw [others_of_crtc_none hnone]

lemma setResolution_on (hmode : d.modeForResolution resolution = some m)
    (hon : ¬(resolution.width = 0 ∨ resolution.height = 0)) :
    (d.setResolution output resolution x y v).2 = v.setCrtcConfig output x y (some m) ∨
      (d.setResolution output resolution x y v).2 = v ∧ (⟨output, m, x, y⟩ : CRTC) ∈ v.crtcs := by
  simp only [setResolution, if_neg hon, hmode]
  split
  · exact Or.inl rfl
  · next h =>
    obtain ⟨hsame, hpos⟩ := not_or.mp h
    obtain ⟨c, hc, hm⟩ := Option.map_eq_some_iff.mp (not_not.mp hsame)
    obtain ⟨hx, hy⟩ := not_or.mp hpos
    obtain ⟨hmem, hout⟩ := crtc_eq_some hc
    simp only [hc, Option.elim_some, not_not] at hx hy
    refine Or.inr ⟨rfl, ?_⟩
    rw [← hout, ← hm, ← hx, ← hy]
    exact hmem

lemma exists_modeForResolution (h : ∃ m ∈ d.modes, m.width = resolution.width ∧ m.height = resolution.height) :
    ∃ m, d.modeForResolution resolution = some m ∧ m.width = resolution.width ∧ m.height = resolution.height := by
  obtain ⟨m, hm, hsize⟩ := h
  have hsome : (d.modeForResolution resolution).isSome := by
    rw [modeForResolution, List.find?_isSome]
    exact ⟨m, List.mem_reverse.mpr hm, by simpa using hsize⟩
  obtain ⟨m', hm'⟩ := Option.isSome_iff_exists.mp hsome
  exact ⟨m', hm', by simpa using List.find?_some hm'⟩

end Requests

end OSEDisplay

end Xperimentum.SystemKit
