import Mathlib.Tactic
import Xperimentum.Terminal.SelectionInvariant

/-! The selection as a range of the string that the view represents, which begins with the scrollback. -/

namespace Xperimentum.Terminal.TerminalView

open Xperimentum.Lib.Int32 Xperimentum.Lib.Partial

variable {v : View} {location length : ℕ}

/-- The location and the length of an `NSRange`. -/
def selectedRange (v : View) : ℤ × ℤ :=
  (if v.selection.location < 0 then v.sbLength * v.sx + v.selection.location else v.selection.location,
    v.selection.length)

/-- The number of cells on either side of the first one of the screen is an `int`. -/
structure Counted (v : View) : Prop where
  scrollback : v.sbLength * v.sx < 2 ^ 31
  screen : v.sx * v.sy < 2 ^ 31

instance (v : View) : Decidable (Counted v) :=
  decidable_of_iff (v.sbLength * v.sx < 2 ^ 31 ∧ v.sx * v.sy < 2 ^ 31)
    ⟨fun h => ⟨h.1, h.2⟩, fun h => ⟨h.scrollback, h.screen⟩⟩

/-- An empty range in the place of an empty selection is not looked at, and the rows of the scrollback are not
counted for a range that begins in the screen. -/
def Selectable (v : View) (location length : ℕ) : Prop :=
  length < 2 ^ 31 ∧
    if length = 0 ∧ v.selection.length = 0 then selectedRange v = ((location : ℤ), (length : ℤ))
    else v.sbLength = 0 ∨ location < v.sbLength * v.sx

instance (v : View) (location length : ℕ) : Decidable (Selectable v location length) :=
  inferInstanceAs (Decidable (_ ∧ _))

def keptSelection (s : SelectionRange) (v : View) : SelectionRange :=
  if (clampSelection s v).length = 0 ∧ v.selection.length = 0 then v.selection else clampSelection s v

lemma setSelection_kept (hv : Arranged v) (s : SelectionRange) :
    Ensures (setSelection s v) fun w =>
      w.sbLength = v.sbLength ∧ w.sx = v.sx ∧ w.selection = keptSelection s v := by
  obtain ⟨w, hw, hselects⟩ := setSelection_selects hv s
  refine ⟨w, hw, hselects.sbLength, hselects.sx, ?_⟩
  rw [setSelection] at hw
  simp only [keptSelection]
  split_ifs at hw ⊢ with hempty hsame
  · obtain rfl := Option.some.inj hw
    rfl
  · obtain rfl := Option.some.inj hw
    exact hsame.symm
  · obtain ⟨w₁, _, hw⟩ := Option.bind_eq_some_iff.mp hw
    obtain ⟨w₂, _, hw⟩ := Option.bind_eq_some_iff.mp hw
    obtain ⟨w₃, _, hw⟩ := Option.bind_eq_some_iff.mp hw
    obtain rfl := Option.some.inj hw
    rfl

lemma clampSelection_eq {s : SelectionRange} (hl : -(v.sbLength * v.sx) ≤ s.location) (hu : s.stop ≤ v.sx * v.sy) :
    clampSelection s v = s := by
  have hstart : ¬s.location < -v.sbLength * v.sx := by
    rw [neg_mul]
    exact not_lt.mpr hl
  simp only [clampSelection, if_neg hstart]
  exact if_neg (not_lt.mpr hu)

lemma clampSelection_shorter (s : SelectionRange) (v : View) : (clampSelection s v).length ≤ s.length := by
  have hneg : -v.sbLength * v.sx = -(v.sbLength * v.sx) := neg_mul _ _
  simp only [clampSelection, SelectionRange.stop, hneg]
  split_ifs with hlow hstop hstop
  · simp only at hstop ⊢
    omega
  · simp only
    omega
  · simp only
    omega
  · exact le_rfl

lemma setSelectedRange_inside (hv : Arranged v) (hcounted : Counted v)
    (hrange : (location + length : ℤ) ≤ v.sbLength * v.sx + v.sx * v.sy) (hlength : length < 2 ^ 31) :
    Ensures (setSelectedRange location length v) fun w =>
      selectedRange w = if length = 0 ∧ v.selection.length = 0 then selectedRange v
        else (if (location : ℤ) < v.sbLength * v.sx then (location : ℤ) else location - v.sbLength * v.sx, (length : ℤ)) := by
  obtain ⟨hsb, hscreen⟩ := hcounted
  have hlocation : wrap32 (location - v.sbLength * v.sx) = location - v.sbLength * v.sx :=
    wrap32_of_mem (by omega) (by omega)
  have hint : wrap32 length = length := wrap32_of_mem (by omega) (by omega)
  have hclamp : clampSelection ⟨location - v.sbLength * v.sx, length⟩ v = ⟨location - v.sbLength * v.sx, length⟩ := by
    apply clampSelection_eq
    · simp only
      omega
    · simp only [SelectionRange.stop]
      omega
  rw [setSelectedRange, hlocation, hint]
  refine (setSelection_kept hv _).imp fun w hw => ?_
  obtain ⟨hsame, hsx, hkept⟩ := hw
  rw [keptSelection, hclamp] at hkept
  by_cases hempty : length = 0 ∧ v.selection.length = 0
  · rw [if_pos ⟨Int.natCast_eq_zero.mpr hempty.1, hempty.2⟩] at hkept
    rw [if_pos hempty, selectedRange, selectedRange, hkept, hsame, hsx]
  · rw [if_neg fun h => hempty ⟨Int.natCast_eq_zero.mp h.1, h.2⟩] at hkept
    rw [if_neg hempty, selectedRange, hkept, hsame, hsx]
    refine congrArg (·, (length : ℤ)) ?_
    simp only
    split_ifs <;> omega

theorem setSelectedRange_roundTrip_iff (hv : Arranged v) (hcounted : Counted v)
    (hrange : (location + length : ℤ) ≤ v.sbLength * v.sx + v.sx * v.sy) :
    (Ensures (setSelectedRange location length v) fun w => selectedRange w = ((location : ℤ), (length : ℤ))) ↔
      Selectable v location length := by
  by_cases hlength : length < 2 ^ 31
  · obtain ⟨w, hw, hselected⟩ := setSelectedRange_inside hv hcounted hrange hlength
    have hreturned : (Ensures (setSelectedRange location length v) fun w =>
        selectedRange w = ((location : ℤ), (length : ℤ))) ↔ selectedRange w = ((location : ℤ), (length : ℤ)) := by
      rw [hw]
      exact ⟨fun ⟨u, hu, h⟩ => Option.some.inj hu ▸ h, fun h => ⟨w, rfl, h⟩⟩
    rw [hreturned, hselected, Selectable, and_iff_right hlength]
    split_ifs with hempty hbefore
    · exact Iff.rfl
    · exact iff_of_true rfl (.inr hbefore)
    · have hx := hv.sx_pos
      rw [or_iff_left hbefore, Prod.mk.injEq, and_iff_left rfl, sub_eq_self, mul_eq_zero]
      exact or_iff_left (by omega)
  · refine iff_of_false ?_ fun h => hlength h.1
    rintro ⟨w, hw, hselected⟩
    obtain ⟨u, hu, -, -, hkept⟩ := setSelection_kept hv
      ⟨wrap32 (location - v.sbLength * v.sx), wrap32 length⟩
    obtain rfl := Option.some.inj (hw.symm.trans hu)
    have hsecond : w.selection.length = length := congrArg Prod.snd hselected
    have hshorter := clampSelection_shorter ⟨wrap32 (location - v.sbLength * v.sx), wrap32 length⟩ v
    have hint := wrap32_upper length
    rw [hkept, keptSelection] at hsecond
    split_ifs at hsecond with hempty
    · have hzero := hempty.2
      omega
    · simp only at hshorter
      omega

/-- One line has been scrolled off a screen of one cell. -/
def oneLineSaved : View where
  sx := 1
  sy := 1
  maxScrollback := 1
  screen := [zeroCell]
  sbuf := [zeroCell]
  sbLength := 1
  scrollBottomOnInput := true

lemma oneLineSaved_arranged : Arranged oneLineSaved := by
  refine ⟨⟨?_, ?_, ?_, ?_, ?_⟩, ?_, ?_, fun hpos => absurd hpos (by decide)⟩
  all_goals decide

theorem setSelectedRange_saved_line :
    Ensures (setSelectedRange 0 1 oneLineSaved) fun w => selectedRange w = (((0 : ℕ) : ℤ), ((1 : ℕ) : ℤ)) :=
  (setSelectedRange_roundTrip_iff oneLineSaved_arranged (by decide) (by decide)).mpr (by decide)

/-- The cell of the screen is found at the location of the saved one. -/
theorem setSelectedRange_screen_shifts :
    ¬∀ (v : View) (location length : ℕ), Arranged v → Counted v →
      (location + length : ℤ) ≤ v.sbLength * v.sx + v.sx * v.sy →
      Ensures (setSelectedRange location length v) fun w => selectedRange w = ((location : ℤ), (length : ℤ)) := by
  intro h
  obtain ⟨w, hw, hselected⟩ := h oneLineSaved 1 1 oneLineSaved_arranged (by decide) (by decide)
  have hshifted : (setSelectedRange 1 1 oneLineSaved).map selectedRange = some (0, 1) := by decide
  rw [hw, Option.map_some, hselected] at hshifted
  cases Option.some.inj hshifted

end Xperimentum.Terminal.TerminalView
