import Mathlib.Tactic
import Xperimentum.Terminal.ViewInvariant

/-! Selecting keeps the invariant of the view, whatever range is asked for; reading the selection stays
inside the arrays unless it ends with the last cell of the screen and that cell is blank. -/

namespace Xperimentum.Terminal.TerminalView

open Xperimentum.Lib.Memory Xperimentum.Lib.Partial Xperimentum.Terminal.LinuxParser

variable {v w : View}

/-- What a change of the selection leaves. -/
structure Selects (v w : View) : Prop extends Frame v w where
  inside : SelectionInside w

lemma Sound.selects (hv : Sound v) (h : Selects v w) : Sound w := hv.frame h.toFrame h.inside

lemma Arranged.scrollback_le (hv : Arranged v) : v.sbLength * v.sx ≤ v.maxScrollback * v.sx :=
  mul_le_mul_of_nonneg_right hv.sb_le (by linarith [hv.sx_pos])

lemma clampSelection_lower (s : SelectionRange) (v : View) :
    -(v.sbLength * v.sx) ≤ (clampSelection s v).location := by
  have hneg : -v.sbLength * v.sx = -(v.sbLength * v.sx) := neg_mul _ _
  simp only [clampSelection, hneg]
  split_ifs with hlow hstop hstop
  · exact le_rfl
  · exact le_rfl
  · exact not_lt.mp hlow
  · exact not_lt.mp hlow

lemma clampSelection_upper (s : SelectionRange) (v : View) : (clampSelection s v).stop ≤ v.sx * v.sy := by
  simp only [clampSelection]
  generalize (if s.location < -v.sbLength * v.sx then
    (⟨-v.sbLength * v.sx, s.length + (v.sbLength * v.sx + s.location)⟩ : SelectionRange) else s) = r
  split_ifs with h
  · simp only [SelectionRange.stop]
    omega
  · exact not_lt.mp h

lemma clampSelection_inside (hv : Arranged v) (s : SelectionRange) :
    SelectionInside { v with selection := clampSelection s v } := by
  have hl := clampSelection_lower s v
  have hsb := hv.scrollback_le
  intro _
  refine ⟨?_, clampSelection_upper s v⟩
  show -(v.maxScrollback * v.sx) ≤ (clampSelection s v).location
  omega

lemma setSelection_selects (hv : Arranged v) (s : SelectionRange) : Ensures (setSelection s v) (Selects v) := by
  have hin := clampSelection_inside hv s
  have hold := hv.selection
  have hcells := mul_comm v.sx v.sy
  simp only [SelectionInside, SelectionRange.stop, hcells] at hin hold
  simp only [setSelection]
  split_ifs with hzero hsame
  · exact ensures_some ⟨(Same.refl v).toFrame, hv.selection⟩
  · exact ensures_some ⟨(Same.refl v).toFrame, hv.selection⟩
  · generalize clampSelection s v = r at hin ⊢
    refine Ensures.bind (hv.updateCells_same unselect ?_) fun w1 h1 => ?_
    · simp only [SelectionRange.stop]
      omega
    refine Ensures.bind ((hv.toSized.frame h1.toFrame).updateCells_same unselect ?_) fun w2 h2 => ?_
    · simp only [SelectionRange.stop, h1.sx, h1.sy, h1.maxScrollback]
      omega
    have h12 := h1.trans h2
    refine Ensures.bind ((hv.toSized.frame h12.toFrame).updateCells_same select ?_) fun w3 h3 => ?_
    · simp only [SelectionRange.stop, h12.sx, h12.sy, h12.maxScrollback]
      omega
    have h13 := (h12.trans h3).toFrame
    refine ensures_pure ⟨h13.trans (by constructor <;> rfl), ?_⟩
    simp only [SelectionInside, setNeedsLazyDisplay, SelectionRange.stop, h13.sx, h13.sy, h13.maxScrollback, hcells]
    exact hin

lemma clearSelection_selects (hv : Arranged v) : Ensures (clearSelection v) (Selects v) := setSelection_selects hv _

section Words

lemma wordBoundary_ensures {cs : ℕ → Bool} {step : ℤ} (n : ℕ) {i : ℤ}
    (h : ∀ k < n, Ensures (cellAt v (i + step * k)) fun _ => True) :
    Ensures (wordBoundary v cs step n i) fun _ => True := by
  induction n generalizing i with
  | zero => exact ensures_pure trivial
  | succ n ih =>
    have h0 := h 0 (Nat.succ_pos n)
    rw [Nat.cast_zero, mul_zero, add_zero] at h0
    refine Ensures.bind h0 fun cell _ => ?_
    split_ifs
    · apply ih
      intro k hk
      have hk1 := h (k + 1) (Nat.succ_lt_succ hk)
      rwa [Nat.cast_succ, mul_add, mul_one, add_comm (step * k), ← add_assoc] at hk1
    · exact ensures_pure trivial

lemma Sound.row_cells_exist (hv : Sound v) {row i : ℤ} (hl : -v.maxScrollback ≤ row) (hu : row < v.sy)
    (h0 : row * v.sx ≤ i) (h1 : i < row * v.sx + v.sx) : Ensures (cellAt v i) fun _ => True := by
  have hx : 0 ≤ v.sx := by linarith [hv.sx_pos]
  have hlow := mul_le_mul_of_nonneg_right hl hx
  have hup := hv.row_end_le hu
  rw [neg_mul] at hlow
  exact hv.cellAt_ensures (by omega) (by omega)

lemma selectionRangeAt_ensures (hv : Sound v) (sets : CharacterSets) {row col : ℤ} {g : ℕ} (hc : 0 ≤ col)
    (hcx : col < v.sx) (hl : -v.maxScrollback ≤ row) (hu : g = 2 → row < v.sy) :
    Ensures (selectionRangeAt sets (col + row * v.sx) g v) fun _ => True := by
  simp only [selectionRangeAt]
  split
  · exact ensures_pure trivial
  · have hrow : (col + row * v.sx) / v.sx = row := by
      rw [Int.add_mul_ediv_right _ _ (by linarith [hv.sx_pos] : v.sx ≠ 0), Int.ediv_eq_zero_of_lt hc hcx, zero_add]
    have hcell : ∀ i, row * v.sx ≤ i → i < row * v.sx + v.sx → Ensures (cellAt v i) fun _ => True :=
      fun i => hv.row_cells_exist hl (hu rfl)
    refine Ensures.bind (hcell _ (by omega) (by omega)) fun cell _ => ?_
    split
    · exact ensures_pure trivial
    · rw [hrow]
      refine Ensures.bind (wordBoundary_ensures _ fun k hk => hcell _ ?_ ?_) fun i _ => ?_
      · omega
      · omega
      refine Ensures.bind (wordBoundary_ensures _ fun k hk => hcell _ ?_ ?_) fun j _ => ?_
      · omega
      · omega
      exact ensures_pure trivial
  · exact ensures_pure trivial

lemma pointColumn_mem (hv : Sound v) (px : ℤ) : 0 ≤ pointColumn px v ∧ pointColumn px v < v.sx := by
  have hx := hv.sx_pos
  simp only [pointColumn]
  split_ifs <;> omega

lemma pointRow_lower (hv : Sound v) (py : ℤ) : -v.maxScrollback ≤ pointRow py v := by
  have hsc := hv.scroll_lower
  have hsb := hv.sb_le
  have hy := hv.sy_pos
  simp only [pointRow]
  split_ifs <;> omega

lemma trackMouse_selects (hv : Sound v) (sets : CharacterSets) {g : ℕ} (start : Option Tracking) (px : ℤ) {py : ℤ}
    (hw : g = 2 → pointRow py v < v.sy) : Ensures (trackMouse sets g start px py v) (Selects v) := by
  obtain ⟨hc, hcx⟩ := pointColumn_mem hv px
  refine Ensures.bind (selectionRangeAt_ensures hv sets hc hcx (pointRow_lower hv py) hw) fun r1 _ => ?_
  refine Ensures.bind (setSelection_selects hv.arranged _) fun w hw => ?_
  exact ensures_pure ⟨hw.toFrame.trans (by constructor <;> rfl), hw.inside⟩

end Words

section Text

/-- Reading the selection runs on past a blank last cell of the screen. -/
def EndsBlank (v : View) : Prop :=
  v.selection.stop = v.sx * v.sy ∧ ∃ c ∈ cellAt v (v.sx * v.sy - 1), isBlank c.ch = true

instance (v : View) : Decidable (EndsBlank v) := inferInstanceAs (Decidable (_ ∧ _))

lemma skipBlanks_ensures (hv : Sound v) {j : ℤ} (hj : j ≤ v.sx * v.sy)
    (hend : j = v.sx * v.sy → ∀ c ∈ cellAt v (v.sx * v.sy - 1), isBlank c.ch = false) (i0 : ℤ) (n : ℕ) {i : ℤ}
    {wsLen : ℕ} {text : List ℕ} (hl : -(v.maxScrollback * v.sx) ≤ i) (hu : i < v.sx * v.sy)
    (hn : v.sx * v.sy ≤ i + n) (hw : i0 ≤ i - wsLen) :
    Ensures (skipBlanks v j n i wsLen text) fun r => i0 ≤ r.i - r.wsLen := by
  induction n generalizing i wsLen text with
  | zero => omega
  | succ n ih =>
    have hcell := hv.cellAt_ensures hl (by rwa [mul_comm])
    obtain ⟨c, hc, _⟩ := hcell
    simp only [skipBlanks, hc, Option.bind_eq_bind, Option.bind_some]
    cases hb : isBlank c.ch with
    | false => exact ensures_pure hw
    | true =>
      rw [if_neg (by decide)]
      split_ifs with hrow hpast
      · refine ensures_pure ?_
        show i0 ≤ i + 1 - (0 : ℕ)
        omega
      · have hlast : i + 1 ≠ v.sx * v.sy := by
          intro heq
          have hcj := hend (by omega) c (by rw [← heq, add_sub_cancel_right, hc]; rfl)
          rw [hb] at hcj
          exact absurd hcj (by decide)
        exact ih (by omega) (by omega) (by omega) (by omega)
      · have hlast : i + 1 ≠ v.sx * v.sy := by
          intro heq
          rw [heq, Int.mul_emod_right] at hrow
          exact hrow rfl
        exact ih (by omega) (by omega) (by omega) (by omega)

lemma selectedText_ensures (hv : Sound v) {j : ℤ} (hj : j ≤ v.sx * v.sy)
    (hend : j = v.sx * v.sy → ∀ c ∈ cellAt v (v.sx * v.sy - 1), isBlank c.ch = false) (n : ℕ) {i : ℤ}
    {text : List ℕ} (hl : i < j → -(v.maxScrollback * v.sx) ≤ i) (hn : j < i + n) (hpos : 0 < n) :
    Ensures (selectedText v j n i text) fun _ => True := by
  induction n generalizing i text with
  | zero => omega
  | succ n ih =>
    simp only [selectedText]
    split_ifs with hdone
    · exact ensures_pure trivial
    · have hlow := hl (by omega)
      refine Ensures.bind (skipBlanks_ensures hv hj hend i _ hlow (by omega) (by omega) (by simp)) fun r hr => ?_
      split_ifs with hstop
      · exact ensures_pure trivial
      · apply ih <;> omega

lemma selectionAsString_ensures (hv : Sound v) (hb : ¬(0 < v.selection.length ∧ EndsBlank v)) :
    Ensures (selectionAsString v) fun _ => True := by
  simp only [selectionAsString]
  split_ifs with hz
  · exact ensures_pure trivial
  · have hin := hv.selection
    simp only [SelectionInside, SelectionRange.stop] at hin
    by_cases hpos : 0 < v.selection.length
    · have hnb : ¬EndsBlank v := fun he => hb ⟨hpos, he⟩
      refine Ensures.bind (selectedText_ensures hv (hin hpos).2 (fun hj c hc => ?_) _ ?_ ?_ ?_) fun text _ =>
        ensures_pure trivial
      · exact eq_false_of_ne_true fun hblank => hnb ⟨hj, c, hc, hblank⟩
      · exact fun _ => (hin hpos).1
      · omega
      · omega
    · have hle : v.selection.stop ≤ v.selection.location := by
        simp only [SelectionRange.stop]
        omega
      refine Ensures.bind (P := fun _ => True) ?_ fun text _ => ensures_pure trivial
      simp only [selectedText, if_pos hle]
      exact ensures_pure trivial

lemma copySelection_same (hv : Sound v) (hb : ¬(0 < v.selection.length ∧ EndsBlank v)) :
    Ensures (copySelection v) (Same v) :=
  Ensures.bind (selectionAsString_ensures hv hb) fun _ _ => ensures_pure (Same.refl v)

lemma stringRepresentation_ensures (hv : Sound v) : Ensures (stringRepresentation v) fun _ => True := by
  have hsb := hv.arranged.scrollback_le
  refine Ensures.bind (ensures_mapM _ fun i hi => ?_) fun cells _ => ensures_pure trivial
  rw [Int.mem_range_iff] at hi
  exact hv.cellAt_ensures (by omega) (by rw [mul_comm]; exact hi.2)

end Text

end Xperimentum.Terminal.TerminalView
