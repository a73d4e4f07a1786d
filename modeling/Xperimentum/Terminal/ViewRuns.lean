import Mathlib.Tactic
import Xperimentum.Terminal.SelectionInvariant

/-! The invariant of the view along every run of events, from the state `initWithFrame:` leaves. -/

namespace Xperimentum.Terminal.TerminalView

open Xperimentum.Lib.Int32 Xperimentum.Lib.Memory Xperimentum.Lib.Partial Xperimentum.Lib.Runs
open Xperimentum.Terminal.LinuxParser

variable {σ : Type} {host : Host σ} {t : Session σ} {v w : View}

/-- The parser and its view agree on the size of the screen. -/
structure Linked (t : Session σ) : Prop where
  view : Sound t.view
  parser : LinuxParser.Sane t.parser
  width : t.parser.width = t.view.sx
  height : t.parser.height = t.view.sy

lemma Linked.onView (ht : Linked t) {o : Option View} (ho : Ensures o fun w => Sound w ∧ w.sx = t.view.sx ∧ w.sy = t.view.sy) :
    Ensures (onView o t) Linked := by
  refine Ensures.bind ho fun w hw => ensures_pure ?_
  exact ⟨hw.1, ht.parser, ht.width.trans hw.2.1.symm, ht.height.trans hw.2.2.symm⟩

lemma Linked.same (ht : Linked t) {o : Option View} (ho : Ensures o (Same t.view)) : Ensures (TerminalView.onView o t) Linked :=
  ht.onView (ho.imp fun _ hw => ⟨ht.view.same hw, hw.sx, hw.sy⟩)

lemma Linked.selects (ht : Linked t) {o : Option View} (ho : Ensures o (Selects t.view)) :
    Ensures (TerminalView.onView o t) Linked :=
  ht.onView (ho.imp fun _ hw => ⟨ht.view.selects hw, hw.sx, hw.sy⟩)

section Output

/-- The byte inserts a character that is wider than what is left of its row. -/
def InsertsPastMargin (host : Host σ) (c : UInt8) (p : Parser σ) : Prop :=
  ∃ call ∈ (processByte host c p).calls, ShiftsPastMargin p.width call

instance (width : ℤ) : ∀ c, Decidable (ShiftsPastMargin width c)
  | .shiftRow _ _ _ => inferInstanceAs (Decidable (_ ∧ _))
  | .goto _ _ | .putCharAt _ _ _ _ | .putCharOffset _ _ _ | .scrollUp _ _ _ _ | .scrollDown _ _ _
  | .sendCString _ | .setTitle _ _ => inferInstanceAs (Decidable False)

instance (host : Host σ) (c : UInt8) (p : Parser σ) : Decidable (InsertsPastMargin host c p) :=
  inferInstanceAs (Decidable (∃ call ∈ (processByte host c p).calls, ShiftsPastMargin p.width call))

def afterByte (host : Host σ) (p : Parser σ) (c : UInt8) : Parser σ := (processByte host c p).parser

def ByteContained (host : Host σ) (p : Parser σ) (c : UInt8) : Prop :=
  ¬SetsNegativeRegion c p ∧ ¬StoresStrayTab c p ∧ ¬InsertsPastMargin host c p

instance (host : Host σ) (p : Parser σ) (c : UInt8) : Decidable (ByteContained host p c) :=
  inferInstanceAs (Decidable (_ ∧ _))

structure Reading (t : Session σ) : Prop extends Linked t where
  drawing : Drawing t.view

lemma receiveByte_reading (ht : Reading t) {c : UInt8} (hc : ByteContained host t.parser c) :
    Ensures (receiveByte host t c) fun u => Reading u ∧ u.parser = afterByte host t.parser c := by
  obtain ⟨hr, hs, hm⟩ := hc
  have hk : Keeps t.parser (processByte host c t.parser) := processByte_keeps ht.parser hr hs
  have hfits : ∀ call ∈ (processByte host c t.parser).calls, Fits t.view.sx t.view.sy call := by
    rw [← ht.width, ← ht.height]
    exact hk.fits
  have hshift : ∀ call ∈ (processByte host c t.parser).calls, ¬ShiftsPastMargin t.view.sx call := by
    rw [← ht.width]
    exact fun call hmem hpast => hm ⟨call, hmem, hpast⟩
  refine Ensures.bind (receive_all ht.drawing hfits hshift) fun w hw => ensures_pure ⟨?_, rfl⟩
  exact ⟨⟨hw.drawing.toSound, hk.sane, hk.width.trans (ht.width.trans hw.sx.symm),
    hk.height.trans (ht.height.trans hw.sy.symm)⟩, hw.drawing⟩

lemma receiveBytes_reading (bytes : List UInt8) (ht : Reading t)
    (hb : Along (afterByte host) (ByteContained host) t.parser bytes) :
    Ensures (bytes.foldlM (receiveByte host) t) Reading := by
  induction bytes generalizing t with
  | nil => exact ensures_pure ht
  | cons c cs ih =>
    rw [List.foldlM_cons]
    refine Ensures.bind (receiveByte_reading ht hb.1) fun u hu => ih hu.1 ?_
    rw [hu.2]
    exact hb.2

lemma startReading_draws (hv : Sound v) : Ensures (startReading v) (Draws v) := by
  have hu : Sound { v with numScrolls := 0, dirty := { v.dirty with x0 := -1 }, currentX := v.cursorX, currentY := v.cursorY } :=
    { hv with }
  refine (clearSelection_selects hu.arranged).imp fun w hw => ⟨⟨hu.selects hw, ?_, ?_, ?_, ?_⟩, hw.sx, hw.sy⟩
  all_goals simp only [hw.currentX, hw.currentY, hw.sx, hw.sy]
  exacts [hv.cursorX_nonneg, hv.cursorX_lt, hv.cursorY_nonneg, hv.cursorY_lt]

lemma showCursor_same (hv : Drawing v) : Ensures (showCursor v) (Same v) := by
  simp only [showCursor]
  split_ifs
  · have hd := addDirty_same v.currentX v.currentY 1 1 v
    refine Ensures.bind (markCurrent_same (hv.same hd)) fun w hw => ?_
    exact ensures_pure ((hd.trans hw).trans (addDirty_same _ _ _ _ w))
  · exact ensures_some (Same.refl v)

lemma finishReading_sound (hv : Sound v) : Sound (finishReading v) := by
  have hsb := hv.sb_nonneg
  simp only [finishReading]
  split_ifs
  · exact { hv with scroll_lower := by simpa [setNeedsDisplay, setNeedsLazyDisplay] using hsb, scroll_le := le_rfl }
  · exact { hv with }
  · exact { hv with }
  · exact hv

lemma finishReading_size (v : View) : (finishReading v).sx = v.sx ∧ (finishReading v).sy = v.sy := by
  simp only [finishReading]
  split_ifs <;> exact ⟨rfl, rfl⟩

lemma readData_linked (ht : Linked t) {bytes : List UInt8}
    (hb : Along (afterByte host) (ByteContained host) t.parser bytes) : Ensures (readData host bytes t) Linked := by
  refine Ensures.bind (startReading_draws ht.view) fun v hv => ?_
  have hr : Reading { t with view := v } :=
    ⟨⟨hv.drawing.toSound, ht.parser, ht.width.trans hv.sx.symm, ht.height.trans hv.sy.symm⟩, hv.drawing⟩
  refine Ensures.bind (receiveBytes_reading bytes hr hb) fun u hu => ?_
  refine Ensures.bind (showCursor_same hu.drawing) fun w hw => ensures_pure ?_
  obtain ⟨hx, hy⟩ := finishReading_size w
  exact ⟨finishReading_sound (hu.view.same hw), hu.parser, hu.width.trans (hw.sx.symm.trans hx.symm),
    hu.height.trans (hw.sy.symm.trans hy.symm)⟩

end Output

section Resize

/-- The cursor is not just past the new right or bottom margin, and a higher screen does not take back lines
that are scrolled to. -/
def ResizeFits (nsx nsy : ℤ) (v : View) : Prop :=
  v.cursorX ≠ nsx ∧ (nsy < v.sy → v.cursorY ≠ nsy) ∧
    (v.sy < nsy → -v.currentScroll ≤ v.sbLength - min (nsy - v.cursorY - 1) v.sbLength)

instance (nsx nsy : ℤ) (v : View) : Decidable (ResizeFits nsx nsy v) := inferInstanceAs (Decidable (_ ∧ _))

lemma length_blankMemory {cells : ℤ} (h : 0 ≤ cells) : ((blankMemory cells).length : ℤ) = cells := by
  rw [blankMemory, List.length_replicate, Int.toNat_of_nonneg h]

structure Buffers.Sized (nsx nsy : ℤ) (v : View) (b : Buffers) : Prop where
  screen : (b.nscreen.length : ℤ) = nsy * nsx
  sbuf : (b.nsbuf.length : ℤ) = v.maxScrollback * nsx

lemma copyRow_sized (hv : Arranged v) {nsx nsy copySx iy ny : ℤ} {b : Buffers} (hb : b.Sized nsx nsy v)
    (hc0 : 0 ≤ copySx) (hcs : copySx ≤ v.sx) (hcn : copySx ≤ nsx) (hi : -v.sbLength ≤ iy) (his : iy < v.sy)
    (hn : -v.maxScrollback ≤ ny) (hns : ny < nsy) :
    Ensures (copyRow nsx copySx iy ny v b) (Buffers.Sized nsx nsy v) := by
  have hsrow : ∀ {a n : ℤ}, 0 ≤ a → a < n → 0 ≤ v.sx * a ∧ v.sx * a + copySx ≤ n * v.sx := by
    intro a n ha hn
    constructor <;> nlinarith
  have hdrow : ∀ {a n : ℤ}, 0 ≤ a → a < n → 0 ≤ nsx * a ∧ nsx * a + copySx ≤ n * nsx := by
    intro a n ha hn
    constructor <;> nlinarith
  have hsb := hv.sb_le
  have hsrc : Inside (rowBuffer iy v).length (rowStart iy v) copySx := by
    simp only [rowBuffer, rowStart]
    split_ifs with hneg
    · obtain ⟨h0, h1⟩ := hsrow (a := v.maxScrollback + iy) (n := v.maxScrollback) (by omega) (by omega)
      exact inside_of_le h0 (h1.trans hv.sbuf_length)
    · obtain ⟨h0, h1⟩ := hsrow (a := iy) (n := v.sy) (by omega) his
      exact inside_of_le h0 (h1.trans hv.screen_length.ge)
  simp only [copyRow]
  split_ifs with hneg
  · obtain ⟨h0, h1⟩ := hdrow (a := v.maxScrollback + ny) (n := v.maxScrollback) (by omega) (by omega)
    refine Ensures.bind (move_ensures hc0 (inside_of_le h0 (h1.trans hb.sbuf.ge)) hsrc) fun nsbuf hl => ?_
    refine ensures_pure ⟨hb.screen, ?_⟩
    simp only [hl, hb.sbuf]
  · obtain ⟨h0, h1⟩ := hdrow (a := ny) (n := nsy) (by omega) hns
    refine Ensures.bind (move_ensures hc0 (inside_of_le h0 (h1.trans hb.screen.ge)) hsrc) fun nscreen hl => ?_
    refine ensures_pure ⟨?_, hb.sbuf⟩
    simp only [hl, hb.screen]

lemma copyRows_sized (hv : Arranged v) {nsx nsy copySx : ℤ} (hc0 : 0 ≤ copySx) (hcs : copySx ≤ v.sx)
    (hcn : copySx ≤ nsx) (rows : List ℤ) (hr : ∀ iy ∈ rows, -v.sbLength ≤ iy ∧ iy < v.sy) {b : Buffers}
    (hb : b.Sized nsx nsy v) : Ensures (copyRows nsx nsy copySx v rows b) (Buffers.Sized nsx nsy v) := by
  induction rows generalizing b with
  | nil => exact ensures_pure hb
  | cons iy rows ih =>
    have hrest := fun jy hj => hr jy (List.mem_cons_of_mem iy hj)
    obtain ⟨hi, his⟩ := hr iy List.mem_cons_self
    simp only [copyRows]
    split_ifs with hlast hskip
    · exact ensures_pure hb
    · exact ih hrest hb
    · refine Ensures.bind (copyRow_sized hv hb hc0 hcs hcn hi his ?_ ?_) fun c hc => ih hrest hc
      · exact not_lt.mp hskip
      · exact not_le.mp hlast

lemma reshape_sound (hv : Sound v) (hz : v.selection.length = 0) {nsx nsy : ℤ} (hx : 1 ≤ nsx) (hy : 1 ≤ nsy)
    (hf : ResizeFits nsx nsy v) : Ensures (reshape nsx nsy v) fun w => Sound w ∧ w.sx = nsx ∧ w.sy = nsy := by
  obtain ⟨hcx, hcy, hsc⟩ := hf
  have hsx := hv.sx_pos
  have hm := hv.max_nonneg
  have hsb0 := hv.sb_nonneg
  have hsb := hv.sb_le
  have hscl := hv.scroll_lower
  have hscu := hv.scroll_le
  have hx0 := hv.cursorX_nonneg
  have hxl := hv.cursorX_lt
  have hy0 := hv.cursorY_nonneg
  have hyl := hv.cursorY_lt
  have hb : Buffers.Sized nsx nsy v ⟨blankMemory (nsx * nsy), blankMemory (nsx * v.maxScrollback)⟩ := by
    constructor
    · rw [length_blankMemory (mul_nonneg (by omega) (by omega)), mul_comm]
    · rw [length_blankMemory (mul_nonneg (by omega) hm), mul_comm]
  have hcopy : Ensures (copyRows nsx nsy (if nsx < v.sx then nsx else v.sx) v (Int.range (-v.sbLength) v.sy)
      ⟨blankMemory (nsx * nsy), blankMemory (nsx * v.maxScrollback)⟩) (Buffers.Sized nsx nsy v) := by
    refine copyRows_sized hv.arranged ?_ ?_ ?_ _ (fun iy hi => Int.mem_range_iff.mp hi) hb
    all_goals split_ifs <;> omega
  refine Ensures.bind hcopy fun b hbz => ensures_pure ⟨?_, rfl, rfl⟩
  refine ⟨⟨?_, ?_, ?_, hscu, ?_, ?_, ?_, ?_, ?_⟩, hx, hy, hm, hbz.screen, hbz.sbuf.ge⟩
  · simp only [newSbLength]
    split_ifs <;> omega
  · simp only [newSbLength]
    split_ifs <;> omega
  · simp only [newSbLength, newCursorY, lineShift]
    split_ifs <;> omega
  · dsimp only
    split_ifs <;> omega
  · dsimp only
    split_ifs <;> omega
  · simp only [newCursorY, lineShift]
    split_ifs <;> omega
  · simp only [newCursorY, lineShift]
    split_ifs <;> omega
  · intro hpos
    exact absurd hpos (by simp [hz])

lemma atLeastOne_wrap32_mem (n : ℤ) : 1 ≤ atLeastOne (wrap32 n) ∧ atLeastOne (wrap32 n) < 2 ^ 31 := by
  have hu := wrap32_upper n
  simp only [atLeastOne]
  split_ifs <;> omega

def newSize (nsx nsy : ℤ) : ScreenSize where
  width := atLeastOne (wrap32 nsx)
  height := atLeastOne (wrap32 nsy)
  width_pos := (atLeastOne_wrap32_mem nsx).1
  width_lt := (atLeastOne_wrap32_mem nsx).2
  height_pos := (atLeastOne_wrap32_mem nsy).1
  height_lt := (atLeastOne_wrap32_mem nsy).2

lemma clearSelection_empty (hv : Arranged v) : Ensures (clearSelection v) fun w => Selects v w ∧ w.selection.length = 0 := by
  have hc : clampSelection ⟨0, 0⟩ v = ⟨0, 0⟩ := by
    have hsb := mul_nonneg hv.sb_nonneg (by linarith [hv.sx_pos] : 0 ≤ v.sx)
    have hcells := mul_nonneg (by linarith [hv.sx_pos] : 0 ≤ v.sx) (by linarith [hv.sy_pos] : 0 ≤ v.sy)
    simp only [clampSelection, neg_mul]
    rw [if_neg (by omega : ¬(0 : ℤ) < -(v.sbLength * v.sx))]
    exact if_neg (by simpa [SelectionRange.stop] using hcells)
  obtain ⟨w, hw, hs⟩ := clearSelection_selects hv
  refine ⟨w, hw, hs, ?_⟩
  simp only [clearSelection, setSelection, hc] at hw
  split_ifs at hw with hzero hsame
  · obtain rfl := Option.some.inj hw
    exact hzero.2
  · obtain rfl := Option.some.inj hw
    rw [← hsame]
  · simp only [Option.bind_eq_bind, Option.bind_eq_some_iff] at hw
    obtain ⟨_, _, _, _, u, _, hu⟩ := hw
    obtain rfl := Option.some.inj hu
    rfl

lemma resizeTerminalTo_linked (ht : Linked t) {nsx nsy : ℤ} {allocated : Bool}
    (hf : t.view.ignoreResize = false → allocated = true →
      ¬(atLeastOne (wrap32 nsx) = t.view.sx ∧ atLeastOne (wrap32 nsy) = t.view.sy) →
      ResizeFits (atLeastOne (wrap32 nsx)) (atLeastOne (wrap32 nsy)) t.view) :
    Ensures (resizeTerminalTo nsx nsy allocated t) Linked := by
  simp only [resizeTerminalTo]
  split_ifs with hig hsame hal
  · exact ensures_pure ht
  · exact ensures_pure ⟨{ ht.view with }, ht.parser, ht.width, ht.height⟩
  · refine Ensures.bind (clearSelection_empty ht.view.arranged) fun v hv => ?_
    obtain ⟨hs, hz⟩ := hv
    have hfit := hf (eq_false_of_ne_true hig) hal hsame
    have hfv : ResizeFits (atLeastOne (wrap32 nsx)) (atLeastOne (wrap32 nsy)) v := by
      simpa only [ResizeFits, hs.cursorX, hs.cursorY, hs.sy, hs.currentScroll, hs.sbLength] using hfit
    refine Ensures.bind (reshape_sound (ht.view.selects hs) hz (newSize nsx nsy).width_pos
      (newSize nsx nsy).height_pos hfv) fun w hw => ensures_pure ?_
    obtain ⟨hw, hx, hy⟩ := hw
    have hp : LinuxParser.Sane (setTerminalScreen (atLeastOne (wrap32 nsx)) (atLeastOne (wrap32 nsy)) w.cursorY t.parser) :=
      setTerminalScreen_sane ht.parser (newSize nsx nsy) w.cursorY
    rw [← hx, ← hy] at hp
    exact ⟨{ hw with }, hp, rfl, rfl⟩
  · refine Ensures.bind (clearSelection_selects ht.view.arranged) fun v hv => ensures_pure ?_
    exact ⟨ht.view.selects hv, ht.parser, ht.width.trans hv.sx.symm, ht.height.trans hv.sy.symm⟩

end Resize

section Display

lemma visibleCells_exist (hv : Sound v) {x0 x1 y0 y1 i : ℤ} (hi : i ∈ visibleCells x0 x1 y0 y1 v) :
    -(v.maxScrollback * v.sx) ≤ i ∧ i < v.sy * v.sx := by
  simp only [visibleCells, List.mem_flatMap, List.mem_map, Int.mem_range_iff] at hi
  obtain ⟨iy, ⟨hy0, hy1⟩, ix, ⟨hx0, hx1⟩, rfl⟩ := hi
  have hrow0 : 0 ≤ iy := by split_ifs at hy0 <;> omega
  have hrow1 : iy < v.sy := by split_ifs at hy1 <;> omega
  have hcol0 : 0 ≤ ix := by split_ifs at hx0 <;> omega
  have hcol1 : ix < v.sx := by split_ifs at hx1 <;> omega
  have hsc := hv.scroll_lower
  have hscu := hv.scroll_le
  have hsb := hv.sb_le
  have hlow := mul_le_mul_of_nonneg_right (by omega : -v.maxScrollback ≤ iy + v.currentScroll)
    (by omega : 0 ≤ v.sx)
  have hup := hv.row_end_le (y := iy + v.currentScroll) (by omega)
  rw [neg_mul] at hlow
  omega

lemma drawBackground_same (hv : Sound v) {cells : List ℤ}
    (hc : ∀ i ∈ cells, -(v.maxScrollback * v.sx) ≤ i ∧ i < v.sy * v.sx) (pen : Pen) :
    Ensures (cells.foldlM drawBackground (v, pen)) fun s => Same v s.1 := by
  refine ensures_foldlM cells (fun s hs i hi => ?_) (Same.refl v)
  obtain ⟨hl, hu⟩ := hc i hi
  rw [← hs.maxScrollback, ← hs.sx] at hl
  rw [← hs.sy, ← hs.sx] at hu
  have hz := (hv.same hs).toSized
  refine Ensures.bind (hz.cellAt_ensures hl hu) fun ch _ => ?_
  refine Ensures.bind (hz.updateCells_same _ fun _ => ⟨hl, by omega⟩) fun w hw => ensures_pure (hs.trans hw)

lemma drawCharacter_same (hv : Sound v) {cells : List ℤ}
    (hc : ∀ i ∈ cells, -(v.maxScrollback * v.sx) ≤ i ∧ i < v.sy * v.sx) :
    Ensures (cells.foldlM drawCharacter v) (Same v) := by
  refine ensures_foldlM cells (fun u hu i hi => ?_) (Same.refl v)
  obtain ⟨hl, hlt⟩ := hc i hi
  rw [← hu.maxScrollback, ← hu.sx] at hl
  rw [← hu.sy, ← hu.sx] at hlt
  exact ((hv.same hu).updateCells_same _ fun _ => ⟨hl, by omega⟩).imp fun w hw => hu.trans hw

lemma cursorCell_ensures (hv : Sound v) : Ensures (cursorCell v) fun _ => True := by
  simp only [cursorCell]
  split_ifs
  · have hx := hv.cursorX_nonneg
    have hxl := hv.cursorX_lt
    have hr := hv.row_end_le hv.cursorY_lt
    have h0 := mul_nonneg hv.cursorY_nonneg (by linarith [hv.sx_pos] : 0 ≤ v.sx)
    refine read_ensures v.screen (by omega) ?_
    rw [hv.screen_length]
    omega
  · exact ensures_some trivial

lemma drawRect_same (hv : Sound v) (x0 x1 y0 y1 : ℤ) : Ensures (drawRect x0 x1 y0 y1 v) (Same v) := by
  have hp := handlePendingScroll_same v
  have hu := hv.same hp
  have hc : ∀ i ∈ visibleCells x0 x1 y0 y1 (handlePendingScroll v),
      -((handlePendingScroll v).maxScrollback * (handlePendingScroll v).sx) ≤ i ∧
        i < (handlePendingScroll v).sy * (handlePendingScroll v).sx := fun i hi => visibleCells_exist hu hi
  refine Ensures.bind (cursorCell_ensures hu) fun _ _ => ?_
  refine Ensures.bind (drawBackground_same hu hc _) fun s hs => ?_
  have hcs : ∀ i ∈ visibleCells x0 x1 y0 y1 (handlePendingScroll v), -(s.1.maxScrollback * s.1.sx) ≤ i ∧
      i < s.1.sy * s.1.sx := by
    rw [hs.maxScrollback, hs.sx, hs.sy]
    exact hc
  refine Ensures.bind (drawCharacter_same (hu.same hs) hcs) fun w hw => ensures_pure ?_
  exact ((hp.trans hs).trans hw).trans ⟨by constructor <;> rfl, rfl⟩

lemma scrollTo_sound (hv : Sound v) (newScroll : ℤ) : Sound (scrollTo newScroll v) := by
  have hsb := hv.sb_nonneg
  simp only [scrollTo]
  split_ifs
  any_goals exact hv
  all_goals refine { hv with scroll_lower := ?_, scroll_le := ?_ } <;> simp only [setNeedsDisplay] <;> omega

lemma scrollTo_size (newScroll : ℤ) (v : View) :
    (scrollTo newScroll v).sx = v.sx ∧ (scrollTo newScroll v).sy = v.sy := by
  simp only [scrollTo]
  split_ifs <;> exact ⟨rfl, rfl⟩

/-- The new length keeps the saved lines and the part of the selection that is above the screen. -/
def MaxLengthFits (lines : ℤ) (v : View) : Prop :=
  lines = v.maxScrollback ∨ 0 ≤ lines ∧ (lines = 0 ∨ v.sbLength ≤ lines) ∧
    (0 < v.selection.length → -(lines * v.sx) ≤ v.selection.location)

instance (lines : ℤ) (v : View) : Decidable (MaxLengthFits lines v) := inferInstanceAs (Decidable (_ ∨ _))

lemma setScrollBufferMaxLength_sound (hv : Sound v) {lines : ℤ} (hf : MaxLengthFits lines v) :
    Sound (setScrollBufferMaxLength lines v) := by
  have hx := hv.sx_pos
  have hsel := hv.selection
  simp only [setScrollBufferMaxLength]
  by_cases heq : v.maxScrollback = lines
  · rw [if_pos heq]
    exact hv
  · obtain ⟨h0, hsb, hs⟩ := hf.resolve_left (Ne.symm heq)
    have hin : SelectionInside { v with maxScrollback := lines } := fun hlen => ⟨hs hlen, (hsel hlen).2⟩
    have hlen : ∀ n, lines ≤ n → lines * v.sx ≤ ((blankMemory (v.sx * n)).length : ℤ) := by
      intro n hn
      rw [length_blankMemory (mul_nonneg (by omega) (by omega)), mul_comm]
      exact mul_le_mul_of_nonneg_left hn (by omega)
    rw [if_neg heq]
    by_cases hzero : lines = 0
    · rw [if_pos hzero]
      exact { hv with
        sb_nonneg := le_rfl, sb_le := h0, scroll_lower := le_rfl, scroll_le := le_rfl, selection := hin
        max_nonneg := h0, sbuf_length := hlen _ (by split_ifs <;> omega) }
    · rw [if_neg hzero]
      have hmax : lines ≤ if 0 < lines then lines else 1 := by split_ifs <;> omega
      exact { hv with
        sb_le := hsb.resolve_left hzero, selection := hin, max_nonneg := h0, sbuf_length := hlen _ hmax }

lemma setScrollBufferMaxLength_size (lines : ℤ) (v : View) :
    (setScrollBufferMaxLength lines v).sx = v.sx ∧ (setScrollBufferMaxLength lines v).sy = v.sy := by
  simp only [setScrollBufferMaxLength]
  split_ifs <;> exact ⟨rfl, rfl⟩

end Display

/-- What an event must not do in the state it reaches: output that leaves the parser's screen, a resize or a
new scrollback length that does not fit, a word below the last row, reading a selection whose last cell is
blank. -/
def Admitted (host : Host σ) (t : Session σ) : Event → Prop
  | .readData bytes => Along (afterByte host) (ByteContained host) t.parser bytes
  | .resizeTerminalTo nsx nsy allocated =>
    t.view.ignoreResize = false → allocated = true →
      ¬(atLeastOne (wrap32 nsx) = t.view.sx ∧ atLeastOne (wrap32 nsy) = t.view.sy) →
      ResizeFits (atLeastOne (wrap32 nsx)) (atLeastOne (wrap32 nsy)) t.view
  | .setScrollBufferMaxLength lines => MaxLengthFits lines t.view
  | .mouseDown clickCount _ py => clickCount = 2 → pointRow py t.view < t.view.sy
  | .mouseDragged _ py => ∀ s ∈ t.view.tracking, s.clickCount = 2 → pointRow py t.view < t.view.sy
  | .mouseUp => t.view.tracking.isSome → ¬(0 < t.view.selection.length ∧ EndsBlank t.view)
  | .copySelection => ¬(0 < t.view.selection.length ∧ EndsBlank t.view)
  | .setIgnoreResize _ | .scrollTo _ | .clearBuffer | .setScrollBottomOnInput _ | .selectAll
  | .setSelectedRange _ _ | .stringRepresentation | .drawRect _ _ _ _ => True

instance (host : Host σ) (t : Session σ) : ∀ e, Decidable (Admitted host t e)
  | .readData _ => decidableAlong _ _
  | .resizeTerminalTo _ _ _ => inferInstanceAs (Decidable (_ → _))
  | .setScrollBufferMaxLength _ => inferInstanceAs (Decidable (_ ∨ _))
  | .mouseDown _ _ _ => inferInstanceAs (Decidable (_ → _))
  | .mouseDragged _ py => inferInstanceAs (Decidable (∀ s ∈ t.view.tracking, s.clickCount = 2 → pointRow py t.view < t.view.sy))
  | .mouseUp => inferInstanceAs (Decidable (_ → _))
  | .copySelection => inferInstanceAs (Decidable (¬_))
  | .setIgnoreResize _ | .scrollTo _ | .clearBuffer | .setScrollBottomOnInput _ | .selectAll
  | .setSelectedRange _ _ | .stringRepresentation | .drawRect _ _ _ _ => inferInstanceAs (Decidable True)

lemma mouseDragged_selects (hv : Sound v) (sets : CharacterSets) (px : ℤ) {py : ℤ}
    (hw : ∀ s ∈ v.tracking, s.clickCount = 2 → pointRow py v < v.sy) :
    Ensures (mouseDragged sets px py v) (Selects v) := by
  simp only [mouseDragged]
  cases ht : v.tracking with
  | none => exact ensures_some ⟨(Same.refl v).toFrame, hv.selection⟩
  | some s => exact trackMouse_selects hv sets (some s) px (hw s ht)

lemma mouseUp_selects (hv : Sound v) (hb : v.tracking.isSome → ¬(0 < v.selection.length ∧ EndsBlank v)) :
    Ensures (mouseUp v) (Selects v) := by
  have hu : Same v { v with tracking := none } := ⟨by constructor <;> rfl, rfl⟩
  simp only [mouseUp]
  split_ifs with h
  · refine (copySelection_same (hv.same hu) (hb h.1)).imp fun w hw => ?_
    exact ⟨(hu.trans hw).toFrame, hv.selection.same (hu.trans hw)⟩
  · exact ensures_some ⟨hu.toFrame, hv.selection.same hu⟩

lemma step_linked (sets : CharacterSets) (t : Session σ) (e : Event) (ht : Linked t) (he : Admitted host t e) :
    Ensures (step host sets t e) Linked := by
  have hv := ht.view
  have hframe : ∀ w : View, Frame t.view w → w.selection = t.view.selection →
      Ensures (TerminalView.onView (some w) t) Linked := fun w hf hs => ht.same (ensures_some ⟨hf, hs⟩)
  cases e with
  | readData bytes => exact readData_linked ht he
  | resizeTerminalTo nsx nsy allocated => exact resizeTerminalTo_linked ht he
  | setIgnoreResize ignore => exact hframe _ (by constructor <;> rfl) rfl
  | scrollTo newScroll =>
    exact ht.onView (ensures_some ⟨scrollTo_sound hv newScroll, scrollTo_size newScroll t.view⟩)
  | clearBuffer =>
    refine ht.onView (ensures_some ⟨?_, rfl, rfl⟩)
    exact { hv with sb_nonneg := le_rfl, sb_le := hv.max_nonneg, scroll_lower := le_rfl, scroll_le := le_rfl }
  | setScrollBufferMaxLength lines =>
    exact ht.onView (ensures_some ⟨setScrollBufferMaxLength_sound hv he, setScrollBufferMaxLength_size lines t.view⟩)
  | setScrollBottomOnInput scrollBottom => exact hframe _ (by constructor <;> rfl) rfl
  | mouseDown clickCount px py => exact ht.selects (trackMouse_selects hv sets none px he)
  | mouseDragged px py => exact ht.selects (mouseDragged_selects hv sets px he)
  | mouseUp => exact ht.selects (mouseUp_selects hv he)
  | selectAll => exact ht.selects (setSelection_selects hv.arranged _)
  | setSelectedRange location length => exact ht.selects (setSelection_selects hv.arranged _)
  | copySelection => exact ht.same (copySelection_same hv he)
  | stringRepresentation => exact Ensures.bind (stringRepresentation_ensures hv) fun _ _ => ensures_pure ht
  | drawRect x0 x1 y0 y1 => exact ht.same (drawRect_same hv x0 x1 y0 y1)

lemma calls_andThen {Q : ScreenCall → Prop} {o : Outcome σ} {f : Parser σ → Outcome σ} (ho : ∀ c ∈ o.calls, Q c)
    (hf : ∀ p, ∀ c ∈ (f p).calls, Q c) : ∀ c ∈ (o.andThen f).calls, Q c := by
  intro c hc
  simp only [Outcome.andThen] at hc
  split at hc
  · exact ho c hc
  · rcases List.mem_append.mp hc with h | h
    · exact ho c h
    · exact hf _ c h

lemma calls_tell {Q : ScreenCall → Prop} {call : ScreenCall} (h : Q call) (p : Parser σ) :
    ∀ c ∈ (tell call p).calls, Q c := by
  intro c hc
  obtain rfl := List.mem_singleton.mp hc
  exact h

lemma calls_stay {Q : ScreenCall → Prop} (p : Parser σ) : ∀ c ∈ (stay p).calls, Q c := fun _ hc => by cases hc

lemma initWithTerminalScreen_shifts (size : ScreenSize) (cd : Option σ) (width : ℤ) :
    ∀ c ∈ (initWithTerminalScreen size.width size.height cd).calls, ¬ShiftsPastMargin width c := by
  refine calls_andThen ?_ fun p => calls_stay _
  refine calls_andThen (calls_andThen ?_ fun p => calls_stay _) fun p => ?_
  · have hgoto : ∀ x y, ¬ShiftsPastMargin width (.goto x y) := fun _ _ => id
    exact calls_tell (hgoto _ _) _
  · have hput : ∀ ch n ofs, ¬ShiftsPastMargin width (.putCharOffset ch n ofs) := fun _ _ _ => id
    exact calls_tell (hput _ _ _) _

lemma initWithFrame_reading (size : ScreenSize) (lines : ℕ) (scrollBottom : Bool) (cd : Option σ) :
    Ensures (initWithFrame size lines scrollBottom cd) Reading := by
  have hw := size.width_pos
  have hh := size.height_pos
  let v : View :=
    { sx := size.width, sy := size.height, maxScrollback := lines
      screen := blankMemory (size.width * size.height), sbuf := blankMemory (size.width * lines)
      scrollBottomOnInput := scrollBottom }
  have hs : ((blankMemory (size.width * size.height)).length : ℤ) = size.height * size.width := by
    rw [length_blankMemory (mul_nonneg (by omega) (by omega)), mul_comm]
  have hb : (lines : ℤ) * size.width ≤ ((blankMemory (size.width * lines)).length : ℤ) := by
    rw [length_blankMemory (mul_nonneg (by omega) (by omega)), mul_comm]
  have hv : Drawing v := by
    refine ⟨⟨⟨le_rfl, ?_, le_rfl, le_rfl, le_rfl, hw, le_rfl, hh, ?_⟩, hw, hh, ?_, hs, hb⟩, le_rfl, hw, le_rfl, hh⟩
    · exact Int.natCast_nonneg lines
    · exact fun hpos => absurd hpos (lt_irrefl 0)
    · exact Int.natCast_nonneg lines
  have hk := initWithTerminalScreen_keeps size cd
  refine Ensures.bind (receive_all hv hk.fits (initWithTerminalScreen_shifts size cd _)) fun w hw => ensures_pure ?_
  exact ⟨⟨hw.drawing.toSound, hk.sane, hk.width.trans hw.sx.symm, hk.height.trans hw.sy.symm⟩, hw.drawing⟩

lemma initWithFrame_linked (size : ScreenSize) (lines : ℕ) (scrollBottom : Bool) (cd : Option σ) :
    Ensures (initWithFrame size lines scrollBottom cd) Linked :=
  (initWithFrame_reading size lines scrollBottom cd).imp fun _ ht => ht.toLinked

def runFrom (host : Host σ) (sets : CharacterSets) (size : ScreenSize) (lines : ℕ) (scrollBottom : Bool)
    (cd : Option σ) (es : List Event) : Option (Session σ) := do
  let t ← initWithFrame size lines scrollBottom cd
  tryRun (step host sets) t es

theorem runFrom_inv (host : Host σ) (sets : CharacterSets) (size : ScreenSize) (lines : ℕ) (scrollBottom : Bool)
    (cd : Option σ) (es : List Event)
    (h : ∀ t ∈ initWithFrame size lines scrollBottom cd, Admits (step host sets) (Admitted host) t es) :
    Ensures (runFrom host sets size lines scrollBottom cd es) fun t => Inv t.view := by
  obtain ⟨t, ht, hl⟩ := initWithFrame_linked size lines scrollBottom cd
  simp only [runFrom, ht, Option.bind_eq_bind, Option.bind_some]
  exact (tryRun_ensures (step_linked sets) hl (h t ht)).imp fun u hu => hu.view.toInv

def size4x3 : ScreenSize where
  width := 4
  height := 3
  width_pos := by decide
  width_lt := by decide
  height_pos := by decide
  height_lt := by decide

def output (text : String) : Event := .readData (text.toList.map fun c => c.toNat.toUInt8)

def wordSets : CharacterSets := [fun ch => decide (0x61 ≤ ch ∧ ch ≤ 0x7a), fun ch => decide (ch = 0x20)]

/-- Three lines have been saved when the scrollback is cut to two. -/
theorem shortened_scrollback_not_inv :
    ¬Ensures (runFrom latinHost wordSets size4x3 5 true none [output "\n\n\n\n\n", .setScrollBufferMaxLength 2])
      fun t => Inv t.view := by
  rintro ⟨t, ht, hinv⟩
  have hlong : (runFrom latinHost wordSets size4x3 5 true none [output "\n\n\n\n\n", .setScrollBufferMaxLength 2]).all
      fun t => decide (t.view.maxScrollback < t.view.sbLength) := by
    decide
  rw [ht] at hlong
  exact not_le.mpr (of_decide_eq_true hlong) hinv.sb_le

theorem runFrom_inv_session :
    Ensures (runFrom latinHost wordSets size4x3 5 true none
      [output "ab cd\r\nefg\r\nhi\r\n\x1b[2P\x1b[4h x", .scrollTo (-1), .mouseDown 2 1 2, .mouseDragged 3 1, .mouseUp,
        .resizeTerminalTo 6 4 true, .selectAll, .drawRect 0 6 0 2, .setSelectedRange 1 3, .copySelection,
        .setScrollBufferMaxLength 4, .stringRepresentation, .clearBuffer, output "z"]) fun t => Inv t.view := by
  apply runFrom_inv
  decide +kernel

end Xperimentum.Terminal.TerminalView
