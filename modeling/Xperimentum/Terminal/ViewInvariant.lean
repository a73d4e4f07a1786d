import Mathlib.Tactic
import Xperimentum.Lib.Partial
import Xperimentum.Terminal.ParserInvariant
import Xperimentum.Terminal.ViewEvents

/-! The invariant of a `TerminalView`, and what its operations keep of it: each one ends, with every index
inside its array. -/

namespace Xperimentum.Terminal.TerminalView

open Xperimentum.Lib.Memory Xperimentum.Lib.Partial Xperimentum.Terminal.LinuxParser

variable {v w u : View}

/-- The selected cells all exist; an empty selection may be anywhere. -/
def SelectionInside (v : View) : Prop :=
  0 < v.selection.length → -(v.maxScrollback * v.sx) ≤ v.selection.location ∧ v.selection.stop ≤ v.sx * v.sy

structure Inv (v : View) : Prop where
  sb_nonneg : 0 ≤ v.sbLength
  sb_le : v.sbLength ≤ v.maxScrollback
  scroll_lower : -v.sbLength ≤ v.currentScroll
  scroll_le : v.currentScroll ≤ 0
  cursorX_nonneg : 0 ≤ v.cursorX
  cursorX_lt : v.cursorX < v.sx
  cursorY_nonneg : 0 ≤ v.cursorY
  cursorY_lt : v.cursorY < v.sy
  selection : SelectionInside v

structure Sized (v : View) : Prop where
  sx_pos : 1 ≤ v.sx
  sy_pos : 1 ≤ v.sy
  max_nonneg : 0 ≤ v.maxScrollback
  screen_length : (v.screen.length : ℤ) = v.sy * v.sx
  sbuf_length : v.maxScrollback * v.sx ≤ v.sbuf.length

structure Sound (v : View) : Prop extends Inv v, Sized v

/-- The part of it without the cursor and the scroller. -/
structure Arranged (v : View) : Prop extends Sized v where
  sb_nonneg : 0 ≤ v.sbLength
  sb_le : v.sbLength ≤ v.maxScrollback
  selection : SelectionInside v

lemma Sound.arranged (hv : Sound v) : Arranged v := ⟨hv.toSized, hv.sb_nonneg, hv.sb_le, hv.selection⟩

structure Drawing (v : View) : Prop extends Sound v where
  currentX_nonneg : 0 ≤ v.currentX
  currentX_lt : v.currentX < v.sx
  currentY_nonneg : 0 ≤ v.currentY
  currentY_lt : v.currentY < v.sy

/-- Everything the invariant reads, the selection apart, is the same in both states. -/
structure Frame (v w : View) : Prop where
  sx : w.sx = v.sx
  sy : w.sy = v.sy
  maxScrollback : w.maxScrollback = v.maxScrollback
  sbLength : w.sbLength = v.sbLength
  currentScroll : w.currentScroll = v.currentScroll
  cursorX : w.cursorX = v.cursorX
  cursorY : w.cursorY = v.cursorY
  currentX : w.currentX = v.currentX
  currentY : w.currentY = v.currentY
  screen : w.screen.length = v.screen.length
  sbuf : w.sbuf.length = v.sbuf.length

structure Same (v w : View) : Prop extends Frame v w where
  selection : w.selection = v.selection

lemma Frame.trans (h : Frame v w) (h' : Frame w u) : Frame v u :=
  ⟨h'.sx.trans h.sx, h'.sy.trans h.sy, h'.maxScrollback.trans h.maxScrollback, h'.sbLength.trans h.sbLength,
    h'.currentScroll.trans h.currentScroll, h'.cursorX.trans h.cursorX, h'.cursorY.trans h.cursorY,
    h'.currentX.trans h.currentX, h'.currentY.trans h.currentY, h'.screen.trans h.screen, h'.sbuf.trans h.sbuf⟩

lemma Same.refl (v : View) : Same v v := ⟨by constructor <;> rfl, rfl⟩

lemma Same.trans (h : Same v w) (h' : Same w u) : Same v u :=
  ⟨h.toFrame.trans h'.toFrame, h'.selection.trans h.selection⟩

lemma Sized.frame (hv : Sized v) (h : Frame v w) : Sized w := by
  obtain ⟨h1, h2, h3, h4, h5⟩ := hv
  constructor <;> simp only [h.sx, h.sy, h.maxScrollback, h.screen, h.sbuf] <;> assumption

lemma Sound.frame (hv : Sound v) (h : Frame v w) (hs : SelectionInside w) : Sound w := by
  refine ⟨⟨?_, ?_, ?_, ?_, ?_, ?_, ?_, ?_, hs⟩, hv.toSized.frame h⟩
  all_goals simp only [h.sx, h.sy, h.maxScrollback, h.sbLength, h.currentScroll, h.cursorX, h.cursorY]
  exacts [hv.sb_nonneg, hv.sb_le, hv.scroll_lower, hv.scroll_le, hv.cursorX_nonneg, hv.cursorX_lt,
    hv.cursorY_nonneg, hv.cursorY_lt]

lemma SelectionInside.same (hv : SelectionInside v) (h : Same v w) : SelectionInside w := by
  simp only [SelectionInside, h.sx, h.sy, h.maxScrollback, h.selection]
  exact hv

lemma Sound.same (hv : Sound v) (h : Same v w) : Sound w := hv.frame h.toFrame (hv.selection.same h)

lemma Drawing.same (hv : Drawing v) (h : Same v w) : Drawing w := by
  refine ⟨hv.toSound.same h, ?_, ?_, ?_, ?_⟩
  all_goals simp only [h.sx, h.sy, h.currentX, h.currentY]
  exacts [hv.currentX_nonneg, hv.currentX_lt, hv.currentY_nonneg, hv.currentY_lt]

section Indices

lemma Sized.screen_rows (h : Sized v) {a k : ℤ} (ha : 0 ≤ a) (hk : a + k ≤ v.sy) :
    Inside v.screen.length (a * v.sx) (k * v.sx) := by
  have hx := h.sx_pos
  refine inside_of_le (mul_nonneg ha (by omega)) ?_
  rw [h.screen_length, ← add_mul]
  exact mul_le_mul_of_nonneg_right hk (by omega)

lemma Sized.sbuf_rows (h : Sized v) {a k : ℤ} (ha : 0 ≤ a) (hk : a + k ≤ v.maxScrollback) :
    Inside v.sbuf.length (v.sx * a) (v.sx * k) := by
  have hx := h.sx_pos
  refine inside_of_le (mul_nonneg (by omega) ha) ?_
  have hm := mul_le_mul_of_nonneg_left hk (by omega : 0 ≤ v.sx)
  have hl := h.sbuf_length
  rw [mul_comm] at hl
  linarith

lemma Sized.row_end_le (h : Sized v) {y : ℤ} (hy : y < v.sy) : y * v.sx + v.sx ≤ v.sy * v.sx := by
  have hm := mul_le_mul_of_nonneg_right (Int.add_one_le_of_lt hy) (by linarith [h.sx_pos] : 0 ≤ v.sx)
  linarith

lemma Sized.row_cells (h : Sized v) {y a c : ℤ} (hy : 0 ≤ y) (hys : y < v.sy) (ha : 0 ≤ a) (hc : a + c ≤ v.sx) :
    Inside v.screen.length (y * v.sx + a) c := by
  have hm : 0 ≤ y * v.sx := mul_nonneg hy (by linarith [h.sx_pos])
  have hr := h.row_end_le hys
  refine inside_of_le (by omega) ?_
  rw [h.screen_length]
  omega

lemma Sized.cellAt_ensures (h : Sized v) {i : ℤ} (hl : -(v.maxScrollback * v.sx) ≤ i) (hu : i < v.sy * v.sx) :
    Ensures (cellAt v i) fun _ => True := by
  have hs := h.screen_length
  have hb := h.sbuf_length
  simp only [cellAt]
  split_ifs with hi
  · exact read_ensures v.sbuf (by omega) (by omega)
  · exact read_ensures v.screen (by omega) (by omega)

lemma Sized.updateCells_same (h : Sized v) (f : ScreenChar → ScreenChar) {lo hi : ℤ}
    (hr : lo < hi → -(v.maxScrollback * v.sx) ≤ lo ∧ hi ≤ v.sy * v.sx) :
    Ensures (updateCells f lo hi v) (Same v) := by
  have hs := h.screen_length
  have hb := h.sbuf_length
  have hsb : Inside v.sbuf.length (v.maxScrollback * v.sx + lo) (min hi 0 - lo) := by
    by_cases hlt : lo < min hi 0
    · have hin := hr (by omega)
      exact inside_of_le (by omega) (by omega)
    · exact .inl (by omega)
  have hsc : Inside v.screen.length (max lo 0) (hi - max lo 0) := by
    by_cases hlt : max lo 0 < hi
    · have hin := hr (by omega)
      exact inside_of_le (by omega) (by omega)
    · exact .inl (by omega)
  refine Ensures.bind (update_ensures f hsb) fun sbuf hsbuf => ?_
  refine Ensures.bind (update_ensures f hsc) fun screen hscreen => ?_
  exact ensures_pure ⟨⟨rfl, rfl, rfl, rfl, rfl, rfl, rfl, rfl, rfl, hscreen, hsbuf⟩, rfl⟩

end Indices

section Calls

/-- What a call of the parser leaves: the view can still be drawn in, at the same size. -/
structure Draws (v w : View) : Prop where
  drawing : Drawing w
  sx : w.sx = v.sx
  sy : w.sy = v.sy

lemma Drawing.draws (hv : Drawing v) (h : Same v w) : Draws v w := ⟨hv.same h, h.sx, h.sy⟩

lemma Draws.trans (h : Draws v w) (h' : Draws w u) : Draws v u :=
  ⟨h'.drawing, h'.sx.trans h.sx, h'.sy.trans h.sy⟩

lemma addDirty_same (ax0 ay0 asx asy : ℤ) (v : View) : Same v (addDirty ax0 ay0 asx asy v) := by
  simp only [addDirty]
  split_ifs <;> exact ⟨by constructor <;> rfl, rfl⟩

lemma handlePendingScroll_same (v : View) : Same v (handlePendingScroll v) := by
  simp only [handlePendingScroll]
  split_ifs <;> exact ⟨by constructor <;> rfl, rfl⟩

lemma compositeRow_same (v : View) : Same v (compositeRow v) := by
  simp only [compositeRow]
  split_ifs
  · exact Same.refl v
  · exact (handlePendingScroll_same v).trans ⟨by constructor <;> rfl, rfl⟩

lemma compositeScroll_same (t b delta : ℤ) (v : View) : Same v (compositeScroll t b delta v) := by
  simp only [compositeScroll]
  split_ifs
  · exact Same.refl v
  · exact ⟨by constructor <;> rfl, rfl⟩
  · exact (handlePendingScroll_same v).trans ⟨by constructor <;> rfl, rfl⟩

lemma setScreen_same {screen : List ScreenChar} (h : screen.length = v.screen.length) :
    Same v { v with screen := screen } :=
  ⟨⟨rfl, rfl, rfl, rfl, rfl, rfl, rfl, rfl, rfl, h, rfl⟩, rfl⟩

lemma intoScreen_mem (n : ℤ) {size : ℤ} (h : 1 ≤ size) : 0 ≤ intoScreen n size ∧ intoScreen n size < size := by
  simp only [intoScreen]
  split_ifs <;> omega

lemma ts_goto_draws (hv : Drawing v) (x y : ℤ) : Draws v (ts_goto x y v) := by
  obtain ⟨hx0, hx⟩ := intoScreen_mem x hv.sx_pos
  obtain ⟨hy0, hy⟩ := intoScreen_mem y hv.sy_pos
  exact ⟨{ hv with cursorX_nonneg := hx0, cursorX_lt := hx, cursorY_nonneg := hy0, cursorY_lt := hy }, rfl, rfl⟩

lemma markCurrent_same (hv : Drawing v) : Ensures (markCurrent v) (Same v) := by
  have hin := hv.row_cells hv.currentY_nonneg hv.currentY_lt hv.currentX_nonneg (Int.add_one_le_of_lt hv.currentX_lt)
  refine Ensures.bind (update_ensures markDirty hin) fun screen hs => ?_
  exact ensures_pure ((setScreen_same hs).trans ⟨by constructor <;> rfl, rfl⟩)

lemma ts_putCharAt_same (hv : Sized v) (ch : ScreenChar) {c x y : ℤ} (hx : 0 ≤ x) :
    Ensures (ts_putCharAt ch c x y v) (Same v) := by
  simp only [ts_putCharAt, if_neg (not_lt.mpr hx)]
  by_cases hy : y < 0 ∨ v.sy ≤ y
  · rw [if_pos hy]
    exact ensures_some (Same.refl v)
  · rw [if_neg hy]
    push Not at hy
    refine Ensures.bind (update_ensures _ (hv.row_cells hy.1 hy.2 hx ?_)) fun screen hs => ?_
    · split_ifs <;> omega
    · exact ensures_pure ((setScreen_same hs).trans (addDirty_same _ _ _ _ _))

lemma ts_putCharOffset_same (hv : Sized v) (ch : ScreenChar) {c ofs : ℤ} (ho : 0 ≤ ofs) :
    Ensures (ts_putCharOffset ch c ofs v) (Same v) := by
  have hs := hv.screen_length
  rw [mul_comm] at hs
  simp only [ts_putCharOffset, if_neg (not_lt.mpr ho)]
  refine Ensures.bind (update_ensures _ (inside_of_le ho ?_)) fun screen hl => ?_
  · split_ifs <;> omega
  · exact ensures_pure ((setScreen_same hl).trans (addDirty_same _ _ _ _ _))

lemma markCurrentIf_same (hv : Drawing v) (covered : Prop) [Decidable covered] :
    Ensures (markCurrentIf covered v) (Same v) := by
  simp only [markCurrentIf]
  split_ifs
  · exact markCurrent_same hv
  · exact ensures_some (Same.refl v)

lemma savedLines_mem (hv : Sized v) {nr : ℤ} (hn : 0 ≤ nr) :
    0 ≤ savedLines nr v ∧ savedLines nr v ≤ v.maxScrollback := by
  have hm := hv.max_nonneg
  simp only [savedLines]
  split_ifs <;> omega

lemma shiftSaved_length (hv : Sized v) {nr : ℤ} (hn : 0 ≤ nr) :
    Ensures (shiftSaved nr v) fun b => b.length = v.sbuf.length := by
  have hx := hv.sx_pos
  simp only [shiftSaved]
  split_ifs with hlt
  · have hd := hv.sbuf_rows (a := 0) (k := v.maxScrollback - nr) le_rfl (by omega)
    rw [mul_zero] at hd
    exact move_ensures (mul_nonneg (by omega) (by omega)) hd (hv.sbuf_rows hn (by omega))
  · exact ensures_some rfl

lemma saveTop_length (hv : Sized v) {num : ℤ} (hn : 0 ≤ num) (hm : num ≤ v.maxScrollback)
    {sbuf : List ScreenChar} (hb : sbuf.length = v.sbuf.length) :
    Ensures (saveTop num v sbuf) fun b => b.length = v.sbuf.length := by
  have hx := hv.sx_pos
  have hy := hv.sy_pos
  have hrow : ∀ {a k : ℤ}, 0 ≤ a → a + k ≤ v.maxScrollback → Inside sbuf.length (v.sx * a) (v.sx * k) := by
    intro a k ha hk
    rw [hb]
    exact hv.sbuf_rows ha hk
  have hsrc : ∀ {k : ℤ}, k ≤ v.sy → Inside v.screen.length 0 (k * v.sx) := by
    intro k hk
    have hs := hv.screen_rows (a := 0) (k := k) le_rfl (by omega)
    rwa [zero_mul] at hs
  simp only [saveTop]
  split_ifs with hlt
  · have hd := hrow (a := v.maxScrollback - num) (k := num) (by omega) (by omega)
    rw [mul_comm v.sx num] at hd
    exact (move_ensures (mul_nonneg hn (by omega)) hd (hsrc hlt.le)).imp fun b h => h.trans hb
  · have hd := hrow (a := v.maxScrollback - num) (k := v.sy) (by omega) (by omega)
    rw [mul_comm v.sx v.sy] at hd
    refine Ensures.bind (move_ensures (mul_nonneg (by omega) (by omega)) hd (hsrc le_rfl)) fun copied hc => ?_
    have hz : Inside copied.length (v.sx * (v.maxScrollback - num + v.sy)) (v.sx * (num - v.sy)) := by
      rw [hc]
      exact hrow (by omega) (by omega)
    exact (update_ensures _ hz).imp fun b h => h.trans (hc.trans hb)

lemma saveLines_draws (hv : Drawing v) {nr : ℤ} (hn : 0 ≤ nr) : Ensures (saveLines nr v) (Draws v) := by
  obtain ⟨hn0, hnm⟩ := savedLines_mem hv.toSized hn
  have hsb := hv.sb_le
  have hsc := hv.scroll_lower
  have hsb0 := hv.sb_nonneg
  refine Ensures.bind (shiftSaved_length hv.toSized hn) fun shifted hs => ?_
  refine Ensures.bind (saveTop_length hv.toSized hn0 hnm hs) fun sbuf hb => ensures_pure ⟨?_, rfl, rfl⟩
  refine { hv with sb_nonneg := ?_, sb_le := ?_, scroll_lower := ?_, sbuf_length := ?_ }
  · dsimp only
    split_ifs <;> omega
  · dsimp only
    split_ifs <;> omega
  · dsimp only
    split_ifs <;> omega
  · simpa only [hb] using hv.sbuf_length

lemma saveLinesIf_draws (hv : Drawing v) {nr : ℤ} (hn : 0 ≤ nr) (save : Prop) [Decidable save] :
    Ensures (saveLinesIf save nr v) (Draws v) := by
  simp only [saveLinesIf]
  split_ifs
  · exact saveLines_draws hv hn
  · exact ensures_some (hv.draws (Same.refl v))

lemma scrollRegion_same (hv : Drawing v) {t b nr d s delta : ℤ} (hd : 0 ≤ d) (hs : 0 ≤ s) (hn : t + nr ≤ b)
    (hdb : d + (b - t - nr) ≤ v.sy) (hsb : s + (b - t - nr) ≤ v.sy) :
    Ensures (scrollRegion t b nr d s delta v) (Same v) := by
  refine Ensures.bind (markCurrentIf_same hv _) fun u hu => ?_
  have hz := hv.toSized.frame hu.toFrame
  have hcount : 0 ≤ (b - t - nr) * u.sx := mul_nonneg (by omega) (by linarith [hz.sx_pos])
  rw [← hu.sy] at hdb hsb
  refine Ensures.bind (move_ensures hcount (hz.screen_rows hd hdb) (hz.screen_rows hs hsb)) fun screen hl => ?_
  refine ensures_pure (hu.trans ?_)
  exact (setScreen_same hl).trans ((compositeScroll_same _ _ _ _).trans (addDirty_same _ _ _ _ _))

lemma ts_scrollUp_draws (hv : Drawing v) {t b nr : ℤ} {save : Bool} (ht : 0 ≤ t) (hn : 1 ≤ nr) (hb : t + nr < b)
    (hby : b ≤ v.sy) : Ensures (ts_scrollUp t b nr save v) (Draws v) := by
  refine Ensures.bind (saveLinesIf_draws hv (by omega) _) fun u hu => ?_
  rw [← hu.sy] at hby
  rw [if_neg (by omega : ¬b ≤ t + nr), if_neg (by omega)]
  refine (scrollRegion_same hu.drawing ht ?_ ?_ ?_ ?_).imp fun w hw => hu.trans (hu.drawing.draws hw) <;> omega

lemma ts_scrollUp_unsaved (t b nr : ℤ) (v : View) : ts_scrollUp t b nr false v =
    let nr := if b ≤ t + nr then b - t - 1 else nr
    if v.sy < b ∨ b ≤ t ∨ nr < 1 then some v else scrollRegion t b nr t (t + nr) (-nr) v := by
  simp only [ts_scrollUp, saveLinesIf]
  rw [if_neg fun h => Bool.false_ne_true h.1]
  rfl

lemma ts_scrollUp_same (hv : Drawing v) {t b nr : ℤ} (ht : 0 ≤ t) (hn : 1 ≤ nr) (hb : t + nr < b)
    (hby : b ≤ v.sy) : Ensures (ts_scrollUp t b nr false v) (Same v) := by
  rw [ts_scrollUp_unsaved]
  simp only
  rw [if_neg (by omega : ¬b ≤ t + nr), if_neg (by omega)]
  apply scrollRegion_same hv <;> omega

lemma ts_scrollDown_same (hv : Drawing v) {t b nr : ℤ} (ht : 0 ≤ t) (hn : 1 ≤ nr) (hb : t + nr < b)
    (hby : b ≤ v.sy) : Ensures (ts_scrollDown t b nr v) (Same v) := by
  simp only [ts_scrollDown]
  rw [if_neg (by omega : ¬b ≤ t + nr), if_neg (by omega)]
  apply scrollRegion_same hv <;> omega

lemma ts_shiftRow_same (hv : Drawing v) {y x0 delta : ℤ} (hd : -v.sx ≤ delta)
    (hm : x0 < v.sx → x0 + delta ≤ v.sx) : Ensures (ts_shiftRow y x0 delta v) (Same v) := by
  simp only [ts_shiftRow]
  by_cases hout : y < 0 ∨ v.sy ≤ y ∨ x0 < 0 ∨ v.sx ≤ x0
  · rw [if_pos hout]
    exact ensures_some (Same.refl v)
  · rw [if_neg hout]
    push Not at hout
    obtain ⟨hy0, hy, hx0, hx⟩ := hout
    refine Ensures.bind (markCurrentIf_same hv _) fun u hu => ?_
    have hz := hv.toSized.frame hu.toFrame
    have hmx := hm hx
    rw [← hu.sx] at hd hx hmx
    rw [← hu.sy] at hy
    have hmove : ∀ {a c : ℤ}, 0 ≤ c → 0 ≤ a → a + c ≤ u.sx → x0 + c ≤ u.sx →
        Ensures (move u.screen (y * u.sx + a) u.screen (y * u.sx + x0) c) fun b => b.length = u.screen.length :=
      fun hc ha hac hxc => move_ensures hc (hz.row_cells hy0 hy ha hac) (hz.row_cells hy0 hy hx0 hxc)
    refine Ensures.bind (P := fun b => b.length = u.screen.length) ?_ fun screen hl => ?_
    · apply hmove <;> split_ifs <;> omega
    · refine ensures_pure (hu.trans ?_)
      exact (setScreen_same hl).trans ((compositeRow_same _).trans (addDirty_same _ _ _ _ _))

/-- The call moves cells of a row beyond its right margin. -/
def ShiftsPastMargin (width : ℤ) : ScreenCall → Prop
  | .shiftRow _ x0 delta => x0 < width ∧ width < x0 + delta
  | _ => False

lemma receive_draws (hv : Drawing v) {c : ScreenCall} (hc : Fits v.sx v.sy c) (hs : ¬ShiftsPastMargin v.sx c) :
    Ensures (receive v c) (Draws v) := by
  cases c with
  | goto x y => exact ensures_some (ts_goto_draws hv x y)
  | putCharAt ch count x y => exact (ts_putCharAt_same hv.toSized ch hc.1).imp fun w hw => hv.draws hw
  | putCharOffset ch count ofs => exact (ts_putCharOffset_same hv.toSized ch hc).imp fun w hw => hv.draws hw
  | scrollUp t b nr save => exact ts_scrollUp_draws hv hc.1 hc.2.1 hc.2.2.1 hc.2.2.2
  | scrollDown t b nr =>
    exact (ts_scrollDown_same hv hc.1 hc.2.1 hc.2.2.1 hc.2.2.2).imp fun w hw => hv.draws hw
  | shiftRow y x0 delta =>
    refine (ts_shiftRow_same hv hc fun hx => ?_).imp fun w hw => hv.draws hw
    by_contra hlt
    exact hs ⟨hx, not_le.mp hlt⟩
  | sendCString str => exact ensures_some (hv.draws (Same.refl v))
  | setTitle title titleType => exact ensures_some (hv.draws ⟨by constructor <;> rfl, rfl⟩)

lemma receive_all (hv : Drawing v) {cs : List ScreenCall} (hc : ∀ c ∈ cs, Fits v.sx v.sy c)
    (hs : ∀ c ∈ cs, ¬ShiftsPastMargin v.sx c) : Ensures (cs.foldlM receive v) (Draws v) := by
  refine ensures_foldlM cs (fun w hw c hmem => ?_) (hv.draws (Same.refl v))
  have hfit := hc c hmem
  have hshift := hs c hmem
  rw [← hw.sx] at hfit hshift
  rw [← hw.sy] at hfit
  exact (receive_draws hw.drawing hfit hshift).imp fun u hu => hw.trans hu

end Calls

end Xperimentum.Terminal.TerminalView
