import Mathlib.Tactic
import Xperimentum.Lib.Emission
import Xperimentum.Terminal.CallBlocks
import Xperimentum.Terminal.ScreenRows
import Xperimentum.Terminal.ViewRuns

/-! The scrollback as a bounded history of the rows that have been scrolled off the screen. -/

namespace Xperimentum.Terminal.TerminalView

open Xperimentum.Lib.Memory Xperimentum.Lib.Partial Xperimentum.Lib.Emission Xperimentum.Lib.Runs
open Xperimentum.Terminal.LinuxParser

variable {σ : Type} {host : Host σ} {t : Session σ} {v w u : View} {n : ℕ}

abbrev Row := List ScreenChar

def rowAt (buf : List ScreenChar) (sx r : ℤ) : Row := (List.range sx.toNat).map fun x : ℕ => cellOf buf sx r x

def rowsFrom (buf : List ScreenChar) (sx start : ℤ) (n : ℕ) : List Row :=
  (List.range n).map fun i : ℕ => rowAt buf sx (start + i)

/-- The last `sb_length` rows of `sbuf`, the oldest one first. -/
def savedRows (v : View) : List Row := rowsFrom v.sbuf v.sx (v.maxScrollback - v.sbLength) v.sbLength.toNat

/-- The rows that a call scrolls off the top of the full screen, with what they hold before it. -/
def scrolledOff (v : View) : ScreenCall → List Row
  | .scrollUp t b nr save => if save = true ∧ t = 0 ∧ b = v.sy then rowsFrom v.screen v.sx 0 nr.toNat else []
  | _ => []

def rowsOfByte (host : Host σ) (t : Session σ) (c : UInt8) : List Row :=
  emitted receive scrolledOff t.view (processByte host c t.parser).calls

def rowsOfReading (host : Host σ) (bytes : List UInt8) (t : Session σ) : List Row :=
  match startReading t.view with
  | some v => emitted (receiveByte host) (rowsOfByte host) { t with view := v } bytes
  | none => []

def rowsOfEvent (host : Host σ) (t : Session σ) : Event → List Row
  | .readData bytes => rowsOfReading host bytes t
  | _ => []

def rowsScrolledOff (host : Host σ) (sets : CharacterSets) (size : ScreenSize) (lines : ℕ) (scrollBottom : Bool)
    (cd : Option σ) (es : List Event) : List Row :=
  match initWithFrame size lines scrollBottom cd with
  | some t => emitted (step host sets) (rowsOfEvent host) t es
  | none => []

/-- The screen may have changed, but not its size, the scrollback, what is shown of it or the selection. -/
structure Retains (v w : View) : Prop where
  sx : w.sx = v.sx
  sy : w.sy = v.sy
  maxScrollback : w.maxScrollback = v.maxScrollback
  sbLength : w.sbLength = v.sbLength
  currentScroll : w.currentScroll = v.currentScroll
  selection : w.selection = v.selection
  sbuf : w.sbuf = v.sbuf
  screen : w.screen.length = v.screen.length

lemma Retains.refl (v : View) : Retains v v := by constructor <;> rfl

lemma Retains.trans (h : Retains v w) (h' : Retains w u) : Retains v u :=
  ⟨h'.sx.trans h.sx, h'.sy.trans h.sy, h'.maxScrollback.trans h.maxScrollback, h'.sbLength.trans h.sbLength,
    h'.currentScroll.trans h.currentScroll, h'.selection.trans h.selection, h'.sbuf.trans h.sbuf,
    h'.screen.trans h.screen⟩

lemma retains_screen {screen : List ScreenChar} (h : screen.length = v.screen.length) :
    Retains v { v with screen := screen } := by
  constructor
  case screen => exact h
  all_goals rfl

lemma addDirty_retains (ax0 ay0 asx asy : ℤ) (v : View) : Retains v (addDirty ax0 ay0 asx asy v) := by
  simp only [addDirty]
  split_ifs <;> constructor <;> rfl

lemma handlePendingScroll_retains (v : View) : Retains v (handlePendingScroll v) := by
  simp only [handlePendingScroll]
  split_ifs <;> constructor <;> rfl

lemma compositeScroll_retains (t b delta : ℤ) (v : View) : Retains v (compositeScroll t b delta v) := by
  simp only [compositeScroll]
  split_ifs
  · exact Retains.refl v
  · constructor <;> rfl
  · exact (handlePendingScroll_retains v).trans (by constructor <;> rfl)

lemma compositeRow_retains (v : View) : Retains v (compositeRow v) := by
  simp only [compositeRow]
  split_ifs
  · exact Retains.refl v
  · exact (handlePendingScroll_retains v).trans (by constructor <;> rfl)

lemma markCurrent_retains (v : View) : Allows (markCurrent v) (Retains v) := by
  refine Allows.bind (update_allows _ _ _ _) fun screen hs => allows_pure ?_
  exact (retains_screen hs).trans (by constructor <;> rfl)

lemma markCurrentIf_retains (covered : Prop) [Decidable covered] (v : View) :
    Allows (markCurrentIf covered v) (Retains v) := by
  simp only [markCurrentIf]
  split_ifs
  · exact markCurrent_retains v
  · exact allows_pure (Retains.refl v)

lemma scrollRegion_retains (t b nr d s delta : ℤ) (v : View) :
    Allows (scrollRegion t b nr d s delta v) (Retains v) := by
  refine Allows.bind (markCurrentIf_retains _ v) fun u hu => ?_
  refine Allows.bind (move_allows _ _ _ _ _) fun screen hs => allows_pure ?_
  exact hu.trans ((retains_screen hs).trans ((compositeScroll_retains _ _ _ _).trans (addDirty_retains _ _ _ _ _)))

/-- The call saves the rows it scrolls off. -/
def Saves (v : View) : ScreenCall → Prop
  | .scrollUp t b _ save => save = true ∧ t = 0 ∧ b = v.sy
  | _ => False

lemma scrollRegionIf_retains (t b nr d s delta : ℤ) (skip : Prop) [Decidable skip] (v : View) :
    Allows (if skip then some v else scrollRegion t b nr d s delta v) (Retains v) := by
  split_ifs
  · exact allows_pure (Retains.refl v)
  · exact scrollRegion_retains _ _ _ _ _ _ v

lemma receive_retains (v : View) {c : ScreenCall} (hc : ¬Saves v c) : Allows (receive v c) (Retains v) := by
  cases c with
  | goto x y => exact allows_pure (by constructor <;> rfl)
  | putCharAt ch n x y =>
    simp only [receive, ts_putCharAt]
    split_ifs
    all_goals try exact allows_pure (Retains.refl v)
    all_goals
      refine Allows.bind (update_allows _ _ _ _) fun screen hs => allows_pure ?_
      exact (retains_screen hs).trans (addDirty_retains _ _ _ _ _)
  | putCharOffset ch n ofs =>
    refine Allows.bind (update_allows _ _ _ _) fun screen hs => allows_pure ?_
    exact (retains_screen hs).trans (addDirty_retains _ _ _ _ _)
  | scrollUp t b nr save =>
    simp only [receive, ts_scrollUp, saveLinesIf, if_neg (show ¬(save = true ∧ t = 0 ∧ b = v.sy) from hc)]
    exact scrollRegionIf_retains _ _ _ _ _ _ _ v
  | scrollDown t b nr => exact scrollRegionIf_retains _ _ _ _ _ _ _ v
  | shiftRow y x0 delta =>
    simp only [receive, ts_shiftRow]
    split_ifs
    all_goals try exact allows_pure (Retains.refl v)
    all_goals
      refine Allows.bind (markCurrentIf_retains _ v) fun u hu => ?_
      refine Allows.bind (move_allows _ _ _ _ _) fun screen hs => allows_pure ?_
      exact hu.trans ((retains_screen hs).trans ((compositeRow_retains _).trans (addDirty_retains _ _ _ _ _)))
  | sendCString str => exact allows_pure (Retains.refl v)
  | setTitle title titleType => exact allows_pure (by constructor <;> rfl)

structure Stored (n : ℕ) (v : View) : Prop extends Sized v where
  max : v.maxScrollback = n
  sb_nonneg : 0 ≤ v.sbLength
  sb_le : v.sbLength ≤ v.maxScrollback
  unscrolled : v.currentScroll = 0
  unselected : v.selection.length = 0

lemma Sized.retains (hv : Sized v) (h : Retains v w) : Sized w := by
  obtain ⟨h1, h2, h3, h4, h5⟩ := hv
  constructor <;> simp only [h.sx, h.sy, h.maxScrollback, h.sbuf, h.screen] <;> assumption

lemma Stored.retains (hv : Stored n v) (h : Retains v w) : Stored n w := by
  refine ⟨hv.toSized.retains h, ?_, ?_, ?_, ?_, ?_⟩
  all_goals simp only [h.maxScrollback, h.sbLength, h.currentScroll, h.selection]
  exacts [hv.max, hv.sb_nonneg, hv.sb_le, hv.unscrolled, hv.unselected]

lemma Retains.savedRows (h : Retains v w) : savedRows w = savedRows v := by
  simp only [TerminalView.savedRows, h.sbuf, h.sx, h.maxScrollback, h.sbLength]

@[simp] lemma length_rowsFrom (buf : List ScreenChar) (sx start : ℤ) (n : ℕ) : (rowsFrom buf sx start n).length = n := by
  simp [rowsFrom]

@[simp] lemma getElem_rowsFrom (buf : List ScreenChar) (sx start : ℤ) {n i : ℕ} (h : i < (rowsFrom buf sx start n).length) :
    (rowsFrom buf sx start n)[i] = rowAt buf sx (start + i) := by
  simp [rowsFrom]

lemma rowAt_move {dst src b : List ScreenChar} {sx d s n rows r : ℤ}
    (h : b ∈ move dst (d * sx) src (s * sx) (n * sx)) (hl : rows * sx ≤ dst.length) (h0 : 0 ≤ r) (hr : r < rows) :
    rowAt b sx r = if d ≤ r ∧ r < d + n then rowAt src sx (s + (r - d)) else rowAt dst sx r := by
  have hcell : ∀ x ∈ List.range sx.toNat, cellOf b sx r x =
      if d ≤ r ∧ r < d + n then cellOf src sx (s + (r - d)) x else cellOf dst sx r x := by
    intro x hx
    have hlt := List.mem_range.mp hx
    exact cellOf_moveRows h hl h0 hr (by omega) (by omega)
  split_ifs at hcell ⊢ <;> exact List.map_congr_left hcell

lemma shiftSaved_allows (nr : ℤ) (v : View) : Allows (shiftSaved nr v) fun b => b.length = v.sbuf.length := by
  simp only [shiftSaved]
  split_ifs
  · exact move_allows _ _ _ _ _
  · exact allows_pure rfl

lemma saveTop_allows (num : ℤ) (v : View) (sbuf : List ScreenChar) :
    Allows (saveTop num v sbuf) fun b => b.length = sbuf.length := by
  simp only [saveTop]
  split_ifs
  · exact move_allows _ _ _ _ _
  · refine Allows.bind (move_allows _ _ _ _ _) fun copied hc => ?_
    exact (update_allows _ _ _ _).imp fun b hb => hb.trans hc

lemma saveTop_rows (hv : Sized v) {nr : ℤ} (hm : nr ≤ v.maxScrollback) (hy : nr < v.sy)
    {shifted sbuf : List ScreenChar} (hs : shifted ∈ shiftSaved nr v) (hb : sbuf ∈ saveTop nr v shifted) {r : ℤ} (h0 : 0 ≤ r) (hr : r < v.maxScrollback) :
    rowAt sbuf v.sx r =
      if r < v.maxScrollback - nr then rowAt v.sbuf v.sx (r + nr)
      else rowAt v.screen v.sx (r - (v.maxScrollback - nr)) := by
  have hl := hv.sbuf_length
  have hlen := shiftSaved_allows nr v shifted hs
  rw [saveTop, if_pos hy, mul_comm v.sx, ← zero_mul v.sx] at hb
  rw [rowAt_move hb (hlen ▸ hl) h0 hr]
  by_cases hold : r < v.maxScrollback - nr
  · rw [if_neg (by omega), if_pos hold]
    rw [shiftSaved, if_pos (by omega), mul_comm v.sx, mul_comm v.sx, ← zero_mul v.sx] at hs
    rw [rowAt_move hs hl h0 hr, if_pos (by omega)]
    congr 1
    omega
  · rw [if_pos (by omega), if_neg hold, zero_add]

/-- The saved rows have taken in what was scrolled off. -/
def Absorbs (n : ℕ) (v : View) (rows : List Row) (w : View) : Prop :=
  Stored n w ∧ savedRows w = remember n (savedRows v) rows

lemma Stored.remember_nil (hv : Stored n v) : remember n (savedRows v) [] = savedRows v := by
  have hle := hv.sb_le
  have hmax := hv.max
  apply Xperimentum.Lib.Emission.remember_nil
  rw [savedRows, length_rowsFrom]
  omega

lemma Stored.absorbs (hv : Stored n v) (h : Retains v w) : Absorbs n v [] w :=
  ⟨hv.retains h, by rw [h.savedRows, hv.remember_nil]⟩

lemma Absorbs.retains {rows : List Row} (h : Absorbs n v rows w) (h' : Retains w u) : Absorbs n v rows u :=
  ⟨h.1.retains h', h'.savedRows.trans h.2⟩

lemma rowsFrom_remember (hv : Stored n v) {nr : ℤ} (hn : 1 ≤ nr) (hm : nr ≤ n) {sbuf : List ScreenChar}
    (hrow : ∀ r, 0 ≤ r → r < v.maxScrollback → rowAt sbuf v.sx r =
      if r < v.maxScrollback - nr then rowAt v.sbuf v.sx (r + nr)
      else rowAt v.screen v.sx (r - (v.maxScrollback - nr)))
    {k : ℤ} (h : k = if v.maxScrollback < v.sbLength + nr then v.maxScrollback else v.sbLength + nr) :
    rowsFrom sbuf v.sx (v.maxScrollback - k) k.toNat =
      remember n (savedRows v) (rowsFrom v.screen v.sx 0 nr.toNat) := by
  have h0 := hv.sb_nonneg
  have hle := hv.sb_le
  have hmax := hv.max
  have hk : k ≤ v.maxScrollback ∧ k ≤ v.sbLength + nr ∧ (k = v.maxScrollback ∨ k = v.sbLength + nr) := by
    split_ifs at h <;> omega
  simp only [remember, List.rtake, savedRows]
  apply List.ext_getElem
  · simp only [length_rowsFrom, List.length_drop, List.length_append]
    omega
  · intro i hi _
    rw [length_rowsFrom] at hi
    simp only [getElem_rowsFrom, List.getElem_drop, List.getElem_append, length_rowsFrom, List.length_append]
    rw [hrow _ (by omega) (by omega)]
    split_ifs with hold hsaved hsaved
    · congr 1
      omega
    · omega
    · omega
    · congr 1
      omega

lemma saveLines_absorbs (hv : Stored n v) {nr : ℤ} (hn : 1 ≤ nr) (hm : nr ≤ n ∨ n = 0) (hy : nr < v.sy) :
    Allows (saveLines nr v) (Absorbs n v (rowsFrom v.screen v.sx 0 nr.toNat)) := by
  have h0 := hv.sb_nonneg
  have hle := hv.sb_le
  have hmax := hv.max
  intro w hw
  obtain ⟨shifted, hs, hw⟩ := Option.bind_eq_some_iff.mp hw
  obtain ⟨sbuf, hb, hw⟩ := Option.bind_eq_some_iff.mp hw
  obtain rfl := Option.some.inj hw
  have hlen : sbuf.length = v.sbuf.length :=
    (saveTop_allows _ v shifted sbuf hb).trans (shiftSaved_allows nr v shifted hs)
  refine ⟨?_, ?_⟩
  · refine { hv with sb_nonneg := ?_, sb_le := ?_, sbuf_length := hlen ▸ hv.sbuf_length }
    · simp only [savedLines]
      split_ifs <;> omega
    · simp only [savedLines]
      split_ifs <;> omega
  · rcases hm with hm | hzero
    · have hnum : savedLines nr v = nr := by
        simp only [savedLines]
        split_ifs <;> omega
      rw [hnum] at hb
      simp only [savedRows, hnum]
      exact rowsFrom_remember hv hn hm (fun r => saveTop_rows hv.toSized (by omega) hy hs hb) rfl
    · have hnum : savedLines nr v = 0 := by
        simp only [savedLines]
        split_ifs <;> omega
      have hnone : v.sbLength = 0 := by omega
      simp [savedRows, remember, rowsFrom, List.rtake, hnum, hzero, hnone, hmax]

lemma receive_size (v : View) (c : ScreenCall) : Allows (receive v c) fun w => w.sx = v.sx ∧ w.sy = v.sy := by
  by_cases hs : Saves v c
  · cases c with
    | scrollUp t b nr save =>
      simp only [receive, ts_scrollUp, saveLinesIf, if_pos (show save = true ∧ t = 0 ∧ b = v.sy from hs)]
      refine Allows.bind (P := fun w => w.sx = v.sx ∧ w.sy = v.sy) (fun w hw => ?_) fun w hw => ?_
      · obtain ⟨_, -, hw⟩ := Option.bind_eq_some_iff.mp hw
        obtain ⟨_, -, hw⟩ := Option.bind_eq_some_iff.mp hw
        obtain rfl := Option.some.inj hw
        exact ⟨rfl, rfl⟩
      · exact (scrollRegionIf_retains _ _ _ _ _ _ _ w).imp fun u hu => ⟨hu.sx.trans hw.1, hu.sy.trans hw.2⟩
    | _ => exact absurd hs id
  · exact (receive_retains v hs).imp fun w hw => ⟨hw.sx, hw.sy⟩

lemma receive_all_size (v : View) (cs : List ScreenCall) :
    Allows (cs.foldlM receive v) fun w => w.sx = v.sx ∧ w.sy = v.sy :=
  allows_foldlM cs (fun w hw c _ => (receive_size w c).imp fun _ hu => ⟨hu.1.trans hw.1, hu.2.trans hw.2⟩) ⟨rfl, rfl⟩

lemma receive_absorbs (hv : Stored n v) {c : ScreenCall}
    (hc : ∀ t b nr, c = .scrollUp t b nr true → nr = 1 ∧ t + nr < b) :
    Allows (receive v c) (Absorbs n v (scrolledOff v c)) := by
  by_cases hs : Saves v c
  · cases c with
    | scrollUp t b nr save =>
      obtain ⟨rfl, rfl, rfl⟩ := hs
      obtain ⟨rfl, hb⟩ := hc _ _ _ rfl
      have hrows : scrolledOff v (.scrollUp 0 v.sy 1 true) = rowsFrom v.screen v.sx 0 (1 : ℤ).toNat :=
        if_pos ⟨rfl, rfl, rfl⟩
      rw [hrows]
      simp only [receive, ts_scrollUp]
      refine Allows.bind (P := Absorbs n v _) (saveLines_absorbs hv le_rfl (by omega) (by omega)) fun w hw => ?_
      exact (scrollRegionIf_retains _ _ _ _ _ _ _ w).imp fun u hu => hw.retains hu
    | _ => exact absurd hs id
  · have hnone : scrolledOff v c = [] := by
      cases c with
      | scrollUp t b nr save => exact if_neg hs
      | _ => rfl
    rw [hnone]
    exact (receive_retains v hs).imp fun w hw => hv.absorbs hw

lemma receive_all_absorbs (hv : Stored n v) {cs : List ScreenCall}
    (hc : ∀ t b nr, .scrollUp t b nr true ∈ cs → nr = 1 ∧ t + nr < b) :
    Allows (cs.foldlM receive v) (Absorbs n v (emitted receive scrolledOff v cs)) := by
  apply emitted_absorbed (P := Stored n) (fun s hs => hs.remember_nil) (remember_append n) cs ?_ hv
  intro s hs c hmem
  exact receive_absorbs hs fun t b nr h => hc t b nr (h ▸ hmem)

lemma receiveByte_absorbs (ht : Stored n t.view) (c : UInt8) :
    Allows (receiveByte host t c) fun u => Absorbs n t.view (rowsOfByte host t c) u.view := by
  have hb : ByteBlocks 0 _ _ _ _ (processByte host c t.parser) := processByte_byteBlocks host c _ id
  exact (receive_all_absorbs ht fun _ _ _ hmem => hb.calls.saves hmem).bind fun w hw => allows_pure hw

lemma clearSelection_unselected (hx : 1 ≤ v.sx) (hy : 1 ≤ v.sy) (hsb : 0 ≤ v.sbLength) (hs : v.selection.length = 0) :
    clearSelection v = some v := by
  have hnn := mul_nonneg hsb (by omega : 0 ≤ v.sx)
  have hpos := mul_pos (by omega : 0 < v.sx) (by omega : 0 < v.sy)
  have hclamp : clampSelection ⟨0, 0⟩ v = ⟨0, 0⟩ := by
    have hstart : ¬(0 : ℤ) < -(v.sbLength * v.sx) := by omega
    have hstop : ¬v.sx * v.sy < 0 + 0 := by omega
    simp only [clampSelection, SelectionRange.stop, neg_mul, if_neg hstart, if_neg hstop]
  simp only [clearSelection, setSelection, hclamp, hs, and_self, if_true]

lemma startReading_retains (hv : Stored n v) : Allows (startReading v) (Retains v) := by
  have h := clearSelection_unselected (v := { v with numScrolls := 0, dirty := { v.dirty with x0 := -1 }, currentX := v.cursorX, currentY := v.cursorY })
    hv.sx_pos hv.sy_pos hv.sb_nonneg hv.unselected
  rw [startReading, h]
  exact allows_pure (by constructor <;> rfl)

lemma showCursor_retains (v : View) : Allows (showCursor v) (Retains v) := by
  simp only [showCursor]
  split_ifs
  · refine Allows.bind (markCurrent_retains _) fun w hw => allows_pure ?_
    exact (addDirty_retains _ _ _ _ v).trans (hw.trans (addDirty_retains _ _ _ _ w))
  · exact allows_pure (Retains.refl v)

lemma finishReading_retains (hv : Stored n v) : Retains v (finishReading v) := by
  have hz : ¬(setNeedsLazyDisplay v).currentScroll ≠ 0 := not_not.mpr hv.unscrolled
  simp only [finishReading, if_neg hz]
  split_ifs <;> constructor <;> rfl

lemma readData_absorbs (ht : Stored n t.view) (bytes : List UInt8) :
    Allows (readData host bytes t) fun u => Absorbs n t.view (rowsOfReading host bytes t) u.view := by
  intro u hu
  obtain ⟨v, hv, hu⟩ := Option.bind_eq_some_iff.mp hu
  obtain ⟨s, hs, hu⟩ := Option.bind_eq_some_iff.mp hu
  obtain ⟨w, hw, hu⟩ := Option.bind_eq_some_iff.mp hu
  obtain rfl := Option.some.inj hu
  have hkeep := startReading_retains ht v hv
  have hread := emitted_absorbed (P := fun s : Session σ => Stored n s.view) (f := fun s => savedRows s.view)
    (fun s hs => hs.remember_nil) (remember_append n) bytes (fun s hs c _ => receiveByte_absorbs hs c)
    (ht.retains hkeep) s hs
  have hshow := showCursor_retains s.view w hw
  have hend := hshow.trans (finishReading_retains (hread.1.retains hshow))
  refine ⟨hread.1.retains hend, ?_⟩
  rw [hend.savedRows, hread.2, rowsOfReading, hv]
  simp only [hkeep.savedRows]

lemma updateCells_retains (f : ScreenChar → ScreenChar) {lo : ℤ} (hi : ℤ) (h0 : 0 ≤ lo) (v : View) :
    Allows (updateCells f lo hi v) (Retains v) := by
  have hnone := update_of_nonpos f v.sbuf (v.maxScrollback * v.sx + lo) (by omega : min hi 0 - lo ≤ 0)
  simp only [updateCells, hnone, Option.bind_eq_bind, Option.bind_some]
  exact (update_allows _ _ _ _).bind fun screen hs => allows_pure (retains_screen hs)

lemma visibleCells_nonneg (hx : 1 ≤ v.sx) (hs : v.currentScroll = 0) {x0 x1 y0 y1 i : ℤ}
    (hi : i ∈ visibleCells x0 x1 y0 y1 v) : 0 ≤ i := by
  simp only [visibleCells, List.mem_flatMap, List.mem_map, Int.mem_range_iff] at hi
  obtain ⟨iy, ⟨hy0, -⟩, ix, ⟨hx0, -⟩, rfl⟩ := hi
  have hrow : 0 ≤ iy := by split_ifs at hy0 <;> omega
  have hcol : 0 ≤ ix := by split_ifs at hx0 <;> omega
  rw [hs, add_zero]
  exact add_nonneg (mul_nonneg hrow (by omega)) hcol

lemma drawRect_retains (hv : Stored n v) (x0 x1 y0 y1 : ℤ) : Allows (drawRect x0 x1 y0 y1 v) (Retains v) := by
  have hp := handlePendingScroll_retains v
  have hu := hv.retains hp
  have hcells : ∀ i ∈ visibleCells x0 x1 y0 y1 (handlePendingScroll v), 0 ≤ i :=
    fun i hi => visibleCells_nonneg hu.sx_pos hu.unscrolled hi
  have hback : ∀ (s : View × Pen), Retains v s.1 → ∀ i ∈ visibleCells x0 x1 y0 y1 (handlePendingScroll v),
      Allows (drawBackground s i) fun s => Retains v s.1 := by
    intro s hs i hi
    refine Allows.bind (P := fun _ => True) (fun _ _ => trivial) fun ch _ => ?_
    exact (updateCells_retains _ _ (hcells i hi) s.1).bind fun w hw => allows_pure (hs.trans hw)
  refine Allows.bind (P := fun _ => True) (fun _ _ => trivial) fun _ _ => ?_
  refine Allows.bind (allows_foldlM _ hback hp) fun s hs => ?_
  refine Allows.bind (P := Retains v) ?_ fun w hw => allows_pure (hw.trans (by constructor <;> rfl))
  exact allows_foldlM _ (fun w hw i hi => (updateCells_retains _ _ (hcells i hi) w).imp fun _ h => hw.trans h) hs

/-- Output from the master side, and the window redrawing a part of itself. -/
def Outputs : Event → Prop
  | .readData _ | .drawRect _ _ _ _ => True
  | _ => False

lemma step_absorbs (sets : CharacterSets) (ht : Stored n t.view) {e : Event} (he : Outputs e) :
    Allows (step host sets t e) fun u => Absorbs n t.view (rowsOfEvent host t e) u.view := by
  cases e with
  | readData bytes => exact readData_absorbs ht bytes
  | drawRect x0 x1 y0 y1 =>
    exact (drawRect_retains ht x0 x1 y0 y1).bind fun w hw => allows_pure (ht.absorbs hw)
  | _ => exact absurd he id

lemma initWithFrame_stored (size : ScreenSize) (lines : ℕ) (scrollBottom : Bool) (cd : Option σ) :
    Allows (initWithFrame size lines scrollBottom cd) fun t => Stored lines t.view ∧ savedRows t.view = [] := by
  have hw := size.width_pos
  have hh := size.height_pos
  let v : View :=
    { sx := size.width, sy := size.height, maxScrollback := lines
      screen := blankMemory (size.width * size.height), sbuf := blankMemory (size.width * lines)
      scrollBottomOnInput := scrollBottom }
  have hs : ((blankMemory (size.width * size.height)).length : ℤ) = size.height * size.width := by
    rw [length_blankMemory (mul_nonneg (by omega) (by omega)), mul_comm]
  have hb : (lines : ℤ) * size.width ≤ ((blankMemory (size.width * lines)).length : ℤ) := by
    rw [length_blankMemory (mul_nonneg (by omega) (by omega)), mul_comm]
  have hv : Stored lines v :=
    ⟨⟨hw, hh, Int.natCast_nonneg lines, hs, hb⟩, rfl, le_rfl, Int.natCast_nonneg lines, rfl, rfl⟩
  have hcalls : ∀ c ∈ (initWithTerminalScreen size.width size.height cd).calls, ∀ w, ¬Saves w c := by
    refine calls_andThen ?_ fun p => calls_stay _
    refine calls_andThen (calls_andThen ?_ fun p => calls_stay _) fun p => ?_
    · exact calls_tell (fun _ => id) _
    · exact calls_tell (fun _ => id) _
  refine Allows.bind (P := Retains v) ?_ fun w hw => allows_pure ⟨hv.retains hw, hw.savedRows⟩
  refine allows_foldlM _ (fun w hw c hc => ?_) (Retains.refl v)
  exact (receive_retains w (hcalls c hc w)).imp fun u hu => hw.trans hu

lemma runFrom_absorbs (host : Host σ) (sets : CharacterSets) (size : ScreenSize) (lines : ℕ)
    (scrollBottom : Bool) (cd : Option σ) {es : List Event} (h : ∀ e ∈ es, Outputs e) :
    Allows (runFrom host sets size lines scrollBottom cd es) fun t => Stored lines t.view ∧
      savedRows t.view = (rowsScrolledOff host sets size lines scrollBottom cd es).rtake lines := by
  intro u hu
  obtain ⟨t, ht, hrun⟩ := Option.bind_eq_some_iff.mp hu
  obtain ⟨hstored, hnone⟩ := initWithFrame_stored size lines scrollBottom cd t ht
  have hall := emitted_absorbed (P := fun s : Session σ => Stored lines s.view) (f := fun s => savedRows s.view)
    (fun s hs => hs.remember_nil) (remember_append lines) es
    (fun s hs e he => step_absorbs sets hs (h e he)) hstored u hrun
  refine ⟨hall.1, ?_⟩
  rw [hall.2, hnone, rowsScrolledOff, ht]
  rfl

theorem runFrom_scrollback (host : Host σ) (sets : CharacterSets) (size : ScreenSize) (lines : ℕ)
    (scrollBottom : Bool) (cd : Option σ) (es : List Event) (h : ∀ e ∈ es, Outputs e) :
    (Allows (runFrom host sets size lines scrollBottom cd es) fun t =>
      t.view.sbLength = min (rowsScrolledOff host sets size lines scrollBottom cd es).length lines ∧
        savedRows t.view = (rowsScrolledOff host sets size lines scrollBottom cd es).rtake lines) ∧
      ((∀ t ∈ initWithFrame size lines scrollBottom cd, Admits (step host sets) (Admitted host) t es) →
        (runFrom host sets size lines scrollBottom cd es).isSome) := by
  refine ⟨fun t ht => ?_, fun hes => ?_⟩
  · obtain ⟨hstored, hrows⟩ := runFrom_absorbs host sets size lines scrollBottom cd h t ht
    have hlen := congrArg List.length hrows
    have hsb := hstored.sb_nonneg
    rw [savedRows, length_rowsFrom, List.rtake, List.length_drop] at hlen
    exact ⟨by omega, hrows⟩
  · obtain ⟨t, ht, -⟩ := runFrom_inv host sets size lines scrollBottom cd es hes
    exact Option.isSome_of_mem ht

theorem runFrom_scrollback_twoLines :
    Ensures (runFrom latinHost wordSets size4x3 2 true none
      [output "a\r\nbc\r\nd\r\ne\r\n", .drawRect 0 4 0 3, output "\x1b[1;2r\n\x1b[r\x1b[9B\n"]) fun t =>
      t.view.sbLength = 2 ∧ (savedRows t.view).map (List.map ScreenChar.ch) = [[0x62, 0x63, 0, 0], [0x64, 0, 0, 0]] := by
  have h := runFrom_scrollback latinHost wordSets size4x3 2 true none
    [output "a\r\nbc\r\nd\r\ne\r\n", .drawRect 0 4 0 3, output "\x1b[1;2r\n\x1b[r\x1b[9B\n"]
    (by simp [output, Outputs])
  obtain ⟨t, ht⟩ := Option.isSome_iff_exists.mp (h.2 (by decide))
  refine ⟨t, ht, ?_, ?_⟩
  · rw [(h.1 t ht).1]
    decide
  · rw [(h.1 t ht).2]
    decide

end Xperimentum.Terminal.TerminalView
