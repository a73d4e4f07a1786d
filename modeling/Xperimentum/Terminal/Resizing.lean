import Mathlib.Tactic
import Xperimentum.Terminal.CountedEdits

/-! What a resize leaves in the rows of the screen and of the scrollback. -/

namespace Xperimentum.Terminal.TerminalView

open Xperimentum.Lib.Int32 Xperimentum.Lib.Memory Xperimentum.Lib.Partial Xperimentum.Lib.Runs
open Xperimentum.Terminal.LinuxParser

variable {σ : Type} {t : Session σ} {v w : View} {nsx nsy copySx y x : ℤ}

/-- Without the marks of drawing and of the selection. -/
def bare (c : ScreenChar) : ScreenChar := { c with attr := c.attr &&& 0x3f }

def Buffers.cell (b : Buffers) (sx maxScrollback y x : ℤ) : ScreenChar :=
  if y < 0 then cellOf b.nsbuf sx (maxScrollback + y) x else cellOf b.nscreen sx y x

def View.buffers (v : View) : Buffers := ⟨v.screen, v.sbuf⟩

/-- Negative rows are in the scrollback. -/
def rowCell (v : View) (y x : ℤ) : ScreenChar := bare (v.buffers.cell v.sx v.maxScrollback y x)

def SameRow (v w : View) (y y' : ℤ) : Prop := ∀ x, 0 ≤ x → x < min v.sx w.sx → rowCell w y' x = rowCell v y x

@[mk_iff]
structure KeepsText (v w : View) : Prop where
  cursor : 0 ≤ v.cursorY → v.cursorY < v.sy → 0 ≤ w.cursorY ∧ w.cursorY < w.sy ∧ SameRow v w v.cursorY w.cursorY
  rows : w.sy = v.sy → ∀ y, -v.sbLength ≤ y → y < v.sy → -w.sbLength ≤ y ∧ SameRow v w y y

section Selection

lemma bare_unselect (c : ScreenChar) : bare (unselect c) = bare c := by
  have hattr : (c.attr &&& 0xbf ||| 0x80) &&& 0x3f = c.attr &&& 0x3f := by
    rw [Nat.and_or_distrib_right, Nat.and_assoc]
    exact Nat.or_zero _
  exact congrArg (fun a => { c with attr := a }) hattr

lemma bare_select (c : ScreenChar) : bare (select c) = bare c := by
  rw [select]
  split_ifs
  · have hattr : (c.attr ||| 0xc0) &&& 0x3f = c.attr &&& 0x3f := by
      rw [Nat.and_or_distrib_right]
      exact Nat.or_zero _
    exact congrArg (fun a => { c with attr := a }) hattr
  · rfl

lemma bare_update {f : ScreenChar → ScreenChar} (hf : ∀ c, bare (f c) = bare c) {buf b : List ScreenChar}
    {start count : ℤ} (h : b ∈ update f buf start count) (sx y x : ℤ) :
    bare (cellOf b sx y x) = bare (cellOf buf sx y x) := by
  rw [update] at h
  split_ifs at h
  · obtain rfl := Option.some.inj h
    rw [cellOf, cellOf, List.getD_eq_getElem?_getD, List.getD_eq_getElem?_getD, List.getElem?_mapIdx]
    cases buf[(y * sx + x).toNat]? with
    | none => rfl
    | some c =>
      simp only [Option.map_some, Option.getD_some]
      split_ifs
      · exact hf c
      · rfl
  · cases h

/-- The view is the same but for the marks of its cells, the selection and what is to be drawn. -/
structure SameText (v w : View) : Prop extends Frame v w where
  text : rowCell w = rowCell v

lemma SameText.refl (v : View) : SameText v v := ⟨(Same.refl v).toFrame, rfl⟩

lemma SameText.trans {u : View} (h : SameText v w) (h' : SameText w u) : SameText v u :=
  ⟨h.toFrame.trans h'.toFrame, h'.text.trans h.text⟩

lemma updateCells_sameText {f : ScreenChar → ScreenChar} (hf : ∀ c, bare (f c) = bare c) (i j : ℤ) (v : View) :
    Allows (updateCells f i j v) (SameText v) := by
  intro w hw
  obtain ⟨sbuf, hsbuf, hw⟩ := Option.bind_eq_some_iff.mp hw
  obtain ⟨screen, hscreen, hw⟩ := Option.bind_eq_some_iff.mp hw
  obtain rfl := Option.some.inj hw
  refine ⟨⟨rfl, rfl, rfl, rfl, rfl, rfl, rfl, rfl, rfl, ?_, ?_⟩, ?_⟩
  · exact update_allows _ _ _ _ _ hscreen
  · exact update_allows _ _ _ _ _ hsbuf
  · funext y x
    rw [rowCell, rowCell, Buffers.cell, Buffers.cell]
    split_ifs
    · exact bare_update hf hsbuf _ _ _
    · exact bare_update hf hscreen _ _ _

lemma setSelection_sameText (s : SelectionRange) (v : View) : Allows (setSelection s v) (SameText v) := by
  intro w hw
  rw [setSelection] at hw
  split_ifs at hw
  · obtain rfl := Option.some.inj hw
    exact .refl v
  · obtain rfl := Option.some.inj hw
    exact .refl v
  · obtain ⟨w₁, h₁, hw⟩ := Option.bind_eq_some_iff.mp hw
    obtain ⟨w₂, h₂, hw⟩ := Option.bind_eq_some_iff.mp hw
    obtain ⟨w₃, h₃, hw⟩ := Option.bind_eq_some_iff.mp hw
    obtain rfl := Option.some.inj hw
    have hsame := (updateCells_sameText bare_unselect _ _ _ _ h₁).trans
      ((updateCells_sameText bare_unselect _ _ _ _ h₂).trans (updateCells_sameText bare_select _ _ _ _ h₃))
    exact hsame.trans ⟨by constructor <;> rfl, rfl⟩

end Selection

section Copy

lemma cellOf_copy {dst src c : List ScreenChar} {sx m n rows : ℤ} (h : c ∈ move dst (nsx * m) src (sx * n) copySx)
    (hl : rows * nsx ≤ dst.length) (hw : copySx ≤ nsx) (hy0 : 0 ≤ y) (hy : y < rows) (hx0 : 0 ≤ x) (hx : x < nsx) :
    cellOf c nsx y x = if y = m ∧ x < copySx then cellOf src sx n x else cellOf dst nsx y x := by
  have hlt := (row_lt_iff hx0 hx rows y).mpr hy
  have hmoved := getD_move h zeroCell (cell_nonneg hy0 hx0 hx) (by omega)
  have hspan := span_iff (x := 0) (k := copySx) m y hx0 hx le_rfl (by omega)
  simp only [add_zero, zero_add] at hspan
  rw [mul_comm nsx m, mul_comm sx n] at hmoved
  refine hmoved.trans ?_
  by_cases hin : y = m ∧ x < copySx
  · rw [if_pos hin, if_pos (hspan.mpr ⟨hin.1, hx0, hin.2⟩), hin.1]
    refine congrArg (fun i => src.getD (Int.toNat i) zeroCell) ?_
    omega
  · rw [if_neg hin, if_neg fun h => hin ⟨(hspan.mp h).1, (hspan.mp h).2.2⟩]
    rfl

lemma rowStart_cell (iy : ℤ) (v : View) : ∃ n, rowStart iy v = v.sx * n ∧
    ∀ x, cellOf (rowBuffer iy v) v.sx n x = v.buffers.cell v.sx v.maxScrollback iy x := by
  by_cases hneg : iy < 0
  · refine ⟨v.maxScrollback + iy, if_pos hneg, fun x => ?_⟩
    rw [rowBuffer, Buffers.cell, if_pos hneg, if_pos hneg, View.buffers]
  · refine ⟨iy, if_neg hneg, fun x => ?_⟩
    rw [rowBuffer, Buffers.cell, if_neg hneg, if_neg hneg, View.buffers]

lemma copyRow_cell {b : Buffers} {nsy iy ny : ℤ} (hb : b.Sized nsx nsy v) (hw : copySx ≤ nsx) :
    Allows (copyRow nsx copySx iy ny v b) fun c => ∀ y x, -v.maxScrollback ≤ y → y < nsy → 0 ≤ x → x < nsx →
      c.cell nsx v.maxScrollback y x =
        if y = ny ∧ x < copySx then v.buffers.cell v.sx v.maxScrollback iy x else b.cell nsx v.maxScrollback y x := by
  intro c hc y x hy0 hy hx0 hx
  obtain ⟨n, hstart, hsource⟩ := rowStart_cell iy v
  rw [copyRow, hstart] at hc
  rw [← hsource]
  split_ifs at hc with hny
  · obtain ⟨nsbuf, hmove, hc⟩ := Option.bind_eq_some_iff.mp hc
    obtain rfl := Option.some.inj hc
    simp only [Buffers.cell]
    by_cases hneg : y < 0
    · have hcopy := cellOf_copy hmove hb.sbuf.ge hw (y := v.maxScrollback + y) (by omega) (by omega) hx0 hx
      rw [if_pos hneg, if_pos hneg, hcopy]
      exact if_congr (and_congr_left fun _ => by omega) rfl rfl
    · have hrow : ¬(y = ny ∧ x < copySx) := fun h => hneg (h.1 ▸ hny)
      rw [if_neg hneg, if_neg hneg, if_neg hrow]
  · obtain ⟨nscreen, hmove, hc⟩ := Option.bind_eq_some_iff.mp hc
    obtain rfl := Option.some.inj hc
    simp only [Buffers.cell]
    by_cases hneg : y < 0
    · have hrow : ¬(y = ny ∧ x < copySx) := fun h => hny (h.1 ▸ hneg)
      rw [if_pos hneg, if_pos hneg, if_neg hrow]
    · rw [if_neg hneg, if_neg hneg, cellOf_copy hmove hb.screen.ge hw (by omega) hy hx0 hx]

lemma newRow_shift (nsy iy : ℤ) (v : View) : newRow nsy iy v = iy + newRow nsy 0 v := by
  simp only [newRow]
  split_ifs <;> omega

lemma copyRows_cell (hv : Arranged v) {nsy : ℤ} (hc0 : 0 ≤ copySx) (hcs : copySx ≤ v.sx) (hcn : copySx ≤ nsx)
    (rows : List ℤ) (hsorted : rows.Pairwise (· < ·)) (hr : ∀ iy ∈ rows, -v.sbLength ≤ iy ∧ iy < v.sy)
    {b : Buffers} (hb : b.Sized nsx nsy v) :
    Allows (copyRows nsx nsy copySx v rows b) fun c => ∀ y x, -v.maxScrollback ≤ y → y < nsy → 0 ≤ x → x < nsx →
      c.cell nsx v.maxScrollback y x =
        if y - newRow nsy 0 v ∈ rows ∧ x < copySx then v.buffers.cell v.sx v.maxScrollback (y - newRow nsy 0 v) x
        else b.cell nsx v.maxScrollback y x := by
  induction rows generalizing b with
  | nil =>
    intro c hc y x _ _ _ _
    obtain rfl := Option.some.inj hc
    exact (if_neg fun h => List.not_mem_nil h.1).symm
  | cons iy rows ih =>
    obtain ⟨hfirst, hsorted⟩ := List.pairwise_cons.mp hsorted
    have hrest := fun jy hj => hr jy (List.mem_cons_of_mem iy hj)
    obtain ⟨hi, his⟩ := hr iy List.mem_cons_self
    have hshift := newRow_shift nsy iy v
    intro c hc y x hy0 hy hx0 hx
    rw [copyRows] at hc
    split_ifs at hc with hlast hskip
    · -- the loop ends, and every row that is left lies still further down
      obtain rfl := Option.some.inj hc
      refine (if_neg fun h => ?_).symm
      rcases List.mem_cons.mp h.1 with heq | hmem
      · omega
      · have hlater := hfirst _ hmem
        omega
    · refine (ih hsorted hrest hb c hc y x hy0 hy hx0 hx).trans (if_congr (and_congr_left fun _ => ?_) rfl rfl)
      rw [List.mem_cons, or_iff_right (by omega)]
    · obtain ⟨b', hb', hc⟩ := Option.bind_eq_some_iff.mp hc
      obtain ⟨b'', hb'', hsized⟩ := copyRow_sized hv hb hc0 hcs hcn hi his (not_lt.mp hskip) (not_le.mp hlast)
      obtain rfl := Option.some.inj (hb''.symm.trans hb')
      rw [ih hsorted hrest hsized c hc y x hy0 hy hx0 hx, copyRow_cell hb hcn _ hb' y x hy0 hy hx0 hx]
      by_cases hlater : y - newRow nsy 0 v ∈ rows ∧ x < copySx
      · rw [if_pos hlater, if_pos ⟨List.mem_cons_of_mem iy hlater.1, hlater.2⟩]
      · rw [if_neg hlater]
        by_cases hthis : y = newRow nsy iy v ∧ x < copySx
        · have hrow : y - newRow nsy 0 v = iy := by omega
          rw [if_pos hthis, if_pos ⟨List.mem_cons.mpr (.inl hrow), hthis.2⟩, hrow]
        · refine (if_neg hthis).trans (if_neg fun h => ?_).symm
          rcases List.mem_cons.mp h.1 with hrow | hmem
          · exact hthis ⟨by omega, h.2⟩
          · exact hlater ⟨hmem, h.2⟩

end Copy

lemma shift_fixed {β : Type} (z : β) (f : ℤ → β) {m n d : ℤ} (hd : d ≠ 0) :
    (∀ y, m ≤ y → y < n → (if m ≤ y - d ∧ y - d < n then f (y - d) else z) = f y) ↔ ∀ y, m ≤ y → y < n → f y = z := by
  constructor
  · intro h
    have hsteps (k : ℕ) : ∀ y, m ≤ y → y < n → ¬(m ≤ y - k * d ∧ y - k * d < n) → f y = z := by
      induction k with
      | zero =>
        intro y hm hn hout
        refine absurd ⟨?_, ?_⟩ hout
        all_goals simpa using ‹_›
      | succ k ih =>
        intro y hm hn hout
        rw [← h y hm hn]
        split_ifs with hin
        · apply ih _ hin.1 hin.2
          have hstep : y - d - k * d = y - ((k + 1 : ℕ) : ℤ) * d := by
            push_cast
            ring
          rwa [hstep]
        · rfl
    intro y hm hn
    refine hsteps (n - m).toNat y hm hn ?_
    rw [Int.toNat_of_nonneg (by omega)]
    rintro ⟨hlow, hhigh⟩
    rcases lt_or_gt_of_ne hd with hneg | hpos
    · nlinarith
    · nlinarith
  · intro h y hm hn
    rw [h y hm hn]
    split_ifs with hin
    · exact h _ hin.1 hin.2
    · rfl

section Reshape

structure Reshaped (nsx nsy : ℤ) (v w : View) : Prop where
  sx : w.sx = nsx
  sy : w.sy = nsy
  sbLength : w.sbLength = newSbLength nsy v
  cursorY : w.cursorY = if nsy < newCursorY nsy v then nsy - 1 else newCursorY nsy v
  text : ∀ y x, -v.maxScrollback ≤ y → y < nsy → 0 ≤ x → x < min v.sx nsx → rowCell w y x =
    if -v.sbLength ≤ y - newRow nsy 0 v ∧ y - newRow nsy 0 v < v.sy then rowCell v (y - newRow nsy 0 v) x else zeroCell

lemma range_sorted (m n : ℤ) : (Int.range m n).Pairwise (· < ·) := by
  rw [Int.range, List.pairwise_map]
  exact List.pairwise_lt_range.imp fun h => by omega

lemma cellOf_blankMemory (cells sx y x : ℤ) : cellOf (blankMemory cells) sx y x = zeroCell := by
  rw [cellOf, blankMemory, List.getD_eq_getElem?_getD, List.getElem?_replicate]
  split_ifs <;> rfl

lemma reshape_reshaped (hv : Arranged v) {nsy : ℤ} (hx : 1 ≤ nsx) (hy : 1 ≤ nsy) :
    Ensures (reshape nsx nsy v) (Reshaped nsx nsy v) := by
  have hsx := hv.sx_pos
  have hb : Buffers.Sized nsx nsy v ⟨blankMemory (nsx * nsy), blankMemory (nsx * v.maxScrollback)⟩ := by
    refine ⟨?_, ?_⟩
    · rw [length_blankMemory (mul_nonneg (by omega) (by omega)), mul_comm]
    · rw [length_blankMemory (mul_nonneg (by omega) hv.max_nonneg), mul_comm]
  have hcopied : (if nsx < v.sx then nsx else v.sx) = min v.sx nsx := by
    split_ifs <;> omega
  have hrows : ∀ iy ∈ Int.range (-v.sbLength) v.sy, -v.sbLength ≤ iy ∧ iy < v.sy := fun iy => Int.mem_range_iff.mp
  have hcopy : Ensures (copyRows nsx nsy (min v.sx nsx) v _ _) (Buffers.Sized nsx nsy v) :=
    copyRows_sized hv (by omega) (by omega) (by omega) _ hrows hb
  obtain ⟨c, hc, _⟩ := hcopy
  have hcell := copyRows_cell hv (by omega) (by omega) (by omega) _ (range_sorted _ _) hrows hb c hc
  rw [reshape, hcopied, hc]
  refine ensures_some ⟨rfl, rfl, rfl, rfl, fun y x hy0 hyn hx0 hxn => ?_⟩
  refine (congrArg bare (hcell y x hy0 hyn hx0 (by omega))).trans ?_
  have hempty : Buffers.cell ⟨blankMemory (nsx * nsy), blankMemory (nsx * v.maxScrollback)⟩ nsx v.maxScrollback y x = zeroCell := by
    rw [Buffers.cell, cellOf_blankMemory, cellOf_blankMemory, ite_self]
  rw [hempty]
  by_cases hin : -v.sbLength ≤ y - newRow nsy 0 v ∧ y - newRow nsy 0 v < v.sy
  · rw [if_pos hin, if_pos ⟨Int.mem_range_iff.mpr hin, hxn⟩]
    rfl
  · rw [if_neg hin, if_neg fun h => hin (Int.mem_range_iff.mp h.1)]
    rfl

end Reshape

/-- The cursor is not in the row just below the new screen, and the lines of a view that only gets wider or
narrower are not moved, or there is nothing in them. -/
def TextFits (nsx nsy : ℤ) (v : View) : Prop :=
  (nsy < v.sy → v.cursorY ≠ nsy) ∧ (nsy = v.sy → v.sbLength = 0 ∨ v.cursorY + 1 = v.sy ∨
    ∀ y x, -v.sbLength ≤ y → y < v.sy → 0 ≤ x → x < min v.sx nsx → rowCell v y x = zeroCell)

section Kept

lemma newRow_zero (hv : Arranged v) : newRow v.sy 0 v = 0 ↔ v.sbLength = 0 ∨ v.cursorY + 1 = v.sy := by
  have hsb := hv.sb_nonneg
  simp only [newRow, lineShift]
  split_ifs <;> omega

lemma le_newSbLength (hv : Arranged v) : v.sbLength ≤ newSbLength v.sy v := by
  have hsb := hv.sb_le
  simp only [newSbLength, newCursorY, lineShift]
  split_ifs <;> omega

lemma Reshaped.rows_iff (hv : Arranged v) (h : Reshaped nsx v.sy v w) :
    (∀ y, -v.sbLength ≤ y → y < v.sy → -w.sbLength ≤ y ∧ SameRow v w y y) ↔
      v.sbLength = 0 ∨ v.cursorY + 1 = v.sy ∨
        ∀ y x, -v.sbLength ≤ y → y < v.sy → 0 ≤ x → x < min v.sx nsx → rowCell v y x = zeroCell := by
  have hsb := hv.sb_le
  have hlength := le_newSbLength hv
  rw [← h.sbLength] at hlength
  have hkept : (∀ y, -v.sbLength ≤ y → y < v.sy → -w.sbLength ≤ y ∧ SameRow v w y y) ↔
      ∀ x, 0 ≤ x → x < min v.sx nsx → ∀ y, -v.sbLength ≤ y → y < v.sy →
        (if -v.sbLength ≤ y - newRow v.sy 0 v ∧ y - newRow v.sy 0 v < v.sy then rowCell v (y - newRow v.sy 0 v) x
          else zeroCell) = rowCell v y x := by
    constructor
    · intro hrows x hx0 hx y hy0 hy
      rw [← h.text y x (by omega) hy hx0 hx]
      refine (hrows y hy0 hy).2 x hx0 ?_
      rwa [h.sx]
    · intro hrows y hy0 hy
      refine ⟨by omega, fun x hx0 hx => ?_⟩
      rw [h.sx] at hx
      rw [h.text y x (by omega) hy hx0 hx]
      exact hrows x hx0 hx y hy0 hy
  rw [hkept, ← or_assoc, ← newRow_zero hv]
  by_cases hshift : newRow v.sy 0 v = 0
  · refine iff_of_true (fun x _ _ y hy0 hy => ?_) (.inl hshift)
    rw [hshift, sub_zero]
    exact if_pos ⟨hy0, hy⟩
  · rw [or_iff_right hshift]
    constructor
    · intro hrows y x hy0 hy hx0 hx
      exact (shift_fixed zeroCell (fun y => rowCell v y x) hshift).mp (hrows x hx0 hx) y hy0 hy
    · intro hblank x hx0 hx
      exact (shift_fixed zeroCell (fun y => rowCell v y x) hshift).mpr fun y hy0 hy => hblank y x hy0 hy hx0 hx

lemma newCursorY_row (hv : Arranged v) {nsy : ℤ} (hy : 1 ≤ nsy) (h0 : 0 ≤ v.cursorY) (hlt : v.cursorY < v.sy)
    (hfit : nsy < v.sy → v.cursorY ≠ nsy) (hshift : nsy = v.sy → newRow nsy 0 v = 0) :
    (if nsy < newCursorY nsy v then nsy - 1 else newCursorY nsy v) = v.cursorY + newRow nsy 0 v ∧
      0 ≤ v.cursorY + newRow nsy 0 v ∧ v.cursorY + newRow nsy 0 v < nsy := by
  have hsb := hv.sb_nonneg
  simp only [newCursorY, newRow, lineShift] at hshift ⊢
  split_ifs at hshift ⊢ <;> omega

lemma Reshaped.cursor (hv : Arranged v) {nsy : ℤ} (hy : 1 ≤ nsy) (h : Reshaped nsx nsy v w) (h0 : 0 ≤ v.cursorY)
    (hlt : v.cursorY < v.sy) (hfit : nsy < v.sy → v.cursorY ≠ nsy) (hshift : nsy = v.sy → newRow nsy 0 v = 0) :
    0 ≤ w.cursorY ∧ w.cursorY < w.sy ∧ SameRow v w v.cursorY w.cursorY := by
  have hsb := hv.sb_nonneg
  have hmax := hv.max_nonneg
  obtain ⟨hcursor, hlow, hhigh⟩ := newCursorY_row hv hy h0 hlt hfit hshift
  rw [h.cursorY, hcursor, h.sy]
  refine ⟨hlow, hhigh, fun x hx0 hx => ?_⟩
  rw [h.sx] at hx
  rw [h.text _ x (by omega) hhigh hx0 hx, add_sub_cancel_right]
  exact if_pos ⟨by omega, hlt⟩

lemma Reshaped.cursor_lost {nsy : ℤ} (h : Reshaped nsx nsy v w) (hless : nsy < v.sy) (hcy : v.cursorY = nsy) :
    ¬w.cursorY < w.sy := by
  rw [h.cursorY, h.sy, newCursorY, if_neg (by omega), if_neg (by omega)]
  omega

lemma Reshaped.keepsText_iff (hv : Arranged v) {nsy : ℤ} (hy : 1 ≤ nsy) (h : Reshaped nsx nsy v w) :
    KeepsText v w ↔ TextFits nsx nsy v := by
  constructor
  · intro hkept
    refine ⟨fun hless hcy => ?_, fun hsame => ?_⟩
    · exact h.cursor_lost hless hcy (hkept.cursor (by omega) (by omega)).2.1
    · subst hsame
      exact (h.rows_iff hv).mp (hkept.rows h.sy)
  · rintro ⟨hfit, hrows⟩
    refine ⟨fun h0 hlt => ?_, fun hsame => ?_⟩
    · by_cases hshift : nsy = v.sy → newRow nsy 0 v = 0
      · exact h.cursor hv hy h0 hlt hfit hshift
      · -- the lines go elsewhere without the cursor, and all of them are empty
        obtain ⟨rfl, hmoved⟩ := Classical.not_imp.mp hshift
        have hcursor : w.cursorY = v.cursorY := by
          rw [h.cursorY, newCursorY, if_neg (by omega), if_neg (by omega)]
        rw [hcursor, h.sy]
        exact ⟨h0, hlt, ((h.rows_iff hv).mpr (hrows rfl) v.cursorY (by have := hv.sb_nonneg; omega) hlt).2⟩
    · obtain rfl := h.sy.symm.trans hsame
      exact (h.rows_iff hv).mpr (hrows rfl)

end Kept

section Session

lemma SameText.keepsText (h : SameText v w) : KeepsText v w := by
  refine ⟨fun h0 hlt => ?_, fun _ y hy0 _ => ?_⟩
  · rw [h.cursorY, h.sy]
    exact ⟨h0, hlt, fun x _ _ => by rw [h.text]⟩
  · rw [h.sbLength]
    exact ⟨hy0, fun x _ _ => by rw [h.text]⟩

lemma SameText.keepsText_congr {u : View} (h : SameText v w) : KeepsText w u ↔ KeepsText v u := by
  have hrow : SameRow w u = SameRow v u := by
    funext y y'
    rw [SameRow, SameRow, h.sx, h.text]
  rw [keepsText_iff, keepsText_iff, hrow, h.cursorY, h.sy, h.sbLength]

lemma SameText.textFits_congr (h : SameText v w) (nsx nsy : ℤ) : TextFits nsx nsy w ↔ TextFits nsx nsy v := by
  rw [TextFits, TextFits, h.cursorY, h.sx, h.sy, h.sbLength, h.text]

lemma clearSelection_arranged (hv : Arranged v) : Ensures (clearSelection v) fun w => Arranged w ∧ SameText v w := by
  obtain ⟨w, hw, hselects⟩ := clearSelection_selects hv
  refine ⟨w, hw, ⟨hv.toSized.frame hselects.toFrame, ?_, ?_, hselects.inside⟩, setSelection_sameText _ v w hw⟩
  · rw [hselects.sbLength]
    exact hv.sb_nonneg
  · rw [hselects.sbLength, hselects.maxScrollback]
    exact hv.sb_le

theorem resizeTerminalTo_keepsText_iff (t : Session σ) (ht : Arranged t.view) (nsx nsy : ℤ) (allocated : Bool) :
    (∃ u, resizeTerminalTo nsx nsy allocated t = some u ∧ KeepsText t.view u.view) ↔
      t.view.ignoreResize = true ∨
        (atLeastOne (wrap32 nsx) = t.view.sx ∧ atLeastOne (wrap32 nsy) = t.view.sy) ∨ allocated = false ∨
          TextFits (atLeastOne (wrap32 nsx)) (atLeastOne (wrap32 nsy)) t.view := by
  have hx := (atLeastOne_wrap32_mem nsx).1
  have hy := (atLeastOne_wrap32_mem nsy).1
  rw [resizeTerminalTo]
  by_cases hignore : t.view.ignoreResize = true
  · simp only [if_pos hignore]
    exact iff_of_true ⟨t, rfl, (SameText.refl _).keepsText⟩ (.inl hignore)
  simp only [if_neg hignore, or_iff_right hignore]
  by_cases hsize : atLeastOne (wrap32 nsx) = t.view.sx ∧ atLeastOne (wrap32 nsy) = t.view.sy
  · simp only [if_pos hsize]
    have hredrawn : SameText t.view { t.view with drawAll := 2 } := ⟨by constructor <;> rfl, rfl⟩
    exact iff_of_true ⟨_, rfl, hredrawn.keepsText⟩ (.inl hsize)
  simp only [if_neg hsize, or_iff_right hsize]
  obtain ⟨v, hv, harranged, hsame⟩ := clearSelection_arranged ht
  rw [hv]
  cases allocated with
  | false => exact iff_of_true ⟨_, rfl, hsame.keepsText⟩ (.inl rfl)
  | true =>
    obtain ⟨w, hw, hreshaped⟩ := reshape_reshaped harranged hx hy
    rw [or_iff_right (by decide), ← hsame.textFits_congr, ← hreshaped.keepsText_iff harranged hy, hsame.keepsText_congr]
    simp only [Option.bind_eq_bind, Option.bind_some, if_pos, hw]
    constructor
    · rintro ⟨u, hu, hkept⟩
      obtain rfl := Option.some.inj hu
      exact ⟨hkept.cursor, hkept.rows⟩
    · intro hkept
      exact ⟨_, rfl, hkept.cursor, hkept.rows⟩

/-- A view of two lines gets wider, with the cursor in the first of them. -/
theorem resizeTerminalTo_keepsText_wider : ∃ t, typedSession latinHost size2x2 [97] = some t ∧ Arranged t.view ∧
    ((∃ u, resizeTerminalTo 3 2 true t = some u ∧ KeepsText t.view u.view) ↔
      t.view.ignoreResize = true ∨
        (atLeastOne (wrap32 3) = t.view.sx ∧ atLeastOne (wrap32 2) = t.view.sy) ∨ true = false ∨
          TextFits (atLeastOne (wrap32 3)) (atLeastOne (wrap32 2)) t.view) := by
  have hcontained : Along (afterByte latinHost) (ByteContained latinHost) (initial size2x2 none) [97] := by
    decide
  obtain ⟨t, htyped, ht, _⟩ := typedSession_reading latinHost size2x2 [97] hcontained
  have harranged := ht.view.arranged
  exact ⟨t, htyped, harranged, resizeTerminalTo_keepsText_iff t harranged 3 2 true⟩

/-- The screen gets one line lower, and the cursor stays in the row that is no longer there. -/
theorem cursor_below_screen : ∃ t, typedSession latinHost size2x2 [10, 97] = some t ∧ Arranged t.view ∧
    ¬∃ u, resizeTerminalTo 2 1 true t = some u ∧ KeepsText t.view u.view := by
  have hcontained : Along (afterByte latinHost) (ByteContained latinHost) (initial size2x2 none) [10, 97] := by
    decide
  obtain ⟨t, htyped, ht, _⟩ := typedSession_reading latinHost size2x2 [10, 97] hcontained
  have hresized : (typedSession latinHost size2x2 [10, 97]).map (fun t =>
      (t.view.cursorY, t.view.sy, (resizeTerminalTo 2 1 true t).map fun u => (u.view.cursorY, u.view.sy))) =
        some (1, 2, some (1, 1)) := by
    decide
  rw [htyped, Option.map_some, Option.some.injEq, Prod.mk.injEq, Prod.mk.injEq] at hresized
  obtain ⟨hy, hheight, hresized⟩ := hresized
  refine ⟨t, htyped, ht.view.arranged, ?_⟩
  rintro ⟨u, hu, hkept⟩
  rw [hu, Option.map_some, Option.some.injEq, Prod.mk.injEq] at hresized
  have hlt := (hkept.cursor (by omega) (by omega)).2.1
  omega

end Session

end Xperimentum.Terminal.TerminalView
