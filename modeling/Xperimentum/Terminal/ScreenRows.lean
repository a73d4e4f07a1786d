import Mathlib.Tactic
import Xperimentum.Terminal.View

/-! The cell arrays as rows of columns: what moving rows, moving within a row and writing a span leave in
each cell. -/

namespace Xperimentum.Terminal.TerminalView

open Xperimentum.Lib.Memory Xperimentum.Terminal.LinuxParser

variable {dst src buf b : List ScreenChar} {sx y x : ℤ}

def cellOf (buf : List ScreenChar) (sx y x : ℤ) : ScreenChar := buf.getD (y * sx + x).toNat zeroCell

lemma row_le_iff (h0 : 0 ≤ x) (hx : x < sx) (r y : ℤ) : r * sx ≤ y * sx + x ↔ r ≤ y := by
  refine ⟨fun h => ?_, fun h => ?_⟩
  · by_contra hlt
    have hm := mul_le_mul_of_nonneg_right (Int.add_one_le_of_lt (not_le.mp hlt)) (by omega : 0 ≤ sx)
    rw [add_mul, one_mul] at hm
    omega
  · have hm := mul_le_mul_of_nonneg_right h (by omega : 0 ≤ sx)
    omega

lemma row_lt_iff (h0 : 0 ≤ x) (hx : x < sx) (r y : ℤ) : y * sx + x < r * sx ↔ y < r := by
  have h := row_le_iff h0 hx r y
  omega

lemma cell_nonneg (hy : 0 ≤ y) (h0 : 0 ≤ x) (hx : x < sx) : 0 ≤ y * sx + x :=
  add_nonneg (mul_nonneg hy (by omega)) h0

lemma cellOf_moveRows {d s n : ℤ} (h : b ∈ move dst (d * sx) src (s * sx) (n * sx)) {rows : ℤ}
    (hl : rows * sx ≤ dst.length) (hy0 : 0 ≤ y) (hy : y < rows) (h0 : 0 ≤ x) (hx : x < sx) :
    cellOf b sx y x = if d ≤ y ∧ y < d + n then cellOf src sx (s + (y - d)) x else cellOf dst sx y x := by
  have hlt := (row_lt_iff h0 hx rows y).mpr hy
  have hg := getD_move h zeroCell (cell_nonneg hy0 h0 hx) (by omega)
  simp only [← add_mul, row_le_iff h0 hx, row_lt_iff h0 hx] at hg
  have hi : s * sx + (y * sx + x - d * sx) = (s + (y - d)) * sx + x := by ring
  rw [hi] at hg
  exact hg

lemma rows_of_move {d s n rows : ℤ} (h : b ∈ move dst (d * sx) src (s * sx) (n * sx)) (hx : 1 ≤ sx)
    (hl : (src.length : ℤ) = rows * sx) (hn : 1 ≤ n) : 0 ≤ s ∧ s + n ≤ rows := by
  obtain ⟨-, -, hs⟩ := inside_of_move h
  have hpos := mul_pos (by omega : 0 < n) (by omega : 0 < sx)
  obtain ⟨h0, hr⟩ := hs.resolve_left (by omega)
  rw [hl, ← add_mul] at hr
  exact ⟨nonneg_of_mul_nonneg_left h0 (by omega), le_of_mul_le_mul_right hr (by omega)⟩

lemma cellOf_moveInRow {r d s n : ℤ} (h : b ∈ move buf (r * sx + d) buf (r * sx + s) n) {rows : ℤ}
    (hl : rows * sx ≤ buf.length) (hd : 0 ≤ d) (hn : d + n ≤ sx) (hy0 : 0 ≤ y) (hy : y < rows) (h0 : 0 ≤ x)
    (hx : x < sx) :
    cellOf b sx y x = if y = r ∧ d ≤ x ∧ x < d + n then cellOf buf sx r (s + (x - d)) else cellOf buf sx y x := by
  have hlt := (row_lt_iff h0 hx rows y).mpr hy
  have hg := getD_move h zeroCell (cell_nonneg hy0 h0 hx) (by omega)
  by_cases hr : y = r
  · subst hr
    have hc : (y * sx + d ≤ y * sx + x ∧ y * sx + x < y * sx + d + n) ↔ d ≤ x ∧ x < d + n := by omega
    have hi : y * sx + s + (y * sx + x - (y * sx + d)) = y * sx + (s + (x - d)) := by ring
    rw [hi] at hg
    simp only [cellOf, hg, hc, true_and]
  · have hc : ¬(r * sx + d ≤ y * sx + x ∧ y * sx + x < r * sx + d + n) := by
      rcases lt_or_gt_of_ne hr with hlt | hgt
      · have hm := (row_lt_iff h0 hx r y).mpr hlt
        omega
      · have hm := (row_le_iff h0 hx (r + 1) y).mpr hgt
        rw [add_mul, one_mul] at hm
        omega
    rw [if_neg hc] at hg
    rw [if_neg fun h => hr h.1]
    exact hg

lemma cellOf_update {f : ScreenChar → ScreenChar} {start count : ℤ} (h : b ∈ update f buf start count) {rows : ℤ}
    (hl : rows * sx ≤ buf.length) (hy0 : 0 ≤ y) (hy : y < rows) (h0 : 0 ≤ x) (hx : x < sx) :
    cellOf b sx y x =
      if start ≤ y * sx + x ∧ y * sx + x < start + count then f (cellOf buf sx y x) else cellOf buf sx y x := by
  have hlt := (row_lt_iff h0 hx rows y).mpr hy
  exact getD_update h zeroCell (cell_nonneg hy0 h0 hx) (by omega)

end Xperimentum.Terminal.TerminalView
