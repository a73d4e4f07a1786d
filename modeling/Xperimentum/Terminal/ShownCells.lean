import Mathlib.Tactic
import Xperimentum.Terminal.LazyRedraw

/-! What the cells of the screen show after each call of the parser that writes or moves them. -/

namespace Xperimentum.Terminal.TerminalView

open Xperimentum.Lib.Memory Xperimentum.Lib.Partial Xperimentum.Terminal.LinuxParser

variable {v w u : View} {y x k : ℤ}

instance (v : View) (y x : ℤ) : Decidable (OnScreen v y x) := inferInstanceAs (Decidable (_ ∧ _))

/-- The rows of the screen, without the flags for redrawing. -/
def shown (v : View) (y x : ℤ) : ScreenChar := if OnScreen v y x then clean (cellOf v.screen v.sx y x) else zeroCell

lemma shown_on (h : OnScreen v y x) : shown v y x = clean (cellOf v.screen v.sx y x) := if_pos h

lemma shown_off (h : ¬OnScreen v y x) : shown v y x = zeroCell := if_neg h

lemma clean_markDirty (c : ScreenChar) : clean (markDirty c) = clean c := by
  rw [clean, clean, markDirty, Nat.and_or_distrib_right]
  exact congrArg _ (Nat.or_zero _)

lemma shown_congr (hx : w.sx = v.sx) (hy : w.sy = v.sy) (hs : w.screen = v.screen) : shown w = shown v := by
  funext y x
  have hon : OnScreen w y x ↔ OnScreen v y x := by rw [OnScreen, OnScreen, hx, hy]
  rw [shown, shown]
  exact if_congr hon (by rw [hx, hs]) rfl

lemma shown_addDirty (ax0 ay0 asx asy : ℤ) (v : View) : shown (addDirty ax0 ay0 asx asy v) = shown v := by
  rw [addDirty]
  split_ifs <;> exact shown_congr rfl rfl rfl

lemma shown_compositeRow (v : View) : shown (compositeRow v) = shown v := by
  have hkeep := compositeRow_retains v
  exact shown_congr hkeep.sx hkeep.sy (compositeRow_screen v)

lemma shown_compositeScroll (t b delta : ℤ) (v : View) : shown (compositeScroll t b delta v) = shown v := by
  have hkeep := compositeScroll_retains t b delta v
  exact shown_congr hkeep.sx hkeep.sy (compositeScroll_screen t b delta v)

lemma shown_update (hv : Sized v) {f : ScreenChar → ScreenChar} {start count : ℤ} {screen : List ScreenChar}
    (h : screen ∈ update f v.screen start count) : shown { v with screen := screen } = fun y x =>
      if OnScreen v y x ∧ start ≤ y * v.sx + x ∧ y * v.sx + x < start + count then clean (f (cellOf v.screen v.sx y x))
      else shown v y x := by
  funext y x
  by_cases hin : OnScreen v y x
  · have hcell := cellOf_update h (screen_rows_le hv) hin.1 hin.2.1 hin.2.2.1 hin.2.2.2
    rw [shown_on hin, shown_on (v := { v with screen := screen }) hin, hcell]
    by_cases hspan : start ≤ y * v.sx + x ∧ y * v.sx + x < start + count
    · rw [if_pos hspan, if_pos ⟨hin, hspan⟩]
    · rw [if_neg hspan, if_neg fun h => hspan h.2]
  · rw [shown_off hin, shown_off (v := { v with screen := screen }) hin, if_neg fun h => hin h.1]

lemma shown_markCurrentIf (hv : Sized v) (covered : Prop) [Decidable covered] :
    Allows (markCurrentIf covered v) fun w => shown w = shown v := by
  rw [markCurrentIf]
  split_ifs
  · intro w hw
    obtain ⟨screen, hs, hw⟩ := Option.bind_eq_some_iff.mp hw
    obtain rfl := Option.some.inj hw
    have hshown := shown_update hv hs
    refine (shown_congr (v := { v with screen := screen }) rfl rfl rfl).trans (hshown.trans ?_)
    funext y x
    split_ifs with hin
    · rw [clean_markDirty, shown_on hin.1]
    · rfl
  · exact allows_pure rfl

lemma span_iff {sx x' : ℤ} (y y' : ℤ) (h0' : 0 ≤ x') (hx' : x' < sx) (h0 : 0 ≤ x) (hk : x + k ≤ sx) :
    (y * sx + x ≤ y' * sx + x' ∧ y' * sx + x' < y * sx + x + k) ↔ y' = y ∧ x ≤ x' ∧ x' < x + k := by
  constructor
  · rintro ⟨hlow, hhigh⟩
    have hle := (row_le_iff h0' hx' y y').mp (by omega)
    have hge := (row_lt_iff h0' hx' (y + 1) y').mp (by rw [add_mul, one_mul]; omega)
    obtain rfl : y' = y := by omega
    exact ⟨rfl, by omega, by omega⟩
  · rintro ⟨rfl, hlow, hhigh⟩
    exact ⟨by omega, by omega⟩

lemma shown_putCharAt (hv : Sized v) (ch : ScreenChar) (h0 : 0 ≤ x) (hy0 : 0 ≤ y) (hy : y < v.sy) :
    Allows (ts_putCharAt ch k x y v) fun w => shown w =
      Function.update (shown v) y fun x' => if x ≤ x' ∧ x' < min (x + k) v.sx then clean ch else shown v y x' := by
  intro w hw
  rw [ts_putCharAt, if_neg (by omega)] at hw
  simp only [if_neg (not_lt.mpr h0)] at hw
  obtain ⟨screen, hs, hw⟩ := Option.bind_eq_some_iff.mp hw
  obtain rfl := Option.some.inj hw
  rw [shown_addDirty, shown_update hv hs]
  have hend : (x + if v.sx < x + k then v.sx - x else k) = min (x + k) v.sx := by
    split_ifs <;> omega
  funext y' x'
  by_cases hin : OnScreen v y' x'
  · have hspan := span_iff y y' hin.2.2.1 hin.2.2.2 h0
      (hend.trans_le (min_le_right (x + k) v.sx))
    rw [hend] at hspan
    refine (if_congr ((and_iff_right hin).trans hspan) rfl rfl).trans ?_
    by_cases hrow : y' = y
    · subst hrow
      rw [Function.update_self, clean_markDirty]
      exact if_congr (and_iff_right rfl) rfl rfl
    · rw [Function.update_of_ne hrow, if_neg fun h => hrow h.1]
  · rw [if_neg fun h => hin h.1]
    by_cases hrow : y' = y
    · subst hrow
      rw [Function.update_self, if_neg fun h => hin ⟨hy0, hy, by omega, by omega⟩]
    · rw [Function.update_of_ne hrow]

lemma shown_putCharOffset (hv : Sized v) (ch : ScreenChar) {r n : ℤ} (hr : 0 ≤ r) (hn : r + n ≤ v.sy) :
    Allows (ts_putCharOffset ch (v.sx * n) (v.sx * r) v) fun w => shown w = fun y =>
      if r ≤ y ∧ y < r + n then fun x => if 0 ≤ x ∧ x < v.sx then clean ch else zeroCell else shown v y := by
  have hsx := hv.sx_pos
  have hr0 : 0 ≤ v.sx * r := mul_nonneg (by omega) hr
  have hfit : v.sx * r + v.sx * n ≤ v.sx * v.sy := by
    rw [← mul_add]
    exact mul_le_mul_of_nonneg_left hn (by omega)
  intro w hw
  rw [ts_putCharOffset] at hw
  simp only [if_neg (not_lt.mpr hfit), if_neg (not_lt.mpr hr0)] at hw
  obtain ⟨screen, hs, hw⟩ := Option.bind_eq_some_iff.mp hw
  obtain rfl := Option.some.inj hw
  rw [shown_addDirty, shown_update hv hs, mul_comm v.sx r, mul_comm v.sx n, ← add_mul]
  funext y x
  by_cases hin : OnScreen v y x
  · have hrows : (r * v.sx ≤ y * v.sx + x ∧ y * v.sx + x < (r + n) * v.sx) ↔ r ≤ y ∧ y < r + n :=
      and_congr (row_le_iff hin.2.2.1 hin.2.2.2 r y) (row_lt_iff hin.2.2.1 hin.2.2.2 (r + n) y)
    refine (if_congr ((and_iff_right hin).trans hrows) rfl rfl).trans ?_
    split_ifs
    · rw [clean_markDirty]
      exact (if_pos hin.2.2).symm
    · rfl
  · rw [if_neg fun h => hin h.1, shown_off hin]
    split_ifs with hrows
    · exact (if_neg fun h => hin ⟨hr.trans hrows.1, hrows.2.trans_le hn, h⟩).symm
    · exact (shown_off hin).symm

lemma shown_shiftRow (hv : Sized v) {delta : ℤ} (hy0 : 0 ≤ y) (hy : y < v.sy) (h0 : 0 ≤ x) (hx : x < v.sx)
    (hd0 : 0 ≤ x + delta) : Allows (ts_shiftRow y x delta v) fun w => shown w =
      Function.update (shown v) y fun x' =>
        if x + delta ≤ x' ∧ x' < v.sx + min 0 delta then shown v y (x' - delta) else shown v y x' := by
  intro w hw
  rw [ts_shiftRow, if_neg (by omega)] at hw
  simp only [if_neg (not_lt.mpr hd0)] at hw
  obtain ⟨u, hu, hw⟩ := Option.bind_eq_some_iff.mp hw
  obtain ⟨screen, hm, hw⟩ := Option.bind_eq_some_iff.mp hw
  obtain rfl := Option.some.inj hw
  have hkeep := markCurrentIf_retains _ v u hu
  have hz := hv.retains hkeep
  rw [shown_addDirty, shown_compositeRow, ← shown_markCurrentIf hv _ u hu]
  rw [← hkeep.sx] at hx ⊢
  rw [← hkeep.sy] at hy
  funext y' x'
  have hspan : (x + delta ≤ x' ∧ x' < x + delta + if u.sx < x + delta + (u.sx - x) then u.sx - (x + delta) else u.sx - x) ↔
      x + delta ≤ x' ∧ x' < u.sx + min 0 delta := by
    split_ifs <;> omega
  by_cases hin : OnScreen u y' x'
  · have hcell := cellOf_moveInRow hm (screen_rows_le hz) hd0 (by split_ifs <;> omega) hin.1 hin.2.1 hin.2.2.1 hin.2.2.2
    rw [shown_on (v := { u with screen := screen }) hin, hcell]
    by_cases hrow : y' = y
    · subst hrow
      rw [Function.update_self]
      by_cases hmoved : x + delta ≤ x' ∧ x' < u.sx + min 0 delta
      · have hsource : OnScreen u y' (x' - delta) := ⟨hin.1, hin.2.1, by omega, by omega⟩
        have hcolumn : x + (x' - (x + delta)) = x' - delta := by omega
        rw [if_pos ⟨rfl, hspan.mpr hmoved⟩, if_pos hmoved, shown_on hsource, hcolumn]
      · rw [if_neg fun h => hmoved (hspan.mp h.2), if_neg hmoved, shown_on hin]
    · rw [Function.update_of_ne hrow, if_neg fun h => hrow h.1, shown_on hin]
  · rw [shown_off (v := { u with screen := screen }) hin]
    by_cases hrow : y' = y
    · subst hrow
      have hcolumn : ¬(0 ≤ x' ∧ x' < u.sx) := fun h => hin ⟨hy0, hy, h⟩
      rw [Function.update_self, if_neg (by omega), shown_off hin]
    · rw [Function.update_of_ne hrow, shown_off hin]

lemma shown_scrollRegion (hv : Sized v) (s delta : ℤ) {t b nr d : ℤ} (hn : t + nr < b) (hd0 : 0 ≤ d)
    (hd : d + (b - t - nr) ≤ v.sy) : Allows (scrollRegion t b nr d s delta v) fun w => shown w = fun y =>
      if d ≤ y ∧ y < d + (b - t - nr) then shown v (s + (y - d)) else shown v y := by
  intro w hw
  obtain ⟨u, hu, hw⟩ := Option.bind_eq_some_iff.mp hw
  obtain ⟨screen, hm, hw⟩ := Option.bind_eq_some_iff.mp hw
  obtain rfl := Option.some.inj hw
  have hkeep := markCurrentIf_retains _ v u hu
  have hz := hv.retains hkeep
  obtain ⟨hs0, hs⟩ := rows_of_move hm hz.sx_pos hz.screen_length (by omega)
  rw [shown_addDirty, shown_compositeScroll, ← shown_markCurrentIf hv _ u hu]
  rw [← hkeep.sy] at hd
  funext y x
  by_cases hin : OnScreen u y x
  · rw [shown_on (v := { u with screen := screen }) hin,
      cellOf_moveRows hm (screen_rows_le hz) hin.1 hin.2.1 hin.2.2.1 hin.2.2.2]
    split_ifs with hrows
    · exact (shown_on ⟨by omega, by omega, hin.2.2⟩).symm
    · exact (shown_on hin).symm
  · rw [shown_off (v := { u with screen := screen }) hin]
    split_ifs with hrows
    · exact (shown_off fun h => hin ⟨by omega, by omega, h.2.2⟩).symm
    · exact (shown_off hin).symm

end Xperimentum.Terminal.TerminalView
