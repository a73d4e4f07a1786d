import Mathlib.Tactic
import Xperimentum.Terminal.ControlSequences
import Xperimentum.Terminal.ParserRuns

/-! Where `CSI H`, `CSI f` and `CSI d` put the cursor. -/

namespace Xperimentum.Terminal.LinuxParser

open Xperimentum.Lib.Int32 Xperimentum.Lib.Runs

variable {σ : Type} {p : Parser σ}

/-- Lines and columns are counted from 1, and 0 is 1. -/
def wantedColumn (p : Parser σ) (c : ℕ) : ℤ := min (max c 1 - 1) (p.width - 1)

def wantedRow (p : Parser σ) (r : ℕ) : ℤ :=
  if p.decom then min (p.top + max r 1 - 1) (p.bottom - 1) else min (max r 1 - 1) (p.height - 1)

/-- The parameter is an `int`, or what is left of it still lies behind the last place. -/
def Reaches (n : ℕ) (size : ℤ) : Prop := n < 2 ^ 31 ∨ size ≤ wrap32 n ∨ wrap32 n = -2 ^ 31 ∨ size = 1

/-- With origin mode on only the first line of the region is reached. -/
def ReachesRow (p : Parser σ) (n : ℕ) : Prop :=
  if p.decom then n ≤ 1 ∨ p.bottom = p.top + 1 ∧ (p.top ≤ 1 ∨ p.top + wrap32 n ≠ 1) else Reaches n p.height

/-- `if (par[i]) par[i]--;` -/
def decremented (n : ℤ) : ℤ := if n ≠ 0 then wrap32 (n - 1) else n

lemma parAt_decrementPar (hp : Sane p) {i : ℕ} (hi : i < nparMax) (j : ℕ) :
    parAt (decrementPar i p) j = if j = i then decremented (parAt p i) else parAt p j := by
  rw [decrementPar, decremented]
  split_ifs with h0 hj hj
  · rw [parAt_setPar hp hi, if_pos hj]
  · rw [parAt_setPar hp hi, if_neg hj]
  · rw [hj]
  · rfl

lemma wrap32_eq_zero {n : ℤ} (hl : -2 ^ 32 < n) (hu : n < 2 ^ 32) : wrap32 n = 0 ↔ n = 0 := by
  constructor
  · intro h
    have hmod := wrap32_modEq n
    rw [h] at hmod
    have hdvd := (Int.modEq_zero_iff_dvd).mp hmod.symm
    omega
  · rintro rfl
    decide

lemma decremented_wrap32 (n : ℕ) :
    (wrap32 n = 0 ∧ decremented (wrap32 n) = 0) ∨ (wrap32 n = -2 ^ 31 ∧ decremented (wrap32 n) = 2 ^ 31 - 1) ∨
      (wrap32 n ≠ 0 ∧ wrap32 n ≠ -2 ^ 31 ∧ decremented (wrap32 n) = wrap32 n - 1) := by
  have hl := wrap32_lower n
  have hu := wrap32_upper n
  rw [decremented]
  by_cases h0 : wrap32 n = 0
  · exact .inl ⟨h0, by rw [if_neg (not_not.mpr h0), h0]⟩
  · by_cases hmin : wrap32 n = -2 ^ 31
    · exact .inr (.inl ⟨hmin, by rw [if_pos h0, hmin]; decide⟩)
    · exact .inr (.inr ⟨h0, hmin, by rw [if_pos h0, wrap32_of_mem (by omega) (by omega)]⟩)

lemma clampInto_decremented (n : ℕ) {size : ℤ} (h1 : 1 ≤ size) (hlt : size < 2 ^ 31) :
    clampInto (decremented (wrap32 n)) 0 size = min (((max n 1 : ℕ) : ℤ) - 1) (size - 1) ↔ Reaches n size := by
  have hl := wrap32_lower n
  have hu := wrap32_upper n
  have hcases := decremented_wrap32 n
  rw [Reaches, clampInto]
  by_cases hn : n < 2 ^ 31
  · have hw : wrap32 n = n := wrap32_of_mem (by omega) (by omega)
    rw [hw] at hcases ⊢
    refine iff_of_true ?_ (.inl hn)
    split_ifs <;> omega
  · constructor
    · intro h
      split_ifs at h <;> omega
    · intro h
      split_ifs <;> omega

lemma gotoxay_x (nx ny : ℤ) (p : Parser σ) : (gotoxay nx ny p).parser.x = clampInto nx 0 p.width := rfl

lemma gotoxay_y (nx ny : ℤ) (p : Parser σ) : (gotoxay nx ny p).parser.y =
    if p.decom then (if wrap32 (p.top + ny) ≠ 0 then p.top else 0) else clampInto ny 0 p.height := rfl

lemma gotoxay_row (hp : Sane p) (nx : ℤ) (n : ℕ) :
    (gotoxay nx (decremented (wrap32 n)) p).parser.y = wantedRow p n ↔ ReachesRow p n := by
  have htop := hp.top_nonneg
  have hbottom := hp.top_lt
  have hle := hp.bottom_le
  have hlt := hp.height_lt
  have hl := wrap32_lower n
  have hu := wrap32_upper n
  have hcases := decremented_wrap32 n
  rw [gotoxay_y, wantedRow, ReachesRow]
  by_cases hdecom : p.decom
  · simp only [if_pos hdecom]
    have hzero : wrap32 (p.top + decremented (wrap32 n)) = 0 ↔ p.top + decremented (wrap32 n) = 0 :=
      wrap32_eq_zero (by omega) (by omega)
    have hsmall : n < 2 ^ 31 → wrap32 n = n := fun hn => wrap32_of_mem (by omega) (by omega)
    by_cases hsum : p.top + decremented (wrap32 n) = 0
    · rw [if_neg (not_not.mpr (hzero.mpr hsum))]
      omega
    · rw [if_pos (hzero.not.mpr hsum)]
      omega
  · simp only [if_neg hdecom]
    exact clampInto_decremented n (by have := hp.height_pos; omega) hlt

lemma csiFinal_cup (host : Host σ) {final : UInt8} (hfinal : final = 0x48 ∨ final = 0x66) (hp : Sane p) :
    csiFinal host final p =
      gotoxay (decremented (parAt p 1)) (decremented (parAt p 0)) (decrementPar 1 (decrementPar 0 p)) := by
  have hq := hp.frame (decrementPar_frame 0 p)
  have h0 : parAt (decrementPar 1 (decrementPar 0 p)) 0 = decremented (parAt p 0) := by
    rw [parAt_decrementPar hq (by decide), if_neg (by decide), parAt_decrementPar hp (by decide), if_pos rfl]
  have h1 : parAt (decrementPar 1 (decrementPar 0 p)) 1 = decremented (parAt p 1) := by
    rw [parAt_decrementPar hq (by decide), if_pos rfl, parAt_decrementPar hp (by decide), if_neg (by decide)]
  rw [← h0, ← h1]
  rcases hfinal with rfl | rfl <;> rfl

lemma csiFinal_vpa (host : Host σ) (hp : Sane p) :
    csiFinal host 0x64 p = gotoxay p.x (decremented (parAt p 0)) (decrementPar 0 p) := by
  have h0 : parAt (decrementPar 0 p) 0 = decremented (parAt p 0) := by
    rw [parAt_decrementPar hp (by decide), if_pos rfl]
  have hx : (decrementPar 0 p).x = p.x := (decrementPar_frame 0 p).x
  rw [← h0, ← hx]
  rfl

/-- What positioning reads of the state. -/
structure SameScreen (p q : Parser σ) : Prop where
  width : q.width = p.width
  height : q.height = p.height
  top : q.top = p.top
  bottom : q.bottom = p.bottom
  decom : q.decom = p.decom

lemma sameScreen_decrementPar (i : ℕ) (p : Parser σ) : SameScreen p (decrementPar i p) := by
  rw [decrementPar]
  split_ifs <;> constructor <;> rfl

lemma sameScreen_oneRead (ds : List (Fin 10)) (p : Parser σ) :
    SameScreen p (decrementPar 0 (setState .normal (oneRead ds p))) := by
  obtain ⟨hwidth, hheight, htop, hbottom, hdecom⟩ := sameScreen_decrementPar 0 (setState .normal (oneRead ds p))
  exact ⟨hwidth, hheight, htop, hbottom, hdecom⟩

lemma sameScreen_twoRead (ds es : List (Fin 10)) (p : Parser σ) :
    SameScreen p (decrementPar 1 (decrementPar 0 (setState .normal (twoRead ds es p)))) := by
  obtain ⟨hwidth, hheight, htop, hbottom, hdecom⟩ := sameScreen_decrementPar 0 (setState .normal (twoRead ds es p))
  have hsecond := sameScreen_decrementPar 1 (decrementPar 0 (setState .normal (twoRead ds es p)))
  exact ⟨hsecond.width.trans hwidth, hsecond.height.trans hheight, hsecond.top.trans htop, hsecond.bottom.trans hbottom,
    hsecond.decom.trans hdecom⟩

lemma SameScreen.row {q : Parser σ} (h : SameScreen p q) (hq : Sane q) (nx : ℤ) (n : ℕ) :
    (gotoxay nx (decremented (wrap32 n)) q).parser.y = wantedRow p n ↔ ReachesRow p n := by
  have hrow := gotoxay_row hq nx n
  obtain ⟨-, hheight, htop, hbottom, hdecom⟩ := h
  rwa [wantedRow, ReachesRow, hheight, htop, hbottom, hdecom] at hrow

/-- For all lists of digits of the parameters; an empty one is a parameter left out. -/
theorem cursorAddressing_iff (host : Host σ) (p : Parser σ) (hp : Sane p) (hw : p.width < 2 ^ 31)
    (r c : List (Fin 10)) :
    (∀ final, final = 0x48 ∨ final = 0x66 →
      ((processBytes host (csi (digits r ++ 0x3b :: digits c) final) p).parser.x = wantedColumn p (value c) ∧
          (processBytes host (csi (digits r ++ 0x3b :: digits c) final) p).parser.y = wantedRow p (value r) ↔
        Reaches (value c) p.width ∧ ReachesRow p (value r))) ∧
      ((processBytes host (csi (digits r) 0x64) p).parser.x = p.x ∧
          (processBytes host (csi (digits r) 0x64) p).parser.y = wantedRow p (value r) ↔
        p.x < p.width ∧ ReachesRow p (value r)) := by
  constructor
  · intro final hfinal
    have hletter : Final final := by rcases hfinal with rfl | rfl <;> decide
    have hq : Sane (setState .normal (twoRead r c p)) :=
      ((secondOpened_sane hp r).frame (setPar_frame 1 _ _)).frame (setState_frame .normal _)
    have hsame := sameScreen_twoRead r c p
    have hsane := (hq.frame (decrementPar_frame 0 _)).frame (decrementPar_frame 1 _)
    have h0 : parAt (setState .normal (twoRead r c p)) 0 = wrap32 (value r) :=
      (parAt_twoRead hp r c 0).trans (by rw [if_neg (by decide), if_pos rfl])
    have h1 : parAt (setState .normal (twoRead r c p)) 1 = wrap32 (value c) :=
      (parAt_twoRead hp r c 1).trans (by rw [if_pos rfl])
    rw [(processBytes_two hp r c hletter).1, csiFinal_cup host hfinal hq, h0, h1]
    refine and_congr ?_ (hsame.row hsane _ (value r))
    rw [gotoxay_x, hsame.width]
    exact clampInto_decremented (value c) hp.width_pos hw
  · have hletter : Final 0x64 := by decide
    have hq : Sane (setState .normal (oneRead r p)) := (oneRead_sane hp r).frame (setState_frame .normal _)
    have hsame := sameScreen_oneRead r p
    have hsane := hq.frame (decrementPar_frame 0 _)
    have h0 : parAt (setState .normal (oneRead r p)) 0 = wrap32 (value r) :=
      (parAt_oneRead hp r 0).trans (by rw [if_pos rfl])
    rw [(processBytes_one hp r hletter).1, csiFinal_vpa host hq, h0]
    refine and_congr ?_ (hsame.row hsane _ (value r))
    have hx0 := hp.x_nonneg
    have hx := hp.x_le
    rw [gotoxay_x, hsame.width]
    change clampInto p.x 0 p.width = p.x ↔ _
    rw [clampInto]
    split_ifs <;> omega

/-- The region is lines 5 to 10, and origin mode is on. -/
def originTerminal : Parser Unit := run (step latinHost) (initial size80x24 none) (typed "[5;10r[?6h")

lemma originTerminal_sane : Sane originTerminal := by
  have hrun : Along (step latinHost) Contained (initial size80x24 none) (typed "[5;10r[?6h") := by
    decide
  exact run_invariant step_sane (initial_sane size80x24 none) hrun
theorem cursorAddressing_origin :
    Sane originTerminal ∧ originTerminal.width < 2 ^ 31 ∧
      ((∀ final, final = 0x48 ∨ final = 0x66 →
        ((processBytes latinHost (csi (digits [1] ++ 0x3b :: digits [9, 9]) final) originTerminal).parser.x =
              wantedColumn originTerminal (value [9, 9]) ∧
            (processBytes latinHost (csi (digits [1] ++ 0x3b :: digits [9, 9]) final) originTerminal).parser.y =
              wantedRow originTerminal (value [1]) ↔
          Reaches (value [9, 9]) originTerminal.width ∧ ReachesRow originTerminal (value [1]))) ∧
        ((processBytes latinHost (csi (digits [1]) 0x64) originTerminal).parser.x = originTerminal.x ∧
            (processBytes latinHost (csi (digits [1]) 0x64) originTerminal).parser.y =
              wantedRow originTerminal (value [1]) ↔
          originTerminal.x < originTerminal.width ∧ ReachesRow originTerminal (value [1]))) := by
  have hw : originTerminal.width < 2 ^ 31 := by decide
  exact ⟨originTerminal_sane, hw, cursorAddressing_iff latinHost originTerminal originTerminal_sane hw [1] [9, 9]⟩

/-- `CSI 3 ; 1 H` with origin mode on goes to line 5 and not to line 7. -/
theorem third_line_not_reached :
    ¬((processBytes latinHost (csi (digits [3] ++ 0x3b :: digits [1]) 0x48) originTerminal).parser.x =
        wantedColumn originTerminal (value [1]) ∧
      (processBytes latinHost (csi (digits [3] ++ 0x3b :: digits [1]) 0x48) originTerminal).parser.y =
        wantedRow originTerminal (value [3])) := by
  decide

end Xperimentum.Terminal.LinuxParser
