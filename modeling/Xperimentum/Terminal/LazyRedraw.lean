import Mathlib.Tactic
import Xperimentum.Terminal.Scrollback

/-! The window image beside the screen: scrolls move its rows, `drawRect:` redraws the cells that are marked
dirty, and a full-screen scroll is applied to it later. -/

namespace Xperimentum.Terminal.TerminalView

open Xperimentum.Lib.Memory Xperimentum.Lib.Partial Xperimentum.Terminal.LinuxParser

variable {σ : Type} {host : Host σ} {v w u : View} {n : ℕ}

/-- What is drawn in each row and column; the cursor is not part of it. -/
abbrev Image := ℤ → ℤ → ScreenChar

def isDirty (c : ScreenChar) : Prop := c.attr &&& 0x80 ≠ 0

instance (c : ScreenChar) : Decidable (isDirty c) := inferInstanceAs (Decidable (_ ≠ _))

/-- What a cell shows, its dirty flag aside. -/
def clean (c : ScreenChar) : ScreenChar := { c with attr := c.attr &&& 0x7f }

/-- The two uses of `DPScomposite`: `k` rows, and `k` cells of one row. -/
def compositeRows (s d k : ℤ) (image : Image) : Image := fun y x =>
  if d ≤ y ∧ y < d + k then image (s + (y - d)) x else image y x

def compositeCells (r s d k : ℤ) (image : Image) : Image := fun y x =>
  if y = r ∧ d ≤ x ∧ x < d + k then image r (s + (x - d)) else image y x

/-- What `_handlePendingScroll:` does to the window. -/
def applyPending (v : View) (image : Image) : Image :=
  if v.pendingScroll = 0 then image
  else if v.sy ≤ v.pendingScroll ∨ v.pendingScroll ≤ -v.sy then image
  else if 0 < v.pendingScroll then compositeRows 0 v.pendingScroll (v.sy - v.pendingScroll) image
  else compositeRows (-v.pendingScroll) 0 (v.sy + v.pendingScroll) image

def scrollImage (t b nr d s : ℤ) (v : View) (image : Image) : Image :=
  if v.sy < b ∨ b ≤ t ∨ nr < 1 then image
  else if v.currentScroll ≠ 0 ∨ t = 0 ∧ b = v.sy then image
  else compositeRows s d (b - t - nr) (applyPending v image)

/-- What a call of the parser does to the window, from the state before it. -/
def composite (v : View) (image : Image) : ScreenCall → Image
  | .scrollUp t b nr _ =>
    let nr := if b ≤ t + nr then b - t - 1 else nr
    scrollImage t b nr t (t + nr) v image
  | .scrollDown t b nr =>
    let nr := if b ≤ t + nr then b - t - 1 else nr
    scrollImage t b nr (t + nr) t v image
  | .shiftRow y x0 delta =>
    if y < 0 ∨ v.sy ≤ y ∨ x0 < 0 ∨ v.sx ≤ x0 then image
    else if v.currentScroll ≠ 0 then image
    else
      let x1 := x0 + delta
      let c := if x1 < 0 then v.sx - x0 + x1 else v.sx - x0
      let x0 := if x1 < 0 then x0 - x1 else x0
      let x1 := if x1 < 0 then 0 else x1
      let c := if v.sx < x1 + c then v.sx - x1 else c
      compositeCells y x0 x1 c (applyPending v image)
  | _ => image

structure Window (σ : Type) where
  session : Session σ
  image : Image

def receiveOn (s : View × Image) (c : ScreenCall) : Option (View × Image) := do
  let v ← receive s.1 c
  pure (v, composite s.1 s.2 c)

/-- The cells that `drawRect:` draws; all of them when `draw_all` is set. -/
def Redrawn (x0 x1 y0 y1 : ℤ) (v : View) (y x : ℤ) : Prop :=
  y * v.sx + x ∈ visibleCells x0 x1 y0 y1 v ∧ (v.drawAll ≠ 0 ∨ isDirty (cellOf v.screen v.sx y x))

instance (x0 x1 y0 y1 : ℤ) (v : View) (y x : ℤ) : Decidable (Redrawn x0 x1 y0 y1 v y x) :=
  inferInstanceAs (Decidable (_ ∧ _))

/-- A cell is drawn with what it holds once the background pass has been over it. -/
def drawImage (x0 x1 y0 y1 : ℤ) (v drawn : View) (image : Image) : Image := fun y x =>
  if Redrawn x0 x1 y0 y1 v y x then clean (cellOf drawn.screen drawn.sx y x) else applyPending v image y x

/-- The steps of a window: a call of `readData` is `startReading`, its bytes and `endReading`. -/
inductive Moment
  | startReading
  | byte (c : UInt8)
  | endReading
  | drawRect (x0 x1 y0 y1 : ℤ)

/-- A tab stop stored outside `tab_stop` is an access outside an array like any other. -/
def moment (host : Host σ) (w : Window σ) : Moment → Option (Window σ)
  | .startReading => do
    let v ← startReading w.session.view
    pure { w with session := { w.session with view := v } }
  | .byte c =>
    if StoresStrayTab c w.session.parser then none
    else do
      let o := processByte host c w.session.parser
      let s ← o.calls.foldlM receiveOn (w.session.view, w.image)
      pure ⟨⟨s.1, o.parser⟩, s.2⟩
  | .endReading => do
    let v ← showCursor w.session.view
    pure { w with session := { w.session with view := finishReading v } }
  | .drawRect x0 x1 y0 y1 => do
    let v ← drawRect x0 x1 y0 y1 w.session.view
    pure ⟨{ w.session with view := v }, drawImage x0 x1 y0 y1 w.session.view v w.image⟩

def openWindow (size : ScreenSize) (lines : ℕ) (scrollBottom : Bool) (cd : Option σ) (image : Image) :
    Option (Window σ) := do
  let t ← initWithFrame size lines scrollBottom cd
  pure ⟨t, image⟩

def runWindow (host : Host σ) (size : ScreenSize) (lines : ℕ) (scrollBottom : Bool) (cd : Option σ)
    (image : Image) (ms : List Moment) : Option (Window σ) := do
  let w ← openWindow size lines scrollBottom cd image
  tryRun (moment host) w ms

/-- A cell of the screen. -/
def OnScreen (v : View) (y x : ℤ) : Prop := 0 ≤ y ∧ y < v.sy ∧ 0 ≤ x ∧ x < v.sx

/-- Once the pending scroll is applied, every cell that is not marked dirty shows what it holds. -/
def UpToDate (v : View) (image : Image) : Prop :=
  ∀ y x, OnScreen v y x → ¬isDirty (cellOf v.screen v.sx y x) →
    applyPending v image y x = clean (cellOf v.screen v.sx y x)

/-- Every cell shows what it holds. -/
def Agrees (v : View) (image : Image) : Prop :=
  ∀ y x, OnScreen v y x → image y x = clean (cellOf v.screen v.sx y x)

/-- The cells that are not marked dirty, found in the image before the pending scroll is applied. -/
def Current (v : View) (image : Image) : Prop :=
  ∀ y x, OnScreen v y x → ¬isDirty (cellOf v.screen v.sx y x) →
    0 ≤ y - v.pendingScroll ∧ y - v.pendingScroll < v.sy ∧
      image (y - v.pendingScroll) x = clean (cellOf v.screen v.sx y x)

lemma applyPending_eq {y x : ℤ} (image : Image) (h0 : 0 ≤ y) (h : y < v.sy) (hp0 : 0 ≤ y - v.pendingScroll)
    (hp : y - v.pendingScroll < v.sy) : applyPending v image y x = image (y - v.pendingScroll) x := by
  simp only [applyPending]
  split_ifs with hz hout hpos
  · rw [hz, sub_zero]
  · omega
  · rw [compositeRows, if_pos (by omega), zero_add]
  · rw [compositeRows, if_pos (by omega)]
    congr 1
    omega

lemma Current.upToDate {image : Image} (h : Current v image) : UpToDate v image := by
  intro y x hin hd
  obtain ⟨h0, hlt, heq⟩ := h y x hin hd
  rw [applyPending_eq image hin.1 hin.2.1 h0 hlt, heq]

lemma isDirty_markDirty (c : ScreenChar) : isDirty (markDirty c) := by
  simp only [isDirty, markDirty, Nat.and_or_distrib_right]
  intro h
  have hz := (Nat.or_eq_zero_iff.mp h).2
  exact absurd hz (by decide)

/-- Cells have been marked dirty and nothing else has changed. -/
structure Dirties (v w : View) : Prop where
  sx : w.sx = v.sx
  sy : w.sy = v.sy
  currentScroll : w.currentScroll = v.currentScroll
  pendingScroll : w.pendingScroll = v.pendingScroll
  screen : w.screen.length = v.screen.length
  cells : ∀ y x, OnScreen v y x →
    cellOf w.screen w.sx y x = cellOf v.screen v.sx y x ∨ isDirty (cellOf w.screen w.sx y x)

lemma Dirties.of_screen (hx : w.sx = v.sx) (hy : w.sy = v.sy) (hs : w.currentScroll = v.currentScroll)
    (hp : w.pendingScroll = v.pendingScroll) (h : w.screen = v.screen) : Dirties v w :=
  ⟨hx, hy, hs, hp, congrArg _ h, fun y x _ => .inl (by rw [h, hx])⟩

lemma OnScreen.of_eq {y x : ℤ} (h : OnScreen w y x) (hx : w.sx = v.sx) (hy : w.sy = v.sy) : OnScreen v y x := by
  simp only [OnScreen, hx, hy] at h
  exact h

lemma Dirties.trans (h : Dirties v w) (h' : Dirties w u) : Dirties v u := by
  refine ⟨h'.sx.trans h.sx, h'.sy.trans h.sy, h'.currentScroll.trans h.currentScroll,
    h'.pendingScroll.trans h.pendingScroll, h'.screen.trans h.screen, fun y x hin => ?_⟩
  rcases h'.cells y x (hin.of_eq h.sx.symm h.sy.symm) with heq | hd
  · rcases h.cells y x hin with heq' | hd
    · exact .inl (heq.trans heq')
    · exact .inr (heq ▸ hd)
  · exact .inr hd

lemma Dirties.current {image : Image} (h : Dirties v w) (hv : Current v image) : Current w image := by
  intro y x hin hd
  have hin' := hin.of_eq h.sx h.sy
  have heq := (h.cells y x hin').resolve_right hd
  rw [heq] at hd ⊢
  rw [h.pendingScroll, h.sy]
  exact hv y x hin' hd

lemma screen_rows_le (hv : Sized v) : v.sy * v.sx ≤ v.screen.length := hv.screen_length.ge

lemma update_dirties (hv : Sized v) {f : ScreenChar → ScreenChar} (hf : ∀ c, isDirty (f c)) {start count : ℤ}
    {screen : List ScreenChar} (h : screen ∈ update f v.screen start count) :
    Dirties v { v with screen := screen } ∧ ∀ y x, OnScreen v y x → start ≤ y * v.sx + x →
      y * v.sx + x < start + count → isDirty (cellOf screen v.sx y x) := by
  have hcell : ∀ y x, OnScreen v y x → _ := fun y x hin =>
    cellOf_update h (screen_rows_le hv) hin.1 hin.2.1 hin.2.2.1 hin.2.2.2
  refine ⟨⟨rfl, rfl, rfl, rfl, update_allows _ _ _ _ _ h, fun y x hin => ?_⟩, fun y x hin hl hr => ?_⟩
  · rw [hcell y x hin]
    split_ifs
    · exact .inr (hf _)
    · exact .inl rfl
  · rw [hcell y x hin, if_pos ⟨hl, hr⟩]
    exact hf _

lemma addDirty_dirties (ax0 ay0 asx asy : ℤ) (v : View) : Dirties v (addDirty ax0 ay0 asx asy v) := by
  simp only [addDirty]
  split_ifs <;> exact Dirties.of_screen rfl rfl rfl rfl rfl

lemma markCurrent_dirties (hv : Sized v) : Allows (markCurrent v) (Dirties v) := by
  intro w hw
  obtain ⟨screen, hs, hw⟩ := Option.bind_eq_some_iff.mp hw
  obtain rfl := Option.some.inj hw
  exact (update_dirties hv isDirty_markDirty hs).1.trans (Dirties.of_screen rfl rfl rfl rfl rfl)

lemma markCurrentIf_dirties (hv : Sized v) (covered : Prop) [Decidable covered] :
    Allows (markCurrentIf covered v) (Dirties v) := by
  simp only [markCurrentIf]
  split_ifs
  · exact markCurrent_dirties hv
  · exact allows_pure (Dirties.of_screen rfl rfl rfl rfl rfl)

lemma ts_putCharAt_dirties (hv : Sized v) (ch : ScreenChar) (c x y : ℤ) :
    Allows (ts_putCharAt ch c x y v) (Dirties v) := by
  simp only [ts_putCharAt]
  split_ifs
  all_goals try exact allows_pure (Dirties.of_screen rfl rfl rfl rfl rfl)
  all_goals
    intro w hw
    obtain ⟨screen, hs, hw⟩ := Option.bind_eq_some_iff.mp hw
    obtain rfl := Option.some.inj hw
    exact (update_dirties hv (fun _ => isDirty_markDirty ch) hs).1.trans (addDirty_dirties _ _ _ _ _)

lemma ts_putCharOffset_dirties (hv : Sized v) (ch : ScreenChar) (c ofs : ℤ) :
    Allows (ts_putCharOffset ch c ofs v) fun w => Dirties v w ∧
      (0 ≤ ofs → ofs + c ≤ v.sx * v.sy → ∀ y x, OnScreen v y x → ofs ≤ y * v.sx + x → y * v.sx + x < ofs + c →
        isDirty (cellOf w.screen w.sx y x)) := by
  intro w hw
  obtain ⟨screen, hs, hw⟩ := Option.bind_eq_some_iff.mp hw
  obtain rfl := Option.some.inj hw
  obtain ⟨hd, hspan⟩ := update_dirties hv (fun _ => isDirty_markDirty ch) hs
  refine ⟨hd.trans (addDirty_dirties _ _ _ _ _), fun h0 hfit y x hin hl hr => ?_⟩
  have hadd := addDirty_dirties 0 0 v.sx v.sy { v with screen := screen }
  rw [if_neg (by omega), if_neg (by omega), if_neg (by omega)] at hspan
  rcases hadd.cells y x hin with heq | hdirty
  · rw [heq]
    exact hspan y x hin hl hr
  · exact hdirty

lemma Dirties.applyPending (h : Dirties v w) : applyPending w = applyPending v := by
  funext image
  simp only [TerminalView.applyPending, h.pendingScroll, h.sy]

lemma Current.moved {image after : Image} (hc : Current v image) (hx : w.sx = v.sx) (hy : w.sy = v.sy)
    (hp : w.pendingScroll = 0)
    (h : ∀ y x, OnScreen v y x → ∃ r k, OnScreen v r k ∧ cellOf w.screen w.sx y x = cellOf v.screen v.sx r k ∧
      after y x = applyPending v image r k) : Current w after := by
  intro y x hin hd
  obtain ⟨r, k, hrk, hcell, himage⟩ := h y x (hin.of_eq hx hy)
  rw [hcell] at hd ⊢
  rw [hp, sub_zero, himage]
  exact ⟨hin.1, hin.2.1, hc.upToDate r k hrk hd⟩

lemma handlePendingScroll_pending (v : View) : (handlePendingScroll v).pendingScroll = 0 := by
  simp only [handlePendingScroll]
  split_ifs with h
  · exact h
  · rfl
  · rfl

lemma compositeRow_pending (hs : v.currentScroll = 0) : (compositeRow v).pendingScroll = 0 := by
  rw [compositeRow, if_neg (not_not.mpr hs)]
  exact handlePendingScroll_pending v

lemma handlePendingScroll_screen (v : View) : (handlePendingScroll v).screen = v.screen := by
  simp only [handlePendingScroll]
  split_ifs <;> rfl

lemma compositeRow_screen (v : View) : (compositeRow v).screen = v.screen := by
  simp only [compositeRow]
  split_ifs
  · rfl
  · exact handlePendingScroll_screen v

lemma ts_shiftRow_current (hv : Sized v) (hs : v.currentScroll = 0) {y x0 delta : ℤ} (hx1 : 0 ≤ x0 + delta)
    {image : Image} (hc : Current v image) :
    Allows (ts_shiftRow y x0 delta v) fun w => Current w (composite v image (.shiftRow y x0 delta)) := by
  simp only [ts_shiftRow, composite]
  by_cases hout : y < 0 ∨ v.sy ≤ y ∨ x0 < 0 ∨ v.sx ≤ x0
  · rw [if_pos hout, if_pos hout]
    exact allows_pure hc
  · rw [if_neg hout, if_neg hout, if_neg (not_not.mpr hs)]
    simp only [if_neg (not_lt.mpr hx1)]
    push Not at hout
    obtain ⟨hy0, hy, hx0, hx⟩ := hout
    intro w hw
    obtain ⟨u, hu, hw⟩ := Option.bind_eq_some_iff.mp hw
    obtain ⟨screen, hm, hw⟩ := Option.bind_eq_some_iff.mp hw
    obtain rfl := Option.some.inj hw
    have hd := markCurrentIf_dirties hv _ u hu
    have hz := hv.retains (markCurrentIf_retains _ v u hu)
    have hw := compositeRow_retains { u with screen := screen }
    rw [← hd.sx] at hx
    rw [← hd.sy] at hy
    rw [← hd.applyPending, ← hd.sx]
    refine Dirties.current (addDirty_dirties _ _ _ _ _) ?_
    refine (hd.current hc).moved hw.sx hw.sy (compositeRow_pending (hd.currentScroll.trans hs)) fun r k hin => ?_
    have hcell := cellOf_moveInRow hm (screen_rows_le hz) hx1 (by split_ifs <;> omega) hin.1 hin.2.1 hin.2.2.1 hin.2.2.2
    rw [compositeRow_screen, hw.sx]
    simp only [hcell, compositeCells]
    obtain ⟨hr0, hr, hk0, hk⟩ := hin
    by_cases hmoved : r = y ∧ x0 + delta ≤ k ∧ k < x0 + delta + if u.sx < x0 + delta + (u.sx - x0) then u.sx - (x0 + delta) else u.sx - x0
    · rw [if_pos hmoved, if_pos hmoved]
      refine ⟨y, x0 + (k - (x0 + delta)), ⟨hy0, hy, by omega, ?_⟩, rfl, rfl⟩
      split_ifs at hmoved <;> omega
    · rw [if_neg hmoved, if_neg hmoved]
      exact ⟨r, k, ⟨hr0, hr, hk0, hk⟩, rfl, rfl⟩

/-- Rows have been moved; the pending scroll counts it for the whole screen, and is used up otherwise. -/
structure Moved (t b k d s delta : ℤ) (v w : View) : Prop where
  sx : w.sx = v.sx
  sy : w.sy = v.sy
  pendingScroll : w.pendingScroll = if t = 0 ∧ b = v.sy then v.pendingScroll + delta else 0
  source : 0 ≤ s ∧ s + k ≤ v.sy
  cells : ∀ y x, OnScreen v y x → cellOf w.screen w.sx y x =
    if d ≤ y ∧ y < d + k then cellOf v.screen v.sx (s + (y - d)) x else cellOf v.screen v.sx y x

lemma compositeScroll_pending (hs : v.currentScroll = 0) (t b delta : ℤ) :
    (compositeScroll t b delta v).pendingScroll = if t = 0 ∧ b = v.sy then v.pendingScroll + delta else 0 := by
  rw [compositeScroll, if_neg (not_not.mpr hs)]
  split_ifs
  · rfl
  · exact handlePendingScroll_pending v

lemma compositeScroll_screen (t b delta : ℤ) (v : View) : (compositeScroll t b delta v).screen = v.screen := by
  simp only [compositeScroll]
  split_ifs
  · rfl
  · rfl
  · exact handlePendingScroll_screen v

lemma scrollRegion_moved (hv : Sized v) (hs : v.currentScroll = 0) {t b nr d s delta : ℤ} (hk : t + nr < b) :
    Allows (scrollRegion t b nr d s delta v) fun w => ∃ u r, Dirties v u ∧ Moved t b (b - t - nr) d s delta u r ∧
      Dirties r w := by
  intro w hw
  obtain ⟨u, hu, hw⟩ := Option.bind_eq_some_iff.mp hw
  obtain ⟨screen, hm, hw⟩ := Option.bind_eq_some_iff.mp hw
  obtain rfl := Option.some.inj hw
  have hd := markCurrentIf_dirties hv _ u hu
  have hz := hv.retains (markCurrentIf_retains _ v u hu)
  have hkeep := compositeScroll_retains t b delta { u with screen := screen }
  refine ⟨u, compositeScroll t b delta { u with screen := screen }, hd, ?_, addDirty_dirties _ _ _ _ _⟩
  refine ⟨hkeep.sx, hkeep.sy, compositeScroll_pending (v := { u with screen := screen }) (hd.currentScroll.trans hs) t b delta,
    rows_of_move hm hz.sx_pos hz.screen_length (by omega), fun y x hin => ?_⟩
  rw [compositeScroll_screen, hkeep.sx]
  exact cellOf_moveRows hm (screen_rows_le hz) hin.1 hin.2.1 hin.2.2.1 hin.2.2.2

lemma Moved.current {t b k d s delta : ℤ} {image : Image} (h : Moved t b k d s delta v w) (hv : Current v image)
    (hpart : ¬(t = 0 ∧ b = v.sy)) : Current w (compositeRows s d k (applyPending v image)) := by
  have hsrc := h.source
  refine hv.moved h.sx h.sy (h.pendingScroll.trans (if_neg hpart)) fun y x hin => ?_
  obtain ⟨hy0, hy, hx⟩ := hin
  rw [h.cells y x ⟨hy0, hy, hx⟩, compositeRows]
  by_cases hmoved : d ≤ y ∧ y < d + k
  · rw [if_pos hmoved, if_pos hmoved]
    exact ⟨s + (y - d), x, ⟨by omega, by omega, hx⟩, rfl, rfl⟩
  · rw [if_neg hmoved, if_neg hmoved]
    exact ⟨y, x, ⟨hy0, hy, hx⟩, rfl, rfl⟩

lemma Moved.filled {t b k d s delta : ℤ} {image : Image} (h : Moved t b k d s delta v w) (hv : Current v image)
    (hfull : t = 0 ∧ b = v.sy) (hdelta : delta = d - s) (hw : Dirties w u)
    (hfill : ∀ y x, OnScreen w y x → ¬(d ≤ y ∧ y < d + k) → isDirty (cellOf u.screen u.sx y x)) : Current u image := by
  intro y x hin hd
  have hinw := hin.of_eq hw.sx hw.sy
  have hinv := hinw.of_eq h.sx h.sy
  have hmoved : d ≤ y ∧ y < d + k := by
    by_contra hnot
    exact hd (hfill y x hinw hnot)
  have hsrc := h.source
  have hcell := (hw.cells y x hinw).resolve_right hd
  rw [hcell, h.cells y x hinv, if_pos hmoved] at hd
  rw [hcell, h.cells y x hinv, if_pos hmoved, hw.pendingScroll, h.pendingScroll, if_pos hfull, hw.sy, h.sy]
  have hrow : y - (v.pendingScroll + delta) = s + (y - d) - v.pendingScroll := by omega
  rw [hrow]
  exact hv _ x ⟨by omega, by omega, hinv.2.2⟩ hd

lemma scroll_filled {v₀ : View} (hv : Sized v) (hs : v.currentScroll = 0) (hd : Dirties v₀ v) {image : Image}
    (hc : Current v image) {t b nr d s delta : ℤ} (hn : 1 ≤ nr) (hb : t + nr < b) (hdelta : delta = d - s)
    (ch : ScreenChar) {c ofs : ℤ} (hfit : t = 0 ∧ b = v.sy → 0 ≤ ofs ∧ ofs + c ≤ v.sx * v.sy)
    (hfill : t = 0 ∧ b = v.sy → ∀ y x, OnScreen v y x → ¬(d ≤ y ∧ y < d + (b - t - nr)) →
      ofs ≤ y * v.sx + x ∧ y * v.sx + x < ofs + c) {w u : View}
    (hw : w ∈ if v.sy < b ∨ b ≤ t ∨ nr < 1 then some v else scrollRegion t b nr d s delta v)
    (hu : u ∈ ts_putCharOffset ch c ofs w) : Current u (scrollImage t b nr d s v₀ image) := by
  simp only [scrollImage, ← hd.sy, ← hd.currentScroll, ← hd.applyPending]
  by_cases hskip : v.sy < b ∨ b ≤ t ∨ nr < 1
  · rw [if_pos hskip] at hw ⊢
    obtain rfl := Option.some.inj hw
    exact (ts_putCharOffset_dirties hv ch c ofs u hu).1.current hc
  · rw [if_neg hskip] at hw ⊢
    have hz := hv.retains (scrollRegion_retains _ _ _ _ _ _ v w hw)
    obtain ⟨hput, hspan⟩ := ts_putCharOffset_dirties hz ch c ofs u hu
    obtain ⟨v', r, hv', hr, hrw⟩ := scrollRegion_moved hv hs hb w hw
    by_cases hfull : t = 0 ∧ b = v.sy
    · rw [if_pos (.inr hfull)]
      have hfull' : t = 0 ∧ b = v'.sy := ⟨hfull.1, hfull.2.trans hv'.sy.symm⟩
      refine hr.filled (hv'.current hc) hfull' hdelta (hrw.trans hput) fun y x hin hnot => ?_
      have hsx : w.sx = v.sx := hrw.sx.trans (hr.sx.trans hv'.sx)
      have hsy : w.sy = v.sy := hrw.sy.trans (hr.sy.trans hv'.sy)
      have hinw : OnScreen w y x := hin.of_eq hrw.sx.symm hrw.sy.symm
      obtain ⟨hl, hlt⟩ := hfill hfull y x (hinw.of_eq hsx hsy) hnot
      refine hspan (hfit hfull).1 ?_ y x hinw ?_ ?_
      · rw [hsx, hsy]
        exact (hfit hfull).2
      · rwa [hsx]
      · rwa [hsx]
    · rw [if_neg (not_or.mpr ⟨not_not.mpr hs, hfull⟩)]
      have hpart : ¬(t = 0 ∧ b = v'.sy) := fun h => hfull ⟨h.1, h.2.trans hv'.sy⟩
      rw [← hv'.applyPending]
      exact (hrw.trans hput).current (hr.current (hv'.current hc) hpart)

lemma saveLinesIf_dirties (hv : Sized v) {nr : ℤ} (save : Prop) [Decidable save] :
    Allows (saveLinesIf save nr v) fun w => Dirties v w ∧ Sized w := by
  simp only [saveLinesIf]
  split_ifs
  · intro w hw
    obtain ⟨shifted, hs, hw⟩ := Option.bind_eq_some_iff.mp hw
    obtain ⟨sbuf, hb, hw⟩ := Option.bind_eq_some_iff.mp hw
    obtain rfl := Option.some.inj hw
    have hlen := (saveTop_allows _ v shifted sbuf hb).trans (shiftSaved_allows nr v shifted hs)
    exact ⟨Dirties.of_screen rfl rfl rfl rfl rfl, { hv with sbuf_length := hlen ▸ hv.sbuf_length }⟩
  · exact allows_pure ⟨Dirties.of_screen rfl rfl rfl rfl rfl, hv⟩

def ShiftsInside : ScreenCall → Prop
  | .shiftRow _ x0 delta => 0 ≤ x0 + delta
  | _ => True

lemma one_current (hv : Stored n v) {c : ScreenCall} (hn : ¬Scrolls c) (hs : ShiftsInside c) {image : Image}
    (hc : Current v image) : Allows (receive v c) fun w => Current w (composite v image c) := by
  have hsame : ∀ w : View, w.sx = v.sx → w.sy = v.sy → w.currentScroll = v.currentScroll →
      w.pendingScroll = v.pendingScroll → w.screen = v.screen → Allows (some w) fun w => Current w image :=
    fun w hx hy hs hp hscr => allows_pure ((Dirties.of_screen hx hy hs hp hscr).current hc)
  cases c with
  | goto x y => exact hsame _ rfl rfl rfl rfl rfl
  | putCharAt ch k x y => exact (ts_putCharAt_dirties hv.toSized ch k x y).imp fun w hw => hw.current hc
  | putCharOffset ch k ofs => exact (ts_putCharOffset_dirties hv.toSized ch k ofs).imp fun w hw => hw.1.current hc
  | scrollUp t b nr save => exact absurd trivial hn
  | scrollDown t b nr => exact absurd trivial hn
  | shiftRow y x0 delta => exact ts_shiftRow_current hv.toSized hv.unscrolled hs hc
  | sendCString str => exact hsame _ rfl rfl rfl rfl rfl
  | setTitle title titleType => exact hsame _ rfl rfl rfl rfl rfl

lemma receiveOn_two {a b : ScreenCall} {image : Image} {s : View × Image}
    (hs : s ∈ [a, b].foldlM receiveOn (v, image)) :
    ∃ w u, w ∈ receive v a ∧ u ∈ receive w b ∧ s = (u, composite w (composite v image a) b) := by
  simp only [List.foldlM_cons, List.foldlM_nil, receiveOn] at hs
  obtain ⟨r, hr, hs⟩ := Option.bind_eq_some_iff.mp hs
  obtain ⟨w, hw, hr⟩ := Option.bind_eq_some_iff.mp hr
  obtain rfl := Option.some.inj hr
  obtain ⟨r, hr, hs⟩ := Option.bind_eq_some_iff.mp hs
  obtain ⟨u, hu, hr⟩ := Option.bind_eq_some_iff.mp hr
  obtain rfl := Option.some.inj hr
  exact ⟨w, u, hw, hu, (Option.some.inj hs).symm⟩

lemma block_current (hv : Stored n v) {cs : List ScreenCall} (hb : Block v.sx ShiftsInside cs) {image : Image}
    (hc : Current v image) :
    Allows (cs.foldlM receiveOn (v, image)) fun s => Current s.1 s.2 := by
  have hx := hv.sx_pos
  have hz := hv.toSized
  cases hb with
  | one hn hs =>
    rw [List.foldlM_cons]
    refine Allows.bind ?_ fun s hs => allows_pure hs
    exact (one_current hv hn hs hc).bind fun w hw => allows_pure hw
  | @up t b nr save ch hn hlt _ _ =>
    intro s hs
    obtain ⟨w, u, hw, hu, rfl⟩ := receiveOn_two hs
    simp only [receive, ts_scrollUp, if_neg (not_le.mpr hlt)] at hw
    obtain ⟨v', hsave, hw⟩ := Option.bind_eq_some_iff.mp hw
    obtain ⟨hd, hz'⟩ := saveLinesIf_dirties hz _ v' hsave
    simp only [composite, if_neg (not_le.mpr hlt)]
    refine scroll_filled hz' (hd.currentScroll.trans hv.unscrolled) hd (hd.current hc) hn hlt (by omega) ch ?_ ?_ hw hu
    · rintro ⟨rfl, rfl⟩
      rw [hd.sx]
      refine ⟨mul_nonneg (by omega) (by omega), ?_⟩
      rw [← mul_add]
      exact mul_le_mul_of_nonneg_left (by omega) (by omega)
    · rintro ⟨rfl, rfl⟩ y x ⟨hy0, hy, hx0, hxs⟩ hnot
      have hl := row_le_iff hx0 hxs (v'.sy - nr) y
      have hr := row_lt_iff hx0 hxs v'.sy y
      have hend : v.sx * (v'.sy - nr) + v.sx * nr = v'.sy * v'.sx := by
        rw [hd.sx]
        ring
      rw [hend, ← hd.sx, mul_comm v'.sx]
      exact ⟨hl.mpr (by omega), hr.mpr hy⟩
  | @down t b nr ch hn hlt _ =>
    intro s hs
    obtain ⟨w, u, hw, hu, rfl⟩ := receiveOn_two hs
    simp only [receive, ts_scrollDown, if_neg (not_le.mpr hlt)] at hw
    simp only [composite, if_neg (not_le.mpr hlt)]
    refine scroll_filled hz hv.unscrolled (Dirties.of_screen rfl rfl rfl rfl rfl) hc hn hlt (by omega) ch ?_ ?_ hw hu
    · rintro ⟨rfl, rfl⟩
      refine ⟨by omega, ?_⟩
      rw [zero_mul, zero_add]
      exact mul_le_mul_of_nonneg_left (by omega) (by omega)
    · rintro ⟨rfl, rfl⟩ y x ⟨hy0, hy, hx0, hxs⟩ hnot
      have hr := row_lt_iff hx0 hxs nr y
      rw [zero_mul, zero_add, mul_comm v.sx]
      exact ⟨cell_nonneg hy0 hx0 hxs, hr.mpr (by omega)⟩

lemma receiveOn_fst (cs : List ScreenCall) (v : View) (image : Image) :
    (cs.foldlM receiveOn (v, image)).map Prod.fst = cs.foldlM receive v := by
  refine map_foldlM (fun s c => ?_) cs (v, image)
  simp only [receiveOn]
  cases receive s.1 c <;> rfl

lemma fst_mem {cs : List ScreenCall} {image : Image} {s : View × Image} (hs : s ∈ cs.foldlM receiveOn (v, image)) :
    s.1 ∈ cs.foldlM receive v := by
  rw [← receiveOn_fst cs v image, hs]
  rfl

lemma blocks_current (hv : Stored n v) {cs : List ScreenCall} (hb : Blocks v.sx ShiftsInside cs) {image : Image}
    (hc : Current v image) :
    Allows (cs.foldlM receiveOn (v, image)) fun s => Current s.1 s.2 := by
  generalize hx : v.sx = width at hb
  induction hb generalizing v image with
  | nil => exact allows_pure hc
  | append hb _ ih =>
    subst hx
    rw [List.foldlM_append]
    intro u hu
    obtain ⟨s, hs, hu⟩ := Option.bind_eq_some_iff.mp hu
    have hstored := receive_all_absorbs hv (fun _ _ _ hmem => hb.saves hmem) s.1 (fst_mem hs)
    have hsize := receive_all_size v _ s.1 (fst_mem hs)
    exact ih hstored.1 (block_current hv hb hc s hs) hsize.1 u hu

section DrawRect

variable {x0 x1 y0 y1 : ℤ}

/-- Only cells that are to be drawn have been written. -/
structure Paints (x0 x1 y0 y1 : ℤ) (v w : View) : Prop where
  retains : Retains v w
  drawAll : w.drawAll = v.drawAll
  pendingScroll : w.pendingScroll = v.pendingScroll
  cells : ∀ y x, OnScreen v y x →
    cellOf w.screen w.sx y x = cellOf v.screen v.sx y x ∨ Redrawn x0 x1 y0 y1 v y x

lemma not_redrawn {y x i : ℤ} (h : ¬Redrawn x0 x1 y0 y1 v y x) (hi : y * v.sx + x = i)
    (hmem : i ∈ visibleCells x0 x1 y0 y1 v) : v.drawAll = 0 ∧ (cellOf v.screen v.sx y x).attr &&& 0x80 = 0 := by
  simp only [Redrawn, hi, hmem, true_and, isDirty, not_or, not_not] at h
  exact h

lemma updateCells_paints (hv : Stored n v) (hw : Paints x0 x1 y0 y1 v w) {i : ℤ}
    (hi : i ∈ visibleCells x0 x1 y0 y1 v) {f : ScreenChar → ScreenChar}
    (hf : v.drawAll = 0 → ∀ y x, OnScreen v y x → y * v.sx + x = i →
      (cellOf v.screen v.sx y x).attr &&& 0x80 = 0 → cellOf w.screen w.sx y x = cellOf v.screen v.sx y x →
        f (cellOf v.screen v.sx y x) = cellOf v.screen v.sx y x) :
    Allows (updateCells f i (i + 1) w) (Paints x0 x1 y0 y1 v) := by
  have h0 := visibleCells_nonneg hv.sx_pos hv.unscrolled hi
  have hz := hv.toSized.retains hw.retains
  intro u hu
  have hkeep := updateCells_retains f (i + 1) h0 w u hu
  obtain ⟨_, -, hu⟩ := Option.bind_eq_some_iff.mp hu
  obtain ⟨screen, hs, hu⟩ := Option.bind_eq_some_iff.mp hu
  obtain rfl := Option.some.inj hu
  refine ⟨hw.retains.trans hkeep, hw.drawAll, hw.pendingScroll, fun y x hin => ?_⟩
  by_cases hr : Redrawn x0 x1 y0 y1 v y x
  · exact .inr hr
  · have hold := (hw.cells y x hin).resolve_right hr
    have hinw := hin.of_eq hw.retains.sx.symm hw.retains.sy.symm
    refine .inl ((cellOf_update hs (screen_rows_le hz) hinw.1 hinw.2.1 hinw.2.2.1 hinw.2.2.2).trans ?_)
    rw [hold]
    split_ifs with hspan
    · have hidx : y * v.sx + x = i := by
        rw [← hw.retains.sx]
        omega
      obtain ⟨hall, hclean⟩ := not_redrawn hr hidx hi
      exact hf hall y x hin hidx hclean hold
    · rfl

lemma drawBackground_paints (hv : Stored n v) {s : View × Pen} (hs : Paints x0 x1 y0 y1 v s.1) {i : ℤ}
    (hi : i ∈ visibleCells x0 x1 y0 y1 v) : Allows (drawBackground s i) fun r => Paints x0 x1 y0 y1 v r.1 := by
  have h0 := visibleCells_nonneg hv.sx_pos hv.unscrolled hi
  intro r hr
  obtain ⟨ch, hch, hr⟩ := Option.bind_eq_some_iff.mp hr
  obtain ⟨w, hw, hr⟩ := Option.bind_eq_some_iff.mp hr
  obtain rfl := Option.some.inj hr
  refine updateCells_paints hv hs hi (fun hall y x _ hidx hclean hold => ?_) w hw
  have hread : cellOf s.1.screen s.1.sx y x = ch := by
    simp only [cellAt, if_neg (not_lt.mpr h0), Xperimentum.Lib.Memory.read, if_pos h0] at hch
    rw [cellOf, hs.retains.sx, hidx, List.getD_eq_getElem?_getD, hch]
    rfl
  rw [← hread, hold, backgroundCell, if_pos ⟨hs.drawAll.trans hall, hclean⟩]

lemma drawCharacter_paints (hv : Stored n v) (hw : Paints x0 x1 y0 y1 v w) {i : ℤ}
    (hi : i ∈ visibleCells x0 x1 y0 y1 v) : Allows (drawCharacter w i) (Paints x0 x1 y0 y1 v) :=
  updateCells_paints hv hw hi fun hall _ _ _ _ hclean _ => if_pos ⟨hw.drawAll.trans hall, hclean⟩

lemma visibleCells_congr (x0 x1 y0 y1 : ℤ) (hx : w.sx = v.sx) (hy : w.sy = v.sy)
    (hs : w.currentScroll = v.currentScroll) : visibleCells x0 x1 y0 y1 w = visibleCells x0 x1 y0 y1 v := by
  simp only [visibleCells, hx, hy, hs]

lemma drawRect_cells (hv : Stored n v) : Allows (drawRect x0 x1 y0 y1 v) fun w =>
    w.sx = v.sx ∧ w.sy = v.sy ∧ w.pendingScroll = 0 ∧ ∀ y x, OnScreen v y x →
      cellOf w.screen w.sx y x = cellOf v.screen v.sx y x ∨ Redrawn x0 x1 y0 y1 v y x := by
  have hp := handlePendingScroll_retains v
  have hu := hv.retains hp
  have hall : (handlePendingScroll v).drawAll = v.drawAll := by
    simp only [handlePendingScroll]
    split_ifs <;> rfl
  have hcells := visibleCells_congr x0 x1 y0 y1 hp.sx hp.sy hp.currentScroll
  have hstart : Paints x0 x1 y0 y1 (handlePendingScroll v) (handlePendingScroll v) :=
    ⟨Retains.refl _, rfl, rfl, fun _ _ _ => .inl rfl⟩
  refine Allows.bind (P := fun _ => True) (fun _ _ => trivial) fun _ _ => ?_
  refine Allows.bind (allows_foldlM _ (fun s hs i hi => drawBackground_paints hu hs hi) hstart) fun s hs => ?_
  refine Allows.bind (allows_foldlM _ (fun w hw i hi => drawCharacter_paints hu hw hi) hs) fun w hw => allows_pure ?_
  refine ⟨hw.retains.sx.trans hp.sx, hw.retains.sy.trans hp.sy, hw.pendingScroll.trans (handlePendingScroll_pending v),
    fun y x hin => ?_⟩
  have h := hw.cells y x (hin.of_eq hp.sx.symm hp.sy.symm)
  simp only [Redrawn, hcells, hall, handlePendingScroll_screen, hp.sx] at h ⊢
  exact h

lemma drawRect_current (hv : Stored n v) {image : Image} (hc : Current v image) :
    Allows (drawRect x0 x1 y0 y1 v) fun w => Current w (drawImage x0 x1 y0 y1 v w image) := by
  intro w hw
  obtain ⟨hx, hy, hp, hcells⟩ := drawRect_cells hv w hw
  intro y x hin hd
  have hinv := hin.of_eq hx hy
  rw [hp, sub_zero, drawImage]
  refine ⟨hin.1, hin.2.1, ?_⟩
  split_ifs with hr
  · rfl
  · have hcell := (hcells y x hinv).resolve_right hr
    rw [hcell] at hd ⊢
    exact hc.upToDate y x hinv hd

lemma mem_visibleCells {y x : ℤ} (hin : OnScreen v y x) (hs : v.currentScroll = 0) :
    y * v.sx + x ∈ visibleCells 0 v.sx 0 v.sy v := by
  obtain ⟨hy0, hy, hx0, hx⟩ := hin
  simp only [visibleCells, List.mem_flatMap, List.mem_map, Int.mem_range_iff, lt_irrefl, if_false, le_refl, if_true]
  exact ⟨y, ⟨hy0, hy⟩, x, ⟨hx0, hx⟩, by rw [hs, add_zero]⟩

lemma drawRect_agrees (hv : Stored n v) {image : Image} (hc : Current v image) :
    Allows (drawRect 0 v.sx 0 v.sy v) fun w => Agrees w (drawImage 0 v.sx 0 v.sy v w image) := by
  intro w hw
  obtain ⟨hx, hy, -, hcells⟩ := drawRect_cells hv w hw
  intro y x hin
  have hinv := hin.of_eq hx hy
  rw [drawImage]
  split_ifs with hr
  · rfl
  · have hd : ¬isDirty (cellOf v.screen v.sx y x) := fun hd => hr ⟨mem_visibleCells hinv hv.unscrolled, .inr hd⟩
    rw [(hcells y x hinv).resolve_right hr]
    exact hc.upToDate y x hinv hd

end DrawRect

lemma asks_shiftsInside {cy : ℤ} {e i : Prop} {p : Parser σ} {c : ScreenCall} (hp : Placed p) (h : Asks cy p e i c) :
    ShiftsInside c := by
  cases c with
  | shiftRow y x0 delta => exact (h hp).1
  | _ => trivial

/-- What holds of a window at every moment. -/
structure Shown (n : ℕ) (w : Window σ) : Prop where
  stored : Stored n w.session.view
  placed : Placed w.session.parser
  width : w.session.parser.width = w.session.view.sx
  current : Current w.session.view w.image

lemma keepsTabs {c : UInt8} {p : Parser σ} (h : ¬StoresStrayTab c p) : KeepsTabs c p := by
  refine ⟨fun hv hc => ?_, fun hv hc => ?_, fun hv hq hc h0 => ?_⟩
  · by_contra hx
    exact h ⟨hx, .inl ⟨hv, hc⟩⟩
  · by_contra hx
    exact h ⟨hx, .inr (.inl ⟨hv, hc⟩)⟩
  · by_contra hx
    exact h ⟨hx, .inr (.inr ⟨hv, hq, hc, h0⟩)⟩

lemma showCursor_dirties (hv : Sized v) : Allows (showCursor v) (Dirties v) := by
  simp only [showCursor]
  split_ifs
  · have hd := addDirty_dirties v.currentX v.currentY 1 1 v
    have hz := hv.retains (addDirty_retains v.currentX v.currentY 1 1 v)
    exact (markCurrent_dirties hz).bind fun w hw => allows_pure ((hd.trans hw).trans (addDirty_dirties _ _ _ _ w))
  · exact allows_pure (Dirties.of_screen rfl rfl rfl rfl rfl)

lemma finishReading_dirties (hv : Stored n v) : Dirties v (finishReading v) := by
  have hz : ¬(setNeedsLazyDisplay v).currentScroll ≠ 0 := not_not.mpr hv.unscrolled
  simp only [finishReading, if_neg hz]
  split_ifs <;> exact Dirties.of_screen rfl rfl rfl rfl rfl

lemma startReading_dirties (hv : Stored n v) : Allows (startReading v) (Dirties v) := by
  have h := clearSelection_unselected (v := { v with numScrolls := 0, dirty := { v.dirty with x0 := -1 }, currentX := v.cursorX, currentY := v.cursorY })
    hv.sx_pos hv.sy_pos hv.sb_nonneg hv.unselected
  rw [startReading, h]
  exact allows_pure (Dirties.of_screen rfl rfl rfl rfl rfl)

lemma moment_shown (host : Host σ) {w : Window σ} (hw : Shown n w) (m : Moment) : Allows (moment host w m) (Shown n) := by
  obtain ⟨hv, hp, hx, hc⟩ := hw
  cases m with
  | startReading =>
    intro u hu
    obtain ⟨v, hs, hu⟩ := Option.bind_eq_some_iff.mp hu
    obtain rfl := Option.some.inj hu
    have hkeep := startReading_retains hv v hs
    exact ⟨hv.retains hkeep, hp, hx.trans hkeep.sx.symm, (startReading_dirties hv v hs).current hc⟩
  | byte c =>
    simp only [moment]
    split_ifs with hstray
    · exact fun _ hu => by cases hu
    · have hb : ByteBlocks 0 _ _ _ _ (processByte host c w.session.parser) := processByte_byteBlocks host c _ id
      have hk := keepsTabs hstray
      intro u hu
      obtain ⟨s, hs, hu⟩ := Option.bind_eq_some_iff.mp hu
      obtain rfl := Option.some.inj hu
      have hmem := fst_mem hs
      have hstored := receive_all_absorbs hv (fun _ _ _ hin => hb.calls.saves hin) s.1 hmem
      have hsize := receive_all_size _ _ s.1 hmem
      have hcalls : Blocks w.session.view.sx ShiftsInside (processByte host c w.session.parser).calls :=
        hx ▸ hb.calls.mono fun call hc => asks_shiftsInside hp hc
      refine ⟨hstored.1, hp.of_mem (hb.width hk) (hb.placed hk hp), (hb.width hk).trans (hx.trans hsize.1.symm), ?_⟩
      exact blocks_current hv hcalls hc s hs
  | endReading =>
    intro u hu
    obtain ⟨v, hs, hu⟩ := Option.bind_eq_some_iff.mp hu
    obtain rfl := Option.some.inj hu
    have hkeep := showCursor_retains w.session.view v hs
    have hv' := hv.retains hkeep
    have hend := finishReading_retains hv'
    have hd := (showCursor_dirties hv.toSized v hs).trans (finishReading_dirties hv')
    exact ⟨hv'.retains hend, hp, hx.trans (hkeep.trans hend).sx.symm, hd.current hc⟩
  | drawRect x0 x1 y0 y1 =>
    intro u hu
    obtain ⟨v, hs, hu⟩ := Option.bind_eq_some_iff.mp hu
    obtain rfl := Option.some.inj hu
    have hkeep := drawRect_retains hv x0 x1 y0 y1 v hs
    exact ⟨hv.retains hkeep, hp, hx.trans hkeep.sx.symm, drawRect_current hv hc v hs⟩

lemma initWithTerminalScreen_calls (width height : ℤ) (cd : Option σ) :
    ∃ x y ch, (initWithTerminalScreen width height cd).calls =
      [.goto x y, .putCharOffset ch (width * height) (0 + 0 * width)] := ⟨_, _, _, rfl⟩

lemma initWithFrame_shown (size : ScreenSize) (lines : ℕ) (scrollBottom : Bool) (cd : Option σ) (image : Image) :
    Allows (initWithFrame size lines scrollBottom cd) fun t => Shown lines ⟨t, image⟩ := by
  intro t ht
  have hstored := (initWithFrame_stored size lines scrollBottom cd t ht).1
  have hk := initWithTerminalScreen_keeps size cd
  obtain ⟨x, y, ch, hcalls⟩ := initWithTerminalScreen_calls size.width size.height cd
  obtain ⟨u, hu, ht⟩ := Option.bind_eq_some_iff.mp ht
  obtain rfl := Option.some.inj ht
  have hsize := receive_all_size _ _ u hu
  have hw := size.width_pos
  have hh := size.height_pos
  refine ⟨hstored, ⟨hk.sane.width_pos, hk.sane.x_nonneg, hk.sane.x_le⟩, hk.width.trans hsize.1.symm, fun r k hin hd => ?_⟩
  rw [hcalls, List.foldlM_cons] at hu
  obtain ⟨v, hv, hu⟩ := Option.bind_eq_some_iff.mp hu
  rw [List.foldlM_cons] at hu
  obtain ⟨w, hput, hu⟩ := Option.bind_eq_some_iff.mp hu
  obtain rfl := Option.some.inj hu
  obtain rfl := Option.some.inj hv
  have hs : ((blankMemory (size.width * size.height)).length : ℤ) = size.height * size.width := by
    rw [length_blankMemory (mul_nonneg (by omega) (by omega)), mul_comm]
  have hb : (lines : ℤ) * size.width ≤ ((blankMemory (size.width * lines)).length : ℤ) := by
    rw [length_blankMemory (mul_nonneg (by omega) (by omega)), mul_comm]
  have hcol : k < size.width := by
    have hlt := hin.2.2.2
    rwa [hsize.1] at hlt
  have hrow : r < size.height := by
    have hlt := hin.2.1
    rwa [hsize.2] at hlt
  refine absurd ((ts_putCharOffset_dirties ?_ ch _ _ w hput).2 (by omega) ?_ r k (hin.of_eq hsize.1 hsize.2) ?_ ?_) hd
  · exact ⟨hw, hh, Int.natCast_nonneg lines, hs, hb⟩
  · simp [ts_goto]
  · rw [zero_mul, add_zero]
    exact cell_nonneg hin.1 hin.2.2.1 hcol
  · rw [zero_mul, add_zero, zero_add, mul_comm size.width]
    exact (row_lt_iff hin.2.2.1 hcol size.height r).mpr hrow

/-- The condition on a byte is the one under which the parser and the view stay in their arrays. -/
def MomentContained (host : Host σ) (w : Window σ) : Moment → Prop
  | .byte c => ByteContained host w.session.parser c
  | _ => True

instance (host : Host σ) (w : Window σ) : ∀ m, Decidable (MomentContained host w m)
  | .byte _ => inferInstanceAs (Decidable (_ ∧ _))
  | .startReading | .endReading | .drawRect _ _ _ _ => inferInstanceAs (Decidable True)

lemma moment_byte {w : Window σ} {c : UInt8} (h : ¬StoresStrayTab c w.session.parser) :
    (moment host w (.byte c)).map Window.session = receiveByte host w.session c := by
  simp only [moment, if_neg h, receiveByte, ← receiveOn_fst _ w.session.view w.image]
  cases (processByte host c w.session.parser).calls.foldlM receiveOn (w.session.view, w.image) <;> rfl

lemma finishReading_drawing (hv : Drawing v) : Drawing (finishReading v) := by
  obtain ⟨hx, hy⟩ := finishReading_size v
  have hx' : (finishReading v).currentX = v.currentX := by
    simp only [finishReading]
    split_ifs <;> rfl
  have hy' : (finishReading v).currentY = v.currentY := by
    simp only [finishReading]
    split_ifs <;> rfl
  refine ⟨finishReading_sound hv.toSound, ?_, ?_, ?_, ?_⟩
  all_goals simp only [hx, hy, hx', hy']
  exacts [hv.currentX_nonneg, hv.currentX_lt, hv.currentY_nonneg, hv.currentY_lt]

lemma moment_reading {w : Window σ} (hw : Reading w.session) {m : Moment} (hm : MomentContained host w m) :
    Ensures (moment host w m) fun u => Reading u.session := by
  have hkeep : ∀ v, Draws w.session.view v → Reading { w.session with view := v } := fun v hv =>
    ⟨⟨hv.drawing.toSound, hw.parser, hw.width.trans hv.sx.symm, hw.height.trans hv.sy.symm⟩, hv.drawing⟩
  cases m with
  | startReading => exact (startReading_draws hw.view).bind fun v hv => ensures_pure (hkeep v hv)
  | byte c =>
    refine ensures_of_map (f := Window.session) ?_
    rw [moment_byte hm.2.1]
    exact (receiveByte_reading hw hm).imp fun t ht => ht.1
  | endReading =>
    refine (showCursor_same hw.drawing).bind fun v hv => ensures_pure (hkeep _ ?_)
    obtain ⟨hx, hy⟩ := finishReading_size v
    exact ⟨finishReading_drawing (hw.drawing.same hv), hx.trans hv.sx, hy.trans hv.sy⟩
  | drawRect x0 x1 y0 y1 =>
    exact (drawRect_same hw.view x0 x1 y0 y1).bind fun v hv => ensures_pure (hkeep v (hw.drawing.draws hv))

lemma readData_of_moments {w u : Window σ} {bytes : List UInt8}
    (hu : u ∈ tryRun (moment host) w (.startReading :: (bytes.map .byte ++ [.endReading]))) :
    readData host bytes w.session = some u.session := by
  have hbytes : ∀ (bytes : List UInt8) (s t : Window σ), t ∈ (bytes.map Moment.byte).foldlM (moment host) s →
      bytes.foldlM (receiveByte host) s.session = some t.session := by
    intro bytes
    induction bytes with
    | nil =>
      intro s t ht
      rw [Option.some.inj ht]
      rfl
    | cons c cs ih =>
      intro s t ht
      rw [List.map_cons, List.foldlM_cons] at ht
      obtain ⟨r, hr, ht⟩ := Option.bind_eq_some_iff.mp ht
      have hstray : ¬StoresStrayTab c s.session.parser := by
        intro h
        rw [moment, if_pos h] at hr
        cases hr
      rw [List.foldlM_cons, ← moment_byte hstray, hr]
      exact ih r t ht
  rw [tryRun, List.foldlM_cons] at hu
  obtain ⟨s, hs, hu⟩ := Option.bind_eq_some_iff.mp hu
  rw [List.foldlM_append] at hu
  obtain ⟨t, ht, hu⟩ := Option.bind_eq_some_iff.mp hu
  rw [List.foldlM_cons] at hu
  obtain ⟨r, hr, hu⟩ := Option.bind_eq_some_iff.mp hu
  obtain rfl := Option.some.inj hu
  obtain ⟨v, hv, hs⟩ := Option.bind_eq_some_iff.mp hs
  obtain rfl := Option.some.inj hs
  obtain ⟨v', hv', hr⟩ := Option.bind_eq_some_iff.mp hr
  obtain rfl := Option.some.inj hr
  have hread := hbytes bytes _ t ht
  simp only at hread
  simp only [readData, hv, Option.bind_eq_bind, Option.bind_some, hread, hv']
  rfl

theorem runWindow_upToDate (host : Host σ) (size : ScreenSize) (lines : ℕ) (scrollBottom : Bool) (cd : Option σ)
    (image : Image) (ms : List Moment) :
    (Allows (runWindow host size lines scrollBottom cd image ms) fun w => UpToDate w.session.view w.image ∧
      Allows (moment host w (.drawRect 0 w.session.view.sx 0 w.session.view.sy)) fun u =>
        Agrees u.session.view u.image) ∧
      ((∀ w ∈ openWindow size lines scrollBottom cd image, Admits (moment host) (MomentContained host) w ms) →
        (runWindow host size lines scrollBottom cd image ms).isSome) := by
  refine ⟨fun w hw => ?_, fun hms => ?_⟩
  · obtain ⟨s, hs, hrun⟩ := Option.bind_eq_some_iff.mp hw
    obtain ⟨t, ht, hs⟩ := Option.bind_eq_some_iff.mp hs
    obtain rfl := Option.some.inj hs
    have hshown := initWithFrame_shown size lines scrollBottom cd image t ht
    have hall := allows_foldlM ms (fun _ hv m _ => moment_shown host hv m) hshown w hrun
    refine ⟨hall.current.upToDate, fun u hu => ?_⟩
    obtain ⟨v, hv, hu⟩ := Option.bind_eq_some_iff.mp hu
    obtain rfl := Option.some.inj hu
    exact drawRect_agrees hall.stored hall.current v hv
  · obtain ⟨t, ht, hread⟩ := initWithFrame_reading size lines scrollBottom cd
    have hopen : openWindow size lines scrollBottom cd image = some ⟨t, image⟩ := by
      rw [openWindow, ht]
      rfl
    obtain ⟨u, hu, -⟩ := tryRun_ensures (P := fun w : Window σ => Reading w.session)
      (fun w m hw hm => moment_reading hw hm) (s := ⟨t, image⟩) hread (hms _ hopen)
    rw [runWindow, hopen]
    exact Option.isSome_of_mem hu

def readings (text : String) : List Moment :=
  .startReading :: (text.toList.map fun c => .byte c.toNat.toUInt8) ++ [.endReading]

theorem runWindow_upToDate_scrolled :
    Ensures (runWindow latinHost size4x3 2 true none (fun _ _ => zeroCell)
      (readings "a\r\nbc\r\nd\n" ++ [.drawRect 0 4 0 1] ++ readings "\x1bM\x1bMx\x1b[2;3r\n\n\n\x1b[2P")) fun w =>
      UpToDate w.session.view w.image := by
  have h := runWindow_upToDate latinHost size4x3 2 true none (fun _ _ => zeroCell)
    (readings "a\r\nbc\r\nd\n" ++ [.drawRect 0 4 0 1] ++ readings "\x1bM\x1bMx\x1b[2;3r\n\n\n\x1b[2P")
  obtain ⟨w, hw⟩ := Option.isSome_iff_exists.mp (h.2 (by decide))
  exact ⟨w, hw, (h.1 w hw).1⟩

end Xperimentum.Terminal.TerminalView
