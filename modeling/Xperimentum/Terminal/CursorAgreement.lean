import Mathlib.Tactic
import Xperimentum.Terminal.CursorTracking
import Xperimentum.Terminal.Resizing

/-! The cursor of the view follows the one of the parser from byte to byte; a resize places the two apart. -/

namespace Xperimentum.Terminal.TerminalView

open Lib.Int32 Lib.Memory Lib.Partial Lib.Runs LinuxParser

variable {σ : Type} {host : Host σ} {t u : Session σ} {v w : View} {cursor : ℤ × ℤ}

/-- The two cursors are in one place; the parser may be waiting behind the last column. -/
def CursorAgrees (t : Session σ) : Prop :=
  t.view.cursorX = min t.parser.x (t.parser.width - 1) ∧ t.view.cursorY = t.parser.y

instance (t : Session σ) : Decidable (CursorAgrees t) := inferInstanceAs (Decidable (_ ∧ _))

/-- The size of the screen and the cursor are the same in both states. -/
structure Still (v w : View) : Prop where
  sx : w.sx = v.sx
  sy : w.sy = v.sy
  cursorX : w.cursorX = v.cursorX
  cursorY : w.cursorY = v.cursorY

lemma Still.refl (v : View) : Still v v := ⟨rfl, rfl, rfl, rfl⟩

lemma Still.trans {u : View} (h : Still v w) (h' : Still w u) : Still v u :=
  ⟨h'.sx.trans h.sx, h'.sy.trans h.sy, h'.cursorX.trans h.cursorX, h'.cursorY.trans h.cursorY⟩

lemma SameText.still (h : SameText v w) : Still v w := ⟨h.sx, h.sy, h.cursorX, h.cursorY⟩

lemma allows_true {S : Type} (o : Option S) : Allows o fun _ => True := fun _ _ => trivial

section Calls

lemma addDirty_still (ax0 ay0 asx asy : ℤ) (v : View) : Still v (addDirty ax0 ay0 asx asy v) := by
  rw [addDirty]
  split_ifs <;> exact ⟨rfl, rfl, rfl, rfl⟩

lemma handlePendingScroll_still (v : View) : Still v (handlePendingScroll v) := by
  rw [handlePendingScroll]
  split_ifs <;> exact ⟨rfl, rfl, rfl, rfl⟩

lemma compositeScroll_still (t b delta : ℤ) (v : View) : Still v (compositeScroll t b delta v) := by
  simp only [compositeScroll]
  split_ifs
  · exact .refl v
  · exact ⟨rfl, rfl, rfl, rfl⟩
  · exact (handlePendingScroll_still v).trans ⟨rfl, rfl, rfl, rfl⟩

lemma compositeRow_still (v : View) : Still v (compositeRow v) := by
  simp only [compositeRow]
  split_ifs
  · exact .refl v
  · exact (handlePendingScroll_still v).trans ⟨rfl, rfl, rfl, rfl⟩

lemma markCurrent_still (v : View) : Allows (markCurrent v) (Still v) :=
  Allows.bind (allows_true _) fun _ _ => allows_pure ⟨rfl, rfl, rfl, rfl⟩

lemma markCurrentIf_still (covered : Prop) [Decidable covered] (v : View) :
    Allows (markCurrentIf covered v) (Still v) := by
  rw [markCurrentIf]
  split_ifs
  · exact markCurrent_still v
  · exact allows_pure (.refl v)

lemma saveLinesIf_still (save : Prop) [Decidable save] (nr : ℤ) (v : View) :
    Allows (saveLinesIf save nr v) (Still v) := by
  rw [saveLinesIf]
  split_ifs
  · refine Allows.bind (allows_true _) fun _ _ => Allows.bind (allows_true _) fun _ _ => ?_
    exact allows_pure ⟨rfl, rfl, rfl, rfl⟩
  · exact allows_pure (.refl v)

lemma scrollRegion_still (t b nr d s delta : ℤ) (v : View) : Allows (scrollRegion t b nr d s delta v) (Still v) := by
  refine Allows.bind (markCurrentIf_still _ v) fun w hw => Allows.bind (allows_true _) fun screen _ => ?_
  have hscreen : Still w { w with screen := screen } := ⟨rfl, rfl, rfl, rfl⟩
  exact allows_pure (((hw.trans hscreen).trans (compositeScroll_still _ _ _ _)).trans (addDirty_still _ _ _ _ _))

lemma ts_scrollUp_still (t b nr : ℤ) (save : Bool) (v : View) : Allows (ts_scrollUp t b nr save v) (Still v) := by
  refine Allows.bind (saveLinesIf_still _ nr v) fun w hw => ?_
  simp only
  split_ifs
  all_goals first
    | exact allows_pure hw
    | exact (scrollRegion_still _ _ _ _ _ _ w).imp fun _ hu => hw.trans hu

lemma ts_scrollDown_still (t b nr : ℤ) (v : View) : Allows (ts_scrollDown t b nr v) (Still v) := by
  simp only [ts_scrollDown]
  split_ifs
  all_goals first
    | exact allows_pure (.refl v)
    | exact scrollRegion_still _ _ _ _ _ _ v

lemma ts_shiftRow_still (y x0 delta : ℤ) (v : View) : Allows (ts_shiftRow y x0 delta v) (Still v) := by
  rw [ts_shiftRow]
  split_ifs
  · exact allows_pure (.refl v)
  · refine Allows.bind (markCurrentIf_still _ v) fun w hw => Allows.bind (allows_true _) fun screen _ => ?_
    have hscreen : Still w { w with screen := screen } := ⟨rfl, rfl, rfl, rfl⟩
    exact allows_pure (((hw.trans hscreen).trans (compositeRow_still _)).trans (addDirty_still _ _ _ _ _))

lemma ts_putCharAt_still (ch : ScreenChar) (c x y : ℤ) (v : View) : Allows (ts_putCharAt ch c x y v) (Still v) := by
  rw [ts_putCharAt]
  by_cases houtside : y < 0 ∨ v.sy ≤ y
  · rw [if_pos houtside]
    exact allows_pure (.refl v)
  · rw [if_neg houtside]
    refine Allows.bind (allows_true _) fun screen _ => allows_pure ?_
    have hscreen : Still v { v with screen := screen } := ⟨rfl, rfl, rfl, rfl⟩
    exact hscreen.trans (addDirty_still _ _ _ _ _)

lemma ts_putCharOffset_still (ch : ScreenChar) (c ofs : ℤ) (v : View) :
    Allows (ts_putCharOffset ch c ofs v) (Still v) := by
  refine Allows.bind (allows_true _) fun screen _ => allows_pure ?_
  have hscreen : Still v { v with screen := screen } := ⟨rfl, rfl, rfl, rfl⟩
  exact hscreen.trans (addDirty_still _ _ _ _ _)

/-- The cursor has been told to the view, which keeps it on its screen. -/
def Told (sx sy : ℤ) (cursor : ℤ × ℤ) (v : View) : Prop :=
  v.sx = sx ∧ v.sy = sy ∧ v.cursorX = intoScreen cursor.1 sx ∧ v.cursorY = intoScreen cursor.2 sy

lemma Told.still {sx sy : ℤ} (h : Told sx sy cursor v) (hs : Still v w) : Told sx sy cursor w :=
  ⟨hs.sx.trans h.1, hs.sy.trans h.2.1, hs.cursorX.trans h.2.2.1, hs.cursorY.trans h.2.2.2⟩

lemma receive_told {sx sy : ℤ} (h : Told sx sy cursor v) (call : ScreenCall) :
    Allows (receive v call) (Told sx sy (moved cursor call)) := by
  cases call with
  | goto x y =>
    obtain ⟨hx, hy, -⟩ := h
    subst hx hy
    exact allows_pure ⟨rfl, rfl, rfl, rfl⟩
  | putCharAt ch count x y => exact (ts_putCharAt_still _ _ _ _ v).imp fun _ => h.still
  | putCharOffset ch count ofs => exact (ts_putCharOffset_still _ _ _ v).imp fun _ => h.still
  | scrollUp top bottom rows save => exact (ts_scrollUp_still _ _ _ _ v).imp fun _ => h.still
  | scrollDown top bottom rows => exact (ts_scrollDown_still _ _ _ v).imp fun _ => h.still
  | shiftRow y at_ delta => exact (ts_shiftRow_still _ _ _ v).imp fun _ => h.still
  | sendCString _ => exact allows_pure h
  | setTitle title titleType => exact allows_pure (h.still ⟨rfl, rfl, rfl, rfl⟩)

lemma receiveAll_told {sx sy : ℤ} (h : Told sx sy cursor v) (calls : List ScreenCall) :
    Allows (calls.foldlM receive v) (Told sx sy (calls.foldl moved cursor)) := by
  induction calls generalizing v cursor with
  | nil => exact allows_pure h
  | cons call calls ih =>
    rw [List.foldlM_cons]
    exact Allows.bind (receive_told h call) fun w hw => ih hw

end Calls

section Synced

/-- What the parser has last told the view is where its own cursor is. -/
structure Synced (t : Session σ) : Prop where
  parser : LinuxParser.Sane t.parser
  told : Told t.parser.width t.parser.height (t.parser.x, t.parser.y) t.view

lemma intoScreen_column {x width : ℤ} (h0 : 0 ≤ x) (h1 : 1 ≤ width) : intoScreen x width = min x (width - 1) := by
  simp only [intoScreen]
  split_ifs <;> omega

lemma intoScreen_row {y height : ℤ} (h0 : 0 ≤ y) (hlt : y < height) : intoScreen y height = y := by
  simp only [intoScreen]
  split_ifs <;> omega

lemma synced_iff (hp : LinuxParser.Sane t.parser) (hx : t.view.sx = t.parser.width) (hy : t.view.sy = t.parser.height) :
    Synced t ↔ CursorAgrees t := by
  have hcolumn := intoScreen_column hp.x_nonneg hp.width_pos
  have hrow := intoScreen_row hp.y_nonneg hp.y_lt
  constructor
  · intro h
    obtain ⟨-, -, hcx, hcy⟩ := h.told
    exact ⟨hcx.trans hcolumn, hcy.trans hrow⟩
  · rintro ⟨hcx, hcy⟩
    exact ⟨hp, hx, hy, hcx.trans hcolumn.symm, hcy.trans hrow.symm⟩

lemma Synced.agrees (h : Synced t) : CursorAgrees t := (synced_iff h.parser h.told.1 h.told.2.1).mp h

lemma Synced.still (h : Synced t) (hs : Still t.view v) : Synced { t with view := v } := ⟨h.parser, h.told.still hs⟩

lemma Synced.onView (h : Synced t) {o : Option View} (ho : Allows o (Still t.view)) :
    Allows (TerminalView.onView o t) Synced :=
  Allows.bind ho fun _ hw => allows_pure (h.still hw)

lemma receiveByte_synced (h : Synced t) {c : UInt8} (hc : Contained t.parser (.byte c)) :
    Allows (receiveByte host t c) fun u => Synced u ∧ u.parser = afterByte host t.parser c := by
  obtain ⟨hregion, htab⟩ := hc
  have hkeeps : Keeps t.parser (processByte host c t.parser) := processByte_keeps h.parser hregion htab
  have htracks : Tracks _ t.parser (processByte host c t.parser) := processByte_tracks htab
  refine Allows.bind (receiveAll_told h.told _) fun v hv => allows_pure ⟨⟨hkeeps.sane, ?_⟩, rfl⟩
  rw [htracks.published] at hv
  rw [hkeeps.width, hkeeps.height]
  exact hv

/-- Output of which no byte leads to a region above the screen or a tab stop in no word. -/
def BytesFit (host : Host σ) (bytes : List UInt8) (t : Session σ) : Prop :=
  Along (afterByte host) (fun p c => Contained p (.byte c)) t.parser bytes

instance (host : Host σ) (bytes : List UInt8) (t : Session σ) : Decidable (BytesFit host bytes t) :=
  decidableAlong _ _

lemma receiveBytes_synced (h : Synced t) {bytes : List UInt8} (hb : BytesFit host bytes t) :
    Allows (bytes.foldlM (receiveByte host) t) Synced := by
  induction bytes generalizing t with
  | nil => exact allows_pure h
  | cons c bytes ih =>
    rw [List.foldlM_cons]
    refine Allows.bind (receiveByte_synced h hb.1) fun u ⟨hu, hparser⟩ => ih hu ?_
    rw [BytesFit, hparser]
    exact hb.2

end Synced

section Reading

/-- What `readData` has done after some bytes, while it goes on reading. -/
def reading (host : Host σ) (bytes : List UInt8) (t : Session σ) : Option (Session σ) := do
  let v ← startReading t.view
  bytes.foldlM (receiveByte host) { t with view := v }

lemma setSelection_still (s : SelectionRange) (v : View) : Allows (setSelection s v) (Still v) :=
  (setSelection_sameText s v).imp fun _ => SameText.still

lemma startReading_still (v : View) : Allows (startReading v) (Still v) :=
  (setSelection_still ⟨0, 0⟩ _).imp fun _ hw => ⟨hw.sx, hw.sy, hw.cursorX, hw.cursorY⟩

lemma showCursor_still (v : View) : Allows (showCursor v) (Still v) := by
  rw [showCursor]
  split_ifs
  · refine Allows.bind (markCurrent_still _) fun w hw => allows_pure ?_
    exact ((addDirty_still _ _ _ _ v).trans hw).trans (addDirty_still _ _ _ _ w)
  · exact allows_pure (.refl v)

lemma finishReading_still (v : View) : Still v (finishReading v) := by
  simp only [finishReading]
  split_ifs <;> exact ⟨rfl, rfl, rfl, rfl⟩

lemma reading_synced (h : Synced t) {bytes : List UInt8} (hb : BytesFit host bytes t) :
    Allows (reading host bytes t) Synced :=
  Allows.bind (startReading_still t.view) fun _ hv => receiveBytes_synced (h.still hv) hb

lemma readData_synced (h : Synced t) {bytes : List UInt8} (hb : BytesFit host bytes t) :
    Allows (readData host bytes t) Synced := by
  refine Allows.bind (startReading_still t.view) fun v hv => ?_
  refine Allows.bind (receiveBytes_synced (h.still hv) hb) fun u hu => ?_
  refine Allows.bind (showCursor_still u.view) fun w hw => allows_pure ?_
  exact hu.still (hw.trans (finishReading_still w))

end Reading

section Resize

/-- The cursor is not just behind the new margins, and a line that is full is not made longer. -/
def CursorMoves (nsx nsy : ℤ) (t : Session σ) : Prop :=
  t.view.cursorX ≠ nsx ∧ t.view.cursorY ≠ nsy ∧ (t.parser.x = t.parser.width → nsx ≤ t.parser.width)

instance (nsx nsy : ℤ) (t : Session σ) : Decidable (CursorMoves nsx nsy t) := inferInstanceAs (Decidable (_ ∧ _))

lemma column_moves {x width nsx : ℤ} (h0 : 0 ≤ x) (hx : x ≤ width) (hwidth : 1 ≤ width) (hnsx : 1 ≤ nsx) :
    (if nsx < min x (width - 1) then nsx - 1 else min x (width - 1)) =
        min (let n := if nsx ≤ x then nsx - 1 else x; if n < 0 then 0 else n) (nsx - 1) ↔
      min x (width - 1) ≠ nsx ∧ (x = width → nsx ≤ width) := by
  simp only
  split_ifs <;> omega

lemma row_moves {nsy : ℤ} (h0 : 0 ≤ v.cursorY) (hlt : v.cursorY < v.sy) (hnsy : 1 ≤ nsy) {y : ℤ}
    (hy : y = if nsy < newCursorY nsy v then nsy - 1 else newCursorY nsy v) :
    (y = let n := if nsy ≤ y then nsy - 1 else y; if n < 0 then 0 else n) ↔ v.cursorY ≠ nsy := by
  simp only [newCursorY, lineShift] at hy ⊢
  split_ifs at hy ⊢ <;> omega

/-- The resize gives the session another size: it is not ignored, and there is memory for it. -/
def Resizes (nsx nsy : ℤ) (allocated : Bool) (t : Session σ) : Prop :=
  t.view.ignoreResize = false ∧ allocated = true ∧
    ¬(atLeastOne (wrap32 nsx) = t.view.sx ∧ atLeastOne (wrap32 nsy) = t.view.sy)

instance (nsx nsy : ℤ) (allocated : Bool) (t : Session σ) : Decidable (Resizes nsx nsy allocated t) :=
  inferInstanceAs (Decidable (_ ∧ _))

lemma resizeTerminalTo_same (nsx nsy : ℤ) {allocated : Bool} (h : Synced t) (hno : ¬Resizes nsx nsy allocated t) :
    Allows (resizeTerminalTo nsx nsy allocated t) Synced := by
  simp only [resizeTerminalTo]
  split_ifs with hignore hsize hallocated
  · exact allows_pure h
  · exact allows_pure (h.still ⟨rfl, rfl, rfl, rfl⟩)
  · exact absurd ⟨eq_false_of_ne_true hignore, hallocated, hsize⟩ hno
  · exact Allows.bind (setSelection_still _ t.view) fun v hv => allows_pure (h.still hv)

structure Placed (nsx nsy : ℤ) (v w : View) : Prop where
  sx : w.sx = nsx
  sy : w.sy = nsy
  cursorX : w.cursorX = if nsx < v.cursorX then nsx - 1 else v.cursorX
  cursorY : w.cursorY = if nsy < newCursorY nsy v then nsy - 1 else newCursorY nsy v

lemma reshape_placed (nsx nsy : ℤ) (v : View) : Allows (reshape nsx nsy v) (Placed nsx nsy v) :=
  Allows.bind (allows_true _) fun _ _ => allows_pure ⟨rfl, rfl, rfl, rfl⟩

lemma Placed.agrees_iff {size : ScreenSize} (h : Synced t) (hv : Still t.view v)
    (hw : Placed size.width size.height v w) :
    CursorAgrees (σ := σ) ⟨setNeedsDisplay w, setTerminalScreen w.sx w.sy w.cursorY t.parser⟩ ↔
      CursorMoves size.width size.height t := by
  have hp := h.parser
  obtain ⟨hcx, hcy⟩ := h.agrees
  have hlow : 0 ≤ v.cursorY := by
    rw [hv.cursorY, hcy]
    exact hp.y_nonneg
  have hhigh : v.cursorY < v.sy := by
    rw [hv.cursorY, hcy, hv.sy, h.told.2.1]
    exact hp.y_lt
  have hcolumn := column_moves hp.x_nonneg hp.x_le hp.width_pos size.width_pos
  have hrow := row_moves hlow hhigh size.height_pos hw.cursorY
  rw [CursorMoves, ← and_assoc, and_right_comm, hcx, ← hcolumn, ← hv.cursorY, ← hrow]
  have hx : (setNeedsDisplay w).cursorX =
      if size.width < min t.parser.x (t.parser.width - 1) then size.width - 1
        else min t.parser.x (t.parser.width - 1) := by
    rw [← hcx, ← hv.cursorX]
    exact hw.cursorX
  rw [CursorAgrees, hx, hw.sx, hw.sy]
  rfl

lemma resizeTerminalTo_agrees_iff (h : Synced t) {nsx nsy : ℤ} {allocated : Bool} (hr : Resizes nsx nsy allocated t) :
    Allows (resizeTerminalTo nsx nsy allocated t) fun u =>
      LinuxParser.Sane u.parser ∧ u.view.sx = u.parser.width ∧ u.view.sy = u.parser.height ∧
        (CursorAgrees u ↔ CursorMoves (atLeastOne (wrap32 nsx)) (atLeastOne (wrap32 nsy)) t) := by
  obtain ⟨hignore, rfl, hsize⟩ := hr
  simp only [resizeTerminalTo]
  rw [if_neg (ne_true_of_eq_false hignore), if_neg hsize]
  refine Allows.bind (setSelection_still _ t.view) fun v hv => ?_
  rw [if_pos trivial]
  refine Allows.bind (reshape_placed _ _ v) fun w hw => allows_pure ⟨?_, rfl, rfl, ?_⟩
  · rw [hw.sx, hw.sy]
    exact setTerminalScreen_sane h.parser (newSize nsx nsy) w.cursorY
  · have hplaced : Placed (newSize nsx nsy).width (newSize nsx nsy).height v w := hw
    exact hplaced.agrees_iff h hv

lemma resizeTerminalTo_synced (h : Synced t) {nsx nsy : ℤ} {allocated : Bool}
    (hmoves : Resizes nsx nsy allocated t → CursorMoves (atLeastOne (wrap32 nsx)) (atLeastOne (wrap32 nsy)) t) :
    Allows (resizeTerminalTo nsx nsy allocated t) Synced := by
  by_cases hr : Resizes nsx nsy allocated t
  · refine (resizeTerminalTo_agrees_iff h hr).imp fun u ⟨hp, hx, hy, hagrees⟩ => ?_
    exact (synced_iff hp hx hy).mpr (hagrees.mpr (hmoves hr))
  · exact resizeTerminalTo_same nsx nsy h hr

end Resize

section Events

lemma updateCells_still (f : ScreenChar → ScreenChar) (lo hi : ℤ) (v : View) :
    Allows (updateCells f lo hi v) (Still v) :=
  Allows.bind (allows_true _) fun _ _ => Allows.bind (allows_true _) fun _ _ => allows_pure ⟨rfl, rfl, rfl, rfl⟩

lemma trackMouse_still (sets : CharacterSets) (g : ℕ) (start : Option Tracking) (px py : ℤ) (v : View) :
    Allows (trackMouse sets g start px py v) (Still v) := by
  refine Allows.bind (allows_true _) fun r _ => Allows.bind (setSelection_still _ v) fun w hw => allows_pure ?_
  exact hw.trans ⟨rfl, rfl, rfl, rfl⟩

lemma mouseDragged_still (sets : CharacterSets) (px py : ℤ) (v : View) :
    Allows (mouseDragged sets px py v) (Still v) := by
  rw [mouseDragged]
  cases v.tracking with
  | none => exact allows_pure (.refl v)
  | some s => exact trackMouse_still sets _ _ px py v

lemma copySelection_still (v : View) : Allows (copySelection v) (Still v) :=
  Allows.bind (allows_true _) fun _ _ => allows_pure (.refl v)

lemma mouseUp_still (v : View) : Allows (mouseUp v) (Still v) := by
  have huntracked : Still v { v with tracking := none } := ⟨rfl, rfl, rfl, rfl⟩
  rw [mouseUp]
  split_ifs
  · exact (copySelection_still _).imp fun _ hw => huntracked.trans hw
  · exact allows_pure huntracked

lemma scrollTo_still (newScroll : ℤ) (v : View) : Still v (scrollTo newScroll v) := by
  simp only [scrollTo]
  split_ifs <;> exact ⟨rfl, rfl, rfl, rfl⟩

lemma setScrollBufferMaxLength_still (lines : ℤ) (v : View) : Still v (setScrollBufferMaxLength lines v) := by
  simp only [setScrollBufferMaxLength]
  split_ifs <;> exact ⟨rfl, rfl, rfl, rfl⟩

lemma drawRect_still (x0 x1 y0 y1 : ℤ) (v : View) : Allows (drawRect x0 x1 y0 y1 v) (Still v) := by
  refine Allows.bind (allows_true _) fun _ _ => ?_
  have hbackground (cells : List ℤ) (s : View × Pen) (hs : Still v s.1) :
      Allows (cells.foldlM drawBackground s) fun s => Still v s.1 := by
    refine allows_foldlM cells (fun s hs i _ => ?_) hs
    refine Allows.bind (allows_true _) fun ch _ => Allows.bind (updateCells_still _ _ _ s.1) fun w hw => ?_
    exact allows_pure (hs.trans hw)
  have hcharacters (cells : List ℤ) (w : View) (hw : Still v w) : Allows (cells.foldlM drawCharacter w) (Still v) :=
    allows_foldlM cells (fun w hw i _ => (updateCells_still _ _ _ w).imp fun _ hu => hw.trans hu) hw
  refine Allows.bind (hbackground _ _ (handlePendingScroll_still v)) fun s hs => ?_
  refine Allows.bind (hcharacters _ _ hs) fun w hw => allows_pure ?_
  exact hw.trans ⟨rfl, rfl, rfl, rfl⟩

def CursorFits (host : Host σ) (t : Session σ) : Event → Prop
  | .readData bytes => BytesFit host bytes t
  | .resizeTerminalTo nsx nsy allocated =>
    Resizes nsx nsy allocated t → CursorMoves (atLeastOne (wrap32 nsx)) (atLeastOne (wrap32 nsy)) t
  | _ => True

instance (host : Host σ) (t : Session σ) : ∀ e, Decidable (CursorFits host t e)
  | .readData bytes => inferInstanceAs (Decidable (BytesFit host bytes t))
  | .resizeTerminalTo _ _ _ => inferInstanceAs (Decidable (_ → _))
  | .setIgnoreResize _ | .scrollTo _ | .clearBuffer | .setScrollBufferMaxLength _ | .setScrollBottomOnInput _
  | .mouseDown _ _ _ | .mouseDragged _ _ | .mouseUp | .selectAll | .setSelectedRange _ _ | .copySelection
  | .stringRepresentation | .drawRect _ _ _ _ => inferInstanceAs (Decidable True)

lemma step_synced (sets : CharacterSets) (t : Session σ) (e : Event) (h : Synced t) (he : CursorFits host t e) :
    Allows (step host sets t e) Synced := by
  cases e with
  | readData bytes => exact readData_synced h he
  | resizeTerminalTo nsx nsy allocated => exact resizeTerminalTo_synced h he
  | setIgnoreResize ignore => exact h.onView (allows_pure ⟨rfl, rfl, rfl, rfl⟩)
  | scrollTo newScroll => exact h.onView (allows_pure (scrollTo_still newScroll t.view))
  | clearBuffer => exact h.onView (allows_pure ⟨rfl, rfl, rfl, rfl⟩)
  | setScrollBufferMaxLength lines => exact h.onView (allows_pure (setScrollBufferMaxLength_still lines t.view))
  | setScrollBottomOnInput scrollBottom => exact h.onView (allows_pure ⟨rfl, rfl, rfl, rfl⟩)
  | mouseDown clickCount px py => exact h.onView (trackMouse_still sets _ _ px py t.view)
  | mouseDragged px py => exact h.onView (mouseDragged_still sets px py t.view)
  | mouseUp => exact h.onView (mouseUp_still t.view)
  | selectAll => exact h.onView (setSelection_still _ t.view)
  | setSelectedRange location length => exact h.onView (setSelection_still _ t.view)
  | copySelection => exact h.onView (copySelection_still t.view)
  | stringRepresentation => exact Allows.bind (allows_true _) fun _ _ => allows_pure h
  | drawRect x0 x1 y0 y1 => exact h.onView (drawRect_still x0 x1 y0 y1 t.view)

lemma initWithFrame_synced (size : ScreenSize) (lines : ℕ) (scrollBottom : Bool) (cd : Option σ) :
    Allows (initWithFrame size lines scrollBottom cd) Synced := by
  have hwidth := size.width_pos
  have hheight := size.height_pos
  have hkeeps := initWithTerminalScreen_keeps size cd
  have htracks : Tracks (σ := σ) True { width := size.width, height := size.height, color := 0xff, defColor := 0xff }
      (initWithTerminalScreen size.width size.height cd) :=
    (resetTerminal_tracks _).andThen fun q => tracks_stay rfl rfl id
  have htold (v : View) (hx : v.sx = size.width) (hy : v.sy = size.height) (hcx : v.cursorX = 0) (hcy : v.cursorY = 0) :
      Told size.width size.height (0, 0) v := by
    refine ⟨hx, hy, ?_, ?_⟩
    · rw [hcx, intoScreen_column le_rfl hwidth]
      omega
    · rw [hcy, intoScreen_row le_rfl hheight]
  refine Allows.bind (receiveAll_told (htold _ rfl rfl rfl rfl) _) fun v hv => allows_pure ⟨hkeeps.sane, ?_⟩
  rw [htracks.published] at hv
  rw [hkeeps.width, hkeeps.height]
  exact hv

theorem runFrom_cursorAgrees (host : Host σ) (sets : CharacterSets) (size : ScreenSize) (lines : ℕ) (scrollBottom : Bool)
    (cd : Option σ) (es : List Event)
    (h : ∀ t ∈ initWithFrame size lines scrollBottom cd, Admits (step host sets) (CursorFits host) t es) :
    ∀ t ∈ runFrom host sets size lines scrollBottom cd es, CursorAgrees t ∧
      ∀ bytes, BytesFit host bytes t → ∀ u ∈ reading host bytes t, CursorAgrees u := by
  intro t ht
  obtain ⟨s, hs, hrun⟩ := Option.bind_eq_some_iff.mp ht
  have hsynced : Synced t :=
    tryRun_invariant (step_synced sets) (initWithFrame_synced size lines scrollBottom cd s hs) (h s hs) t hrun
  exact ⟨hsynced.agrees, fun bytes hb u hu => (reading_synced hsynced hb u hu).agrees⟩

theorem runFrom_cursorAgrees_session : ∃ t, runFrom latinHost wordSets size4x3 5 true none
      [output "ab\r\ncd\r\n\n\x1b[2;3r", .resizeTerminalTo 3 2 true, .selectAll, output "xyz",
        .resizeTerminalTo 1 5 true, .drawRect 0 1 0 5] = some t ∧ CursorAgrees t ∧
      ∀ bytes, BytesFit latinHost bytes t → ∀ u ∈ reading latinHost bytes t, CursorAgrees u := by
  have hsome : (runFrom latinHost wordSets size4x3 5 true none
      [output "ab\r\ncd\r\n\n\x1b[2;3r", .resizeTerminalTo 3 2 true, .selectAll, output "xyz",
        .resizeTerminalTo 1 5 true, .drawRect 0 1 0 5]).isSome := by
    decide
  obtain ⟨t, ht⟩ := Option.isSome_iff_exists.mp hsome
  refine ⟨t, ht, runFrom_cursorAgrees latinHost wordSets size4x3 5 true none _ ?_ t ht⟩
  decide

/-- The cursor is in the third column when the screen gets two columns wide. -/
theorem resized_cursor_apart :
    ¬∀ t ∈ runFrom latinHost wordSets size4x3 5 true none [output "ab", .resizeTerminalTo 2 3 true], CursorAgrees t := by
  decide

end Events

end Xperimentum.Terminal.TerminalView
