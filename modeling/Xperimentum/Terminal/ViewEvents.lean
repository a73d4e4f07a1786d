import Mathlib.Tactic
import Xperimentum.Lib.Partial
import Xperimentum.Terminal.ParserRuns
import Xperimentum.Terminal.View

/-! A `TerminalView` with its parser: output, resizing, drawing, and the events that reach the two. -/

namespace Xperimentum.Terminal.TerminalView

open Xperimentum.Lib.Int32 Xperimentum.Lib.Memory Xperimentum.Lib.Partial Xperimentum.Terminal.LinuxParser

variable {σ : Type}

structure Session (σ : Type) where
  view : View
  parser : Parser σ

def lineShift (nsy : ℤ) (v : View) : ℤ :=
  let shift := nsy - (v.cursorY + 1)
  if v.sy ≤ nsy ∧ 0 < v.sbLength ∧ v.sbLength < shift then v.sbLength else shift

/-- The row of the new screen that row `iy` goes to; negative rows are in the scrollback. -/
def newRow (nsy iy : ℤ) (v : View) : ℤ :=
  if nsy < v.sy then (if v.cursorY < nsy then iy else iy + lineShift nsy v)
  else if 0 < v.sbLength then iy + lineShift nsy v
  else iy

structure Buffers where
  nscreen : List ScreenChar
  nsbuf : List ScreenChar

def rowBuffer (iy : ℤ) (v : View) : List ScreenChar := if iy < 0 then v.sbuf else v.screen

def rowStart (iy : ℤ) (v : View) : ℤ := if iy < 0 then v.sx * (v.maxScrollback + iy) else v.sx * iy

def copyRow (nsx copySx iy ny : ℤ) (v : View) (b : Buffers) : Option Buffers :=
  if ny < 0 then do
    let nsbuf ← move b.nsbuf (nsx * (v.maxScrollback + ny)) (rowBuffer iy v) (rowStart iy v) copySx
    pure { b with nsbuf := nsbuf }
  else do
    let nscreen ← move b.nscreen (nsx * ny) (rowBuffer iy v) (rowStart iy v) copySx
    pure { b with nscreen := nscreen }

def copyRows (nsx nsy copySx : ℤ) (v : View) : List ℤ → Buffers → Option Buffers
  | [], b => pure b
  | iy :: rest, b =>
    let ny := newRow nsy iy v
    if nsy ≤ ny then pure b
    else if ny < -v.maxScrollback then copyRows nsx nsy copySx v rest b
    else do
      let b ← copyRow nsx copySx iy ny v b
      copyRows nsx nsy copySx v rest b

def newCursorY (nsy : ℤ) (v : View) : ℤ :=
  if v.sy < nsy ∧ 0 < v.sbLength then v.cursorY + lineShift nsy v else v.cursorY

def newSbLength (nsy : ℤ) (v : View) : ℤ :=
  let n := if nsy ≤ newCursorY nsy v ∨ v.sy < nsy then v.sbLength - lineShift nsy v else v.sbLength
  let n := if v.maxScrollback < n then v.maxScrollback else n
  if n < 0 then 0 else n

/-- `_resizeTerminalTo:` from the allocation of the new buffers to the clamping of the cursor. -/
def reshape (nsx nsy : ℤ) (v : View) : Option View := do
  let copySx := if nsx < v.sx then nsx else v.sx
  let b ← copyRows nsx nsy copySx v (Int.range (-v.sbLength) v.sy)
    ⟨blankMemory (nsx * nsy), blankMemory (nsx * v.maxScrollback)⟩
  let cursorY := newCursorY nsy v
  pure
    { v with
      sx := nsx, sy := nsy, screen := b.nscreen, sbuf := b.nsbuf, sbLength := newSbLength nsy v
      cursorX := if nsx < v.cursorX then nsx - 1 else v.cursorX
      cursorY := if nsy < cursorY then nsy - 1 else cursorY }

def atLeastOne (n : ℤ) : ℤ := if n < 1 then 1 else n

/-- `allocated` tells whether both calls of `malloc` succeed. -/
def resizeTerminalTo (nsx nsy : ℤ) (allocated : Bool) (t : Session σ) : Option (Session σ) :=
  let nsx := atLeastOne (wrap32 nsx)
  let nsy := atLeastOne (wrap32 nsy)
  if t.view.ignoreResize then pure t
  else if nsx = t.view.sx ∧ nsy = t.view.sy then pure { t with view := { t.view with drawAll := 2 } }
  else do
    let v ← clearSelection t.view
    if allocated then do
      let v ← reshape nsx nsy v
      pure { view := setNeedsDisplay v, parser := setTerminalScreen v.sx v.sy v.cursorY t.parser }
    else pure { t with view := v }

def receiveByte (host : Host σ) (t : Session σ) (c : UInt8) : Option (Session σ) := do
  let o := processByte host c t.parser
  let v ← o.calls.foldlM receive t.view
  pure { view := v, parser := o.parser }

def startReading (v : View) : Option View :=
  clearSelection
    { v with
      numScrolls := 0, dirty := { v.dirty with x0 := -1 }, currentX := v.cursorX, currentY := v.cursorY }

def showCursor (v : View) : Option View :=
  if v.cursorX ≠ v.currentX ∨ v.cursorY ≠ v.currentY then do
    let v ← markCurrent (addDirty v.currentX v.currentY 1 1 v)
    pure (addDirty v.cursorX v.cursorY 1 1 v)
  else some v

def finishReading (v : View) : View :=
  if 0 ≤ v.dirty.x0 then
    let v := setNeedsLazyDisplay v
    if v.currentScroll ≠ 0 then
      setNeedsDisplay (if v.scrollBottomOnInput then { v with currentScroll := 0 } else v)
    else v
  else v

/-- One call of `readData`; `bytes` is all it takes from the master side before it stops. -/
def readData (host : Host σ) (bytes : List UInt8) (t : Session σ) : Option (Session σ) := do
  let v ← startReading t.view
  let t ← bytes.foldlM (receiveByte host) { t with view := v }
  let v ← showCursor t.view
  pure { t with view := finishReading v }

structure Pen where
  color : ℕ
  attr : ℕ

/-- The background pass over one cell; a cell that a resize has added gets the default colours. -/
def backgroundCell (drawAll : ℤ) (pen : Pen) (ch : ScreenChar) : Pen × ScreenChar :=
  if drawAll = 0 ∧ ch.attr &&& 0x80 = 0 then (pen, ch)
  else
    let inverse := ch.attr &&& 0x8 ≠ 0
    let color := if inverse then ch.color &&& 0x0f else ch.color &&& 0xf0
    let color := if ch.attr &&& 0x40 ≠ 0 then color ^^^ 0xf0 else color
    if color = pen.color ∧ ch.attr = pen.attr then (pen, ch)
    else if ¬inverse ∧ color = 0 ∧ ch.color >>> 4 = 0 ∧ ch.ch = 0 then
      (⟨0xf0, ch.attr⟩, { ch with color := 255 })
    else (⟨color, ch.attr⟩, ch)

def drawBackground (s : View × Pen) (i : ℤ) : Option (View × Pen) := do
  let ch ← cellAt s.1 i
  let r := backgroundCell s.1.drawAll s.2 ch
  let v ← updateCells (fun _ => r.2) i (i + 1) s.1
  pure (v, r.1)

def drawCharacter (v : View) (i : ℤ) : Option View :=
  updateCells (fun c => if v.drawAll = 0 ∧ c.attr &&& 0x80 = 0 then c else { c with attr := c.attr &&& 0x7f })
    i (i + 1) v

def visibleCells (x0 x1 y0 y1 : ℤ) (v : View) : List ℤ :=
  (Int.range (if y0 < 0 then 0 else y0) (if v.sy ≤ y1 then v.sy else y1)).flatMap fun iy =>
    (Int.range (if x0 < 0 then 0 else x0) (if v.sx ≤ x1 then v.sx else x1)).map fun ix =>
      (iy + v.currentScroll) * v.sx + ix

/-- The cell that decides whether the cursor is drawn, unless it is drawn anyway. -/
def cursorCell (v : View) : Option ScreenChar :=
  if v.drawCursor = false ∧ v.drawAll = 0 then read v.screen (v.cursorY * v.sx + v.cursorX) else some zeroCell

/-- `drawRect:` of the cells from `x0`, `y0` to before `x1`, `y1`. -/
def drawRect (x0 x1 y0 y1 : ℤ) (v : View) : Option View := do
  let v := handlePendingScroll v
  let _ ← cursorCell v
  let cells := visibleCells x0 x1 y0 y1 v
  let s ← cells.foldlM drawBackground (v, (⟨255, 0⟩ : Pen))
  let v ← cells.foldlM drawCharacter s.1
  pure { v with drawCursor := false, drawAll := 1 }

inductive Event
  | readData (bytes : List UInt8)
  | resizeTerminalTo (nsx nsy : ℤ) (allocated : Bool)
  | setIgnoreResize (ignore : Bool)
  | scrollTo (newScroll : ℤ)
  | clearBuffer
  | setScrollBufferMaxLength (lines : ℤ)
  | setScrollBottomOnInput (scrollBottom : Bool)
  | mouseDown (clickCount : ℕ) (px py : ℤ)
  | mouseDragged (px py : ℤ)
  | mouseUp
  | selectAll
  | setSelectedRange (location length : ℕ)
  | copySelection
  | stringRepresentation
  | drawRect (x0 x1 y0 y1 : ℤ)

def onView (o : Option View) (t : Session σ) : Option (Session σ) := do
  let v ← o
  pure { t with view := v }

def step (host : Host σ) (sets : CharacterSets) (t : Session σ) : Event → Option (Session σ)
  | .readData bytes => TerminalView.readData host bytes t
  | .resizeTerminalTo nsx nsy allocated => TerminalView.resizeTerminalTo nsx nsy allocated t
  | .setIgnoreResize ignore => onView (some { t.view with ignoreResize := ignore }) t
  | .scrollTo newScroll => onView (some (TerminalView.scrollTo newScroll t.view)) t
  | .clearBuffer => onView (some (TerminalView.clearBuffer t.view)) t
  | .setScrollBufferMaxLength lines => onView (some (TerminalView.setScrollBufferMaxLength lines t.view)) t
  | .setScrollBottomOnInput scrollBottom =>
    onView (some { t.view with scrollBottomOnInput := scrollBottom }) t
  | .mouseDown clickCount px py => onView (TerminalView.mouseDown sets clickCount px py t.view) t
  | .mouseDragged px py => onView (TerminalView.mouseDragged sets px py t.view) t
  | .mouseUp => onView (TerminalView.mouseUp t.view) t
  | .selectAll => onView (TerminalView.selectAll t.view) t
  | .setSelectedRange location length => onView (TerminalView.setSelectedRange location length t.view) t
  | .copySelection => onView (TerminalView.copySelection t.view) t
  | .stringRepresentation => do
    let _ ← TerminalView.stringRepresentation t.view
    pure t
  | .drawRect x0 x1 y0 y1 => onView (TerminalView.drawRect x0 x1 y0 y1 t.view) t

/-- `initWithFrame:` with the window size, `scrollBackLines` and `scrollBottomOnInput` of the defaults. -/
def initWithFrame (size : ScreenSize) (scrollBackLines : ℕ) (scrollBottom : Bool) (cd : Option σ) :
    Option (Session σ) := do
  let v : View :=
    { sx := size.width, sy := size.height, maxScrollback := scrollBackLines
      screen := blankMemory (size.width * size.height), sbuf := blankMemory (size.width * scrollBackLines)
      scrollBottomOnInput := scrollBottom }
  let o := initWithTerminalScreen size.width size.height cd
  let v ← o.calls.foldlM receive v
  pure { view := v, parser := o.parser }

end Xperimentum.Terminal.TerminalView
