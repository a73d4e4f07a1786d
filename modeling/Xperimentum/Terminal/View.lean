import Mathlib.Tactic
import Xperimentum.Lib.Int32
import Xperimentum.Lib.Memory
import Xperimentum.Terminal.Parser

/-! `TerminalView`: the screen and the scrollback it owns, the calls of its parser, the selection, scrolling
and resizing. An index outside `screen` or `sbuf` makes an operation `none`. -/

namespace Xperimentum.Terminal.TerminalView

open Xperimentum.Lib.Memory Xperimentum.Terminal.LinuxParser

structure SelectionRange where
  location : ℤ := 0
  length : ℤ := 0
  deriving DecidableEq, Repr

def SelectionRange.stop (s : SelectionRange) : ℤ := s.location + s.length

structure Dirty where
  x0 : ℤ := 0
  y0 : ℤ := 0
  x1 : ℤ := 0
  y1 : ℤ := 0
  deriving DecidableEq, Repr

/-- The locals of `mouseDown:` that live across its event loop. -/
structure Tracking where
  clickCount : ℕ
  ofs0 : ℤ
  r0 : SelectionRange
  deriving DecidableEq, Repr

structure View where
  sx : ℤ
  sy : ℤ
  maxScrollback : ℤ
  screen : List ScreenChar
  sbuf : List ScreenChar
  sbLength : ℤ := 0
  currentScroll : ℤ := 0
  cursorX : ℤ := 0
  cursorY : ℤ := 0
  currentX : ℤ := 0
  currentY : ℤ := 0
  selection : SelectionRange := {}
  tracking : Option Tracking := none
  dirty : Dirty := {}
  drawAll : ℤ := 2
  drawCursor : Bool := false
  numScrolls : ℤ := 0
  pendingScroll : ℤ := 0
  ignoreResize : Bool := false
  scrollBottomOnInput : Bool
  xtermTitle : List UInt8 := []
  xtermIconTitle : List UInt8 := []
  deriving DecidableEq, Repr

def zeroCell : ScreenChar := ⟨0, 0, 0⟩

def markDirty (c : ScreenChar) : ScreenChar := { c with attr := c.attr ||| 0x80 }

def blankMemory (cells : ℤ) : List ScreenChar := List.replicate cells.toNat zeroCell

/-- Cells are numbered across both arrays: the scrollback ends just below 0, where the screen begins. -/
def cellAt (v : View) (i : ℤ) : Option ScreenChar :=
  if i < 0 then read v.sbuf (v.maxScrollback * v.sx + i) else read v.screen i

def updateCells (f : ScreenChar → ScreenChar) (lo hi : ℤ) (v : View) : Option View := do
  let sbuf ← update f v.sbuf (v.maxScrollback * v.sx + lo) (min hi 0 - lo)
  let screen ← update f v.screen (max lo 0) (hi - max lo 0)
  pure { v with sbuf := sbuf, screen := screen }

def addDirty (ax0 ay0 asx asy : ℤ) (v : View) : View :=
  if v.dirty.x0 = -1 then { v with dirty := ⟨ax0, ay0, ax0 + asx, ay0 + asy⟩ }
  else
    { v with
      dirty :=
        ⟨if ax0 < v.dirty.x0 then ax0 else v.dirty.x0, if ay0 < v.dirty.y0 then ay0 else v.dirty.y0,
          if v.dirty.x1 < ax0 + asx then ax0 + asx else v.dirty.x1,
          if v.dirty.y1 < ay0 + asy then ay0 + asy else v.dirty.y1⟩ }

def setNeedsDisplay (v : View) : View := { v with drawAll := 2 }

def setNeedsLazyDisplay (v : View) : View := { v with drawAll := if v.drawAll = 1 then 0 else v.drawAll }

def handlePendingScroll (v : View) : View :=
  if v.pendingScroll = 0 then v
  else if v.sy ≤ v.pendingScroll ∨ v.pendingScroll ≤ -v.sy then { v with pendingScroll := 0 }
  else { v with numScrolls := v.numScrolls + 1, pendingScroll := 0 }

def ts_setTitle (newTitle : List UInt8) (titleType : ℕ) (v : View) : View :=
  { v with
    xtermIconTitle := if titleType = 1 ∨ titleType = 0 then newTitle else v.xtermIconTitle
    xtermTitle := if titleType = 2 ∨ titleType = 0 then newTitle else v.xtermTitle }

def intoScreen (n size : ℤ) : ℤ :=
  let n := if size ≤ n then size - 1 else n
  if n < 0 then 0 else n

def ts_goto (x y : ℤ) (v : View) : View :=
  { v with cursorX := intoScreen x v.sx, cursorY := intoScreen y v.sy }

def ts_putCharAt (ch : ScreenChar) (c x y : ℤ) (v : View) : Option View :=
  if y < 0 ∨ v.sy ≤ y then some v
  else do
    let c := if v.sx < x + c then v.sx - x else c
    let c := if x < 0 then c - x else c
    let x := if x < 0 then 0 else x
    let screen ← update (fun _ => markDirty ch) v.screen (y * v.sx + x) c
    pure (addDirty x y c 1 { v with screen := screen })

def ts_putCharOffset (ch : ScreenChar) (c ofs : ℤ) (v : View) : Option View := do
  let c := if v.sx * v.sy < ofs + c then v.sx * v.sy - ofs else c
  let c := if ofs < 0 then c - ofs else c
  let ofs := if ofs < 0 then 0 else ofs
  let screen ← update (fun _ => markDirty ch) v.screen ofs c
  pure (addDirty 0 0 v.sx v.sy { v with screen := screen })

/-- The cell the cursor was drawn in, at `current_x` and `current_y`. -/
def markCurrent (v : View) : Option View := do
  let screen ← update markDirty v.screen (v.currentY * v.sx + v.currentX) 1
  pure { v with screen := screen, drawCursor := true }

def markCurrentIf (covered : Prop) [Decidable covered] (v : View) : Option View :=
  if covered then markCurrent v else some v

def savedLines (nr : ℤ) (v : View) : ℤ := if nr < v.maxScrollback then nr else v.maxScrollback

def shiftSaved (nr : ℤ) (v : View) : Option (List ScreenChar) :=
  if nr < v.maxScrollback then move v.sbuf 0 v.sbuf (v.sx * nr) (v.sx * (v.maxScrollback - nr))
  else some v.sbuf

def saveTop (num : ℤ) (v : View) (sbuf : List ScreenChar) : Option (List ScreenChar) :=
  if num < v.sy then move sbuf (v.sx * (v.maxScrollback - num)) v.screen 0 (num * v.sx)
  else do
    let copied ← move sbuf (v.sx * (v.maxScrollback - num)) v.screen 0 (v.sy * v.sx)
    update (fun _ => zeroCell) copied (v.sx * (v.maxScrollback - num + v.sy)) (v.sx * (num - v.sy))

def saveLines (nr : ℤ) (v : View) : Option View := do
  let num := savedLines nr v
  let shifted ← shiftSaved nr v
  let sbuf ← saveTop num v shifted
  pure
    { v with
      sbuf := sbuf
      sbLength := if v.maxScrollback < v.sbLength + num then v.maxScrollback else v.sbLength + num }

def saveLinesIf (save : Prop) [Decidable save] (nr : ℤ) (v : View) : Option View :=
  if save then saveLines nr v else some v

/-- A full-screen scroll is left pending; any other one is composited at once. -/
def compositeScroll (t b delta : ℤ) (v : View) : View :=
  if v.currentScroll ≠ 0 then v
  else if t = 0 ∧ b = v.sy then { v with pendingScroll := v.pendingScroll + delta }
  else
    let v := handlePendingScroll v
    { v with numScrolls := v.numScrolls + 1 }

def scrollRegion (t b nr d s delta : ℤ) (v : View) : Option View := do
  let v ← markCurrentIf (t ≤ v.currentY ∧ v.currentY ≤ b) v
  let screen ← move v.screen (d * v.sx) v.screen (s * v.sx) ((b - t - nr) * v.sx)
  pure (addDirty 0 t v.sx (b - t) (compositeScroll t b delta { v with screen := screen }))

def ts_scrollUp (t b nr : ℤ) (save : Bool) (v : View) : Option View := do
  let v ← saveLinesIf (save ∧ t = 0 ∧ b = v.sy) nr v
  let nr := if b ≤ t + nr then b - t - 1 else nr
  if v.sy < b ∨ b ≤ t ∨ nr < 1 then some v else scrollRegion t b nr t (t + nr) (-nr) v

def ts_scrollDown (t b nr : ℤ) (v : View) : Option View :=
  let nr := if b ≤ t + nr then b - t - 1 else nr
  if v.sy < b ∨ b ≤ t ∨ nr < 1 then some v else scrollRegion t b nr (t + nr) t nr v

def compositeRow (v : View) : View :=
  if v.currentScroll ≠ 0 then v
  else
    let v := handlePendingScroll v
    { v with numScrolls := v.numScrolls + 1 }

def ts_shiftRow (y x0 delta : ℤ) (v : View) : Option View :=
  if y < 0 ∨ v.sy ≤ y ∨ x0 < 0 ∨ v.sx ≤ x0 then some v
  else do
    let v ← markCurrentIf (v.currentY = y) v
    let x1 := x0 + delta
    let c := if x1 < 0 then v.sx - x0 + x1 else v.sx - x0
    let x1 := if x1 < 0 then 0 else x1
    let c := if v.sx < x1 + c then v.sx - x1 else c
    let screen ← move v.screen (y * v.sx + x1) v.screen (y * v.sx + x0) c
    pure (addDirty 0 y v.sx 1 (compositeRow { v with screen := screen }))

def receive (v : View) : ScreenCall → Option View
  | .goto x y => some (ts_goto x y v)
  | .putCharAt ch count x y => ts_putCharAt ch count x y v
  | .putCharOffset ch count ofs => ts_putCharOffset ch count ofs v
  | .scrollUp top bottom rows save => ts_scrollUp top bottom rows save v
  | .scrollDown top bottom rows => ts_scrollDown top bottom rows v
  | .shiftRow y at_ delta => ts_shiftRow y at_ delta v
  | .sendCString _ => some v
  | .setTitle title titleType => some (ts_setTitle title titleType v)

def clearBuffer (v : View) : View := setNeedsDisplay { v with sbLength := 0, currentScroll := 0 }

def scrollTo (newScroll : ℤ) (v : View) : View :=
  let newScroll := if 0 < newScroll then 0 else newScroll
  let newScroll := if newScroll < -v.sbLength then -v.sbLength else newScroll
  if newScroll = v.currentScroll then v else setNeedsDisplay { v with currentScroll := newScroll }

def unselect (c : ScreenChar) : ScreenChar := { c with attr := c.attr &&& 0xbf ||| 0x80 }

def select (c : ScreenChar) : ScreenChar :=
  if c.attr &&& 0x40 = 0 then { c with attr := c.attr ||| 0xc0 } else c

def clampSelection (s : SelectionRange) (v : View) : SelectionRange :=
  let s := if s.location < -v.sbLength * v.sx then
      ⟨-v.sbLength * v.sx, s.length + (v.sbLength * v.sx + s.location)⟩
    else s
  if v.sx * v.sy < s.stop then { s with length := v.sx * v.sy - s.location } else s

def setSelection (s : SelectionRange) (v : View) : Option View :=
  let s := clampSelection s v
  if s.length = 0 ∧ v.selection.length = 0 then some v
  else if s = v.selection then some v
  else do
    let old := v.selection
    let v ← updateCells unselect old.location (min old.stop s.location) v
    let v ← updateCells unselect (max s.stop old.location) old.stop v
    let v ← updateCells select s.location s.stop v
    pure (setNeedsLazyDisplay { v with selection := s, drawAll := 2 })

def clearSelection (v : View) : Option View := setSelection ⟨0, 0⟩ v

def selectAll (v : View) : Option View :=
  setSelection ⟨0 - v.sbLength * v.sx, v.sx * v.sy + v.sbLength * v.sx⟩ v

open Xperimentum.Lib.Int32 in
/-- An `NSRange` over `stringRepresentation`; its fields are narrowed to `int`. -/
def setSelectedRange (location length : ℕ) (v : View) : Option View :=
  setSelection ⟨wrap32 (location - v.sbLength * v.sx), wrap32 length⟩ v

def isBlank (ch : ℕ) : Bool := decide (ch = 0x20 ∨ ch = 0 ∨ ch = 0xfffe)

structure BlankRun where
  i : ℤ
  wsLen : ℕ
  ch : ℕ
  text : List ℕ

/-- The `while (1)` loop of `_selectionAsString`; the bound is the number of cells up to the end of the screen
and no run reaches it. -/
def skipBlanks (v : View) (j : ℤ) : ℕ → ℤ → ℕ → List ℕ → Option BlankRun
  | 0, _, _, _ => none
  | n + 1, i, wsLen, text => do
    let cell ← cellAt v i
    if isBlank cell.ch = false then pure ⟨i, wsLen, cell.ch, text⟩
    else if (i + 1) % v.sx = 0 then
      if j < i + 1 then pure ⟨i + 1, 0, cell.ch, text⟩ else skipBlanks v j n (i + 1) 0 (text ++ [0x0a])
    else skipBlanks v j n (i + 1) (wsLen + 1) text

def selectedText (v : View) (j : ℤ) : ℕ → ℤ → List ℕ → Option (List ℕ)
  | 0, _, _ => none
  | n + 1, i, text =>
    if j ≤ i then pure text
    else do
      let r ← skipBlanks v j (v.sx * v.sy - i).toNat i 0 text
      let start := r.i - r.wsLen
      let spaces := min r.wsLen (j - start).toNat
      let text := r.text ++ List.replicate spaces 0x20
      if j ≤ start + spaces then pure text else selectedText v j n (start + spaces + 1) (text ++ [r.ch])

def selectionAsString (v : View) : Option (Option (List ℕ)) :=
  if v.selection.length = 0 then pure none
  else do
    let text ← selectedText v v.selection.stop (v.selection.length.toNat + 1) v.selection.location []
    pure (some text)

/-- The character sets a word is searched in, in this order: `additionalWordCharacters` with the alphanumerics,
punctuation, white space. -/
abbrev CharacterSets := List (ℕ → Bool)

def wordChar (ch : ℕ) : ℕ := if ch = 0 then 0x20 else ch

/-- Both searches of a word, `step` being -1 or 1: the first cell from `i` on, at most `n` of them, that is
not a member. -/
def wordBoundary (v : View) (cs : ℕ → Bool) (step : ℤ) : ℕ → ℤ → Option ℤ
  | 0, i => pure i
  | n + 1, i => do
    let cell ← cellAt v i
    if cs (wordChar cell.ch) then wordBoundary v cs step n (i + step) else pure i

def selectionRangeAt (sets : CharacterSets) (pos : ℤ) (g : ℕ) (v : View) : Option SelectionRange :=
  match g with
  | 3 => pure ⟨pos / v.sx * v.sx, v.sx⟩
  | 2 => do
    let cell ← cellAt v pos
    match sets.find? fun cs => cs (wordChar cell.ch) with
    | none => pure ⟨pos, 1⟩
    | some cs => do
      let j := pos / v.sx * v.sx
      let i ← wordBoundary v cs (-1) (pos - j).toNat (pos - 1)
      let k ← wordBoundary v cs 1 (j + v.sx - (pos + 1)).toNat (pos + 1)
      pure ⟨i + 1, k - (i + 1)⟩
  | _ => pure ⟨pos, 0⟩

/-- The column and the row that `mouseDown:` makes of a point, in cells. -/
def pointColumn (px : ℤ) (v : View) : ℤ :=
  let px := if px < 0 then 0 else px
  if v.sx ≤ px then v.sx - 1 else px

def pointRow (py : ℤ) (v : View) : ℤ :=
  let py := if py < -1 then -1 else py
  let py := if v.sy < py then v.sy else py
  v.sy - py + v.currentScroll

def trackMouse (sets : CharacterSets) (g : ℕ) (start : Option Tracking) (px py : ℤ) (v : View) :
    Option View := do
  let ofs1 := pointColumn px v + pointRow py v * v.sx
  let r1 ← selectionRangeAt sets ofs1 g v
  let t := start.getD ⟨g, ofs1, r1⟩
  let s : SelectionRange :=
    if t.ofs0 < ofs1 then ⟨t.r0.location, r1.stop - t.r0.location⟩
    else ⟨r1.location, t.r0.stop - r1.location⟩
  let s := if s.stop.tmod v.sx = v.sx - 1 then { s with length := s.length + 1 } else s
  let v ← setSelection s v
  pure { v with tracking := some t }

def mouseDown (sets : CharacterSets) (clickCount : ℕ) (px py : ℤ) (v : View) : Option View :=
  trackMouse sets clickCount none px py v

def mouseDragged (sets : CharacterSets) (px py : ℤ) (v : View) : Option View :=
  match v.tracking with
  | none => some v
  | some t => trackMouse sets t.clickCount (some t) px py v

def copySelection (v : View) : Option View := do
  let _ ← selectionAsString v
  pure v

def mouseUp (v : View) : Option View :=
  if v.tracking.isSome ∧ v.selection.length ≠ 0 then copySelection { v with tracking := none }
  else some { v with tracking := none }

def stringRepresentation (v : View) : Option (List ℕ) := do
  let cells ← (Int.range (-(v.sbLength * v.sx)) (v.sx * v.sy)).mapM (cellAt v)
  pure (cells.map ScreenChar.ch)

def setScrollBufferMaxLength (lines : ℤ) (v : View) : View :=
  if v.maxScrollback = lines then v
  else
    let v := { v with maxScrollback := lines }
    let v := if v.maxScrollback = 0 then clearBuffer v else v
    { v with sbuf := blankMemory (v.sx * if 0 < v.maxScrollback then v.maxScrollback else 1) }

end Xperimentum.Terminal.TerminalView
