import Mathlib.Tactic
import Xperimentum.Lib.Int32
import Xperimentum.Terminal.Charmaps

/-! State of `TerminalParser_Linux`, the calls it makes on its `TerminalScreen`, and the outcome of a
piece of its code: `returned` records that a macro has executed the `return` it contains. -/

namespace Xperimentum.Terminal.LinuxParser

open Xperimentum.Lib.Int32 Xperimentum.Terminal.Charmaps

inductive ESstate
  | normal | esc | square | getpars | gotpars | funckey | hash | setG0 | setG1 | percent | ignore
  | nonstd | palette | titleSemi | titleBuf
  deriving DecidableEq, Repr

structure ScreenChar where
  ch : ℕ
  color : ℕ
  attr : ℕ
  deriving DecidableEq, Repr

inductive ScreenCall
  | goto (x y : ℤ)
  | putCharAt (ch : ScreenChar) (count x y : ℤ)
  | putCharOffset (ch : ScreenChar) (count ofs : ℤ)
  | scrollUp (top bottom rows : ℤ) (save : Bool)
  | scrollDown (top bottom rows : ℤ)
  | shiftRow (y at_ delta : ℤ)
  | sendCString (str : String)
  | setTitle (title : List UInt8) (titleType : ℕ)
  deriving DecidableEq, Repr

structure Parser (σ : Type) where
  width : ℤ
  height : ℤ
  tabStop : List ℕ := List.replicate 8 0
  x : ℤ := 0
  y : ℤ := 0
  top : ℤ := 0
  bottom : ℤ := 0
  unich : ℕ := 0
  utfCount : ℕ := 0
  inputBuf : List UInt8 := []
  titleBuf : List UInt8 := []
  titleType : ℕ := 0
  vcState : ESstate := .normal
  decscnm : Bool := false
  decom : Bool := false
  decawm : Bool := false
  deccm : Bool := false
  decim : Bool := false
  ques : Bool := false
  charset : Bool := false
  utf : Bool := false
  dispCtrl : Bool := false
  toggleMeta : Bool := false
  g0Charset : ℕ := 0
  g1Charset : ℕ := 0
  translate : ℕ := 0
  intensity : ℕ := 0
  underline : ℕ := 0
  reverse : ℕ := 0
  blink : ℕ := 0
  color : ℕ := 0
  defColor : ℕ := 0
  videoEraseChar : ScreenChar := ⟨0, 0, 0⟩
  npar : ℕ := 0
  par : List ℤ := List.replicate 16 0
  savedX : ℤ := 0
  savedY : ℤ := 0
  sIntensity : ℕ := 0
  sUnderline : ℕ := 0
  sBlink : ℕ := 0
  sReverse : ℕ := 0
  sCharset : Bool := false
  sColor : ℕ := 0
  savedG0 : ℕ := 0
  savedG1 : ℕ := 0
  iconvState : Option σ := none

def nparMax : ℕ := 16
def titleBufSize : ℕ := 255
def inputBufSize : ℕ := 16

inductive ConversionStatus
  | done | e2big | eilseq | einval
  deriving DecidableEq, Repr

/-- One call of `iconv` with room for one UCS-4 character: the bytes left over and the character, if any. -/
structure Conversion (σ : Type) where
  descriptor : σ
  inSize : ℕ
  output : Option ℕ
  status : ConversionStatus

/-- What the parser takes from outside: the converter, the font's cell counts, and the memory next to
`tab_stop`, read and written when a column has no tab-stop word. -/
structure Host (σ : Type) where
  iconv : σ → List UInt8 → Conversion σ
  iconv_left : ∀ cd inp, (iconv cd inp).inSize ≤ inp.length
  iconv_e2big : ∀ cd inp, (iconv cd inp).status = .e2big → (iconv cd inp).inSize < inp.length
  iconv_eilseq : ∀ cd inp, (iconv cd inp).status = .eilseq → 0 < (iconv cd inp).inSize
  useMultiCellGlyphs : Bool
  glyphCells : ℕ → ℤ
  strayWord : Parser σ → ℤ → ℕ
  strayStore : Parser σ → ℤ → ℕ → Parser σ

structure Outcome (σ : Type) where
  parser : Parser σ
  calls : List ScreenCall := []
  printed : List ℕ := []
  returned : Bool := false

variable {σ : Type}

def Outcome.andThen (o : Outcome σ) (f : Parser σ → Outcome σ) : Outcome σ :=
  if o.returned then o
  else
    { parser := (f o.parser).parser
      calls := o.calls ++ (f o.parser).calls
      printed := o.printed ++ (f o.parser).printed
      returned := (f o.parser).returned }

def setX (x : ℤ) (p : Parser σ) : Parser σ := { p with x := x }

def setY (y : ℤ) (p : Parser σ) : Parser σ := { p with y := y }

def setState (s : ESstate) (p : Parser σ) : Parser σ := { p with vcState := s }

def setUnich (n : ℕ) (p : Parser σ) : Parser σ := { p with unich := n }

def setInputBuf (inp : List UInt8) (p : Parser σ) : Parser σ := { p with inputBuf := inp }

def stay (p : Parser σ) : Outcome σ := { parser := p }

lemma Outcome.andThen_stay {o : Outcome σ} (h : o.returned = false) (f : Parser σ → Parser σ) :
    (o.andThen fun p => stay (f p)).parser = f o.parser ∧
      (o.andThen fun p => stay (f p)).printed = o.printed := by
  simp [Outcome.andThen, stay, h]

def tell (c : ScreenCall) (p : Parser σ) : Outcome σ := { parser := p, calls := [c] }

def tsGoto (p : Parser σ) : Outcome σ := tell (.goto p.x p.y) p

def relativeWidthOfCharacter (host : Host σ) (ch : ℕ) : ℤ :=
  if host.useMultiCellGlyphs = false then 1
  else if host.glyphCells ch < 1 then 1
  else host.glyphCells ch

def clampInto (n lower upper : ℤ) : ℤ :=
  if n < lower then lower else if upper ≤ n then upper - 1 else n

def gotoxy (newX newY : ℤ) (p : Parser σ) : Outcome σ :=
  tsGoto
    { p with
      x := clampInto newX 0 p.width
      y := if p.decom then clampInto newY p.top p.bottom else clampInto newY 0 p.height }

/-- The macro argument `decom?top+ny:ny` meets `< min_y` unparenthesised, so with `decom` set the row is
compared with nothing: `top` when the sum is non-zero, the sum itself, 0, otherwise. -/
def gotoxay (nx ny : ℤ) (p : Parser σ) : Outcome σ :=
  tsGoto
    { p with
      x := clampInto nx 0 p.width
      y := if p.decom then (if wrap32 (p.top + ny) ≠ 0 then p.top else 0) else clampInto ny 0 p.height }

def saveCur (p : Parser σ) : Parser σ :=
  { p with
    savedX := p.x, savedY := p.y
    sIntensity := p.intensity, sUnderline := p.underline, sBlink := p.blink, sReverse := p.reverse
    sCharset := p.charset, sColor := p.color, savedG0 := p.g0Charset, savedG1 := p.g1Charset }

def restoreCur (p : Parser σ) : Outcome σ :=
  (gotoxy p.savedX p.savedY p).andThen fun p => stay
    { p with
      intensity := p.sIntensity, underline := p.sUnderline, blink := p.sBlink, reverse := p.sReverse
      charset := p.sCharset, color := p.sColor, g0Charset := p.savedG0, g1Charset := p.savedG1
      translate := setTranslate (if p.sCharset then p.savedG1 else p.savedG0) }

def defaultAttr (p : Parser σ) : Parser σ :=
  { p with intensity := 1, underline := 0, reverse := 0, blink := 0, color := p.defColor }

def attrByte (p : Parser σ) : ℕ :=
  (p.intensity ||| p.underline <<< 2 ||| p.reverse <<< 3 ||| p.blink <<< 4) % 256

def updateAttr (p : Parser σ) : Parser σ :=
  { p with videoEraseChar := { p.videoEraseChar with color := p.color % 256, attr := attrByte p } }

def screen (p : Parser σ) (x y : ℤ) : ℤ := x + y * p.width

def csi_J (vpar : ℤ) (p : Parser σ) : Outcome σ :=
  match vpar with
  | 0 => tell (.putCharOffset p.videoEraseChar (p.width * p.height - (p.x + p.y * p.width)) (screen p p.x p.y)) p
  | 1 => tell (.putCharOffset p.videoEraseChar (p.x + p.y * p.width + 1) (screen p 0 0)) p
  | 2 => tell (.putCharOffset p.videoEraseChar (p.width * p.height) (screen p 0 0)) p
  | _ => stay p

def csi_K (vpar : ℤ) (p : Parser σ) : Outcome σ :=
  match vpar with
  | 0 => tell (.putCharOffset p.videoEraseChar (p.width - p.x) (screen p p.x p.y)) p
  | 1 => tell (.putCharOffset p.videoEraseChar (p.x + 1) (screen p 0 p.y)) p
  | 2 => tell (.putCharOffset p.videoEraseChar p.width (screen p 0 p.y)) p
  | _ => stay p

def csi_X (vpar : ℤ) (p : Parser σ) : Outcome σ :=
  let vpar := if vpar = 0 then 1 else vpar
  let count := if p.width - p.x < vpar then p.width - p.x else vpar
  tell (.putCharOffset p.videoEraseChar count (screen p p.x p.y)) p

def resetTerminal (p : Parser σ) : Outcome σ :=
  let p := updateAttr <| defaultAttr
    { p with
      top := 0, bottom := p.height, vcState := .normal, ques := false, titleBuf := []
      translate := setTranslate lat1Map, g0Charset := lat1Map, g1Charset := grafMap, charset := false
      utf := false, utfCount := 0, dispCtrl := false, toggleMeta := false
      decscnm := false, decom := false, decawm := true, deccm := true, decim := false }
  let p := { p with tabStop := 0x01010100 :: List.replicate 7 0x01010101 }
  ((gotoxy 0 0 p).andThen fun p => stay (saveCur p)).andThen (csi_J 2)

def colorTable : List ℕ := [0, 4, 2, 6, 1, 5, 3, 7, 8, 12, 10, 14, 9, 13, 11, 15]

def foreground (p : Parser σ) : ℕ := p.color &&& 0x0f
def background (p : Parser σ) : ℕ := p.color &&& 0xf0

def currentTranslate (p : Parser σ) : ℕ := setTranslate (if p.charset then p.g1Charset else p.g0Charset)

def setGraphicRendition (n : ℤ) (p : Parser σ) : Parser σ :=
  match n with
  | 0 => defaultAttr p
  | 1 => { p with intensity := 2 }
  | 2 => { p with intensity := 0 }
  | 4 => { p with underline := 1 }
  | 5 => { p with blink := 1 }
  | 7 => { p with reverse := 1 }
  | 10 => { p with translate := currentTranslate p, dispCtrl := false, toggleMeta := false }
  | 11 => { p with translate := setTranslate ibmpcMap, dispCtrl := true, toggleMeta := false }
  | 12 => { p with translate := setTranslate ibmpcMap, dispCtrl := true, toggleMeta := true }
  | 21 | 22 => { p with intensity := 1 }
  | 24 => { p with underline := 0 }
  | 25 => { p with blink := 0 }
  | 27 => { p with reverse := 0 }
  | 38 => { p with color := p.defColor &&& 0x0f ||| foreground p, underline := 1 }
  | 39 => { p with color := p.defColor &&& 0x0f ||| background p, underline := 0 }
  | 49 => { p with color := p.defColor &&& 0xf0 ||| foreground p }
  | n =>
    if 30 ≤ n ∧ n ≤ 37 then { p with color := colorTable.getD (n - 30).toNat 0 ||| background p }
    else if 40 ≤ n ∧ n ≤ 47 then { p with color := colorTable.getD (n - 40).toNat 0 <<< 4 ||| foreground p }
    else p

def parAt (p : Parser σ) (i : ℕ) : ℤ := p.par.getD i 0

/-- The parameters `par[0]` to `par[npar]`, in the order in which the loops over `npar` read them. -/
def pars (p : Parser σ) : List ℤ := (List.range (p.npar + 1)).map (parAt p)

def csi_m (p : Parser σ) : Parser σ := updateAttr ((pars p).foldl (fun p n => setGraphicRendition n p) p)

/-- `scrup_nr` and `scrdown_nr`: at least one line of the region stays. -/
def scrollCount (t b nr : ℤ) : ℤ := if b ≤ t + nr then b - t - 1 else nr

def scrup (t b nr : ℤ) (save : Bool) (p : Parser σ) : Outcome σ :=
  if p.height < b ∨ b ≤ t ∨ scrollCount t b nr < 1 then { parser := p, returned := true }
  else (tell (.scrollUp t b (scrollCount t b nr) save) p).andThen fun p =>
    tell (.putCharOffset p.videoEraseChar (p.width * scrollCount t b nr)
      (p.width * (b - scrollCount t b nr))) p

def scrdown (t b nr : ℤ) (p : Parser σ) : Outcome σ :=
  if p.height < b ∨ b ≤ t ∨ scrollCount t b nr < 1 then { parser := p, returned := true }
  else (tell (.scrollDown t b (scrollCount t b nr)) p).andThen fun p =>
    tell (.putCharOffset p.videoEraseChar (p.width * scrollCount t b nr) (t * p.width)) p

def insertChar (nr : ℤ) (p : Parser σ) : Outcome σ :=
  (tell (.shiftRow p.y p.x nr) p).andThen fun p => tell (.putCharAt p.videoEraseChar nr p.x p.y) p

def deleteChar (nr : ℤ) (p : Parser σ) : Outcome σ :=
  (tell (.shiftRow p.y (p.x + nr) (-nr)) p).andThen fun p =>
    tell (.putCharAt p.videoEraseChar nr (p.width - nr) p.y) p

/-- The count of `csi_at`, `csi_L`, `csi_P` and `csi_M`, compared with the room left as `unsigned int`. -/
def csiCount (vpar room : ℤ) : ℤ :=
  if toU32 room < toU32 vpar then toU32 room else if toU32 vpar = 0 then 1 else toU32 vpar

def csi_at (vpar : ℤ) (p : Parser σ) : Outcome σ := insertChar (csiCount vpar (p.width - p.x)) p
def csi_L (vpar : ℤ) (p : Parser σ) : Outcome σ := scrdown p.y p.bottom (csiCount vpar (p.height - p.y)) p
def csi_P (vpar : ℤ) (p : Parser σ) : Outcome σ := deleteChar (csiCount vpar (p.width - p.x)) p
def csi_M (vpar : ℤ) (p : Parser σ) : Outcome σ :=
  scrup p.y p.bottom (csiCount vpar (p.height - p.y)) false p

def setPrivateMode (onOff : Bool) (n : ℤ) (p : Parser σ) : Outcome σ :=
  match n with
  | 5 => if p.decscnm ≠ onOff then stay (updateAttr { p with decscnm := onOff }) else stay p
  | 6 => gotoxay 0 0 { p with decom := onOff }
  | 7 => stay { p with decawm := onOff }
  | 25 => stay { p with deccm := onOff }
  | _ => stay p

def setAnsiMode (onOff : Bool) (n : ℤ) (p : Parser σ) : Outcome σ :=
  match n with
  | 3 => stay { p with dispCtrl := onOff }
  | 4 => stay { p with decim := onOff }
  | _ => stay p

def setMode (onOff : Bool) (p : Parser σ) : Outcome σ :=
  (pars p).foldl
    (fun o n => o.andThen (if p.ques then setPrivateMode onOff n else setAnsiMode onOff n)) (stay p)

def settermCommand (p : Parser σ) : Parser σ :=
  match parAt p 0 with
  | 8 => updateAttr (defaultAttr { p with defColor := p.color })
  | _ => p

end Xperimentum.Terminal.LinuxParser
