import Mathlib
import Xperimentum.Terminal.Parser

/-! `processByte:`, its control characters, the handler of each escape state and the printing of a
character, with the initialiser and `setTerminalScreenWidth:height:cursorY:`. -/

namespace Xperimentum.Terminal.LinuxParser

open Xperimentum.Lib.Int32 Xperimentum.Terminal.Charmaps

variable {σ : Type}

def lf (p : Parser σ) : Outcome σ :=
  if p.y + 1 = p.bottom then scrup p.top p.bottom 1 (decide (p.top = 0 ∧ p.bottom = p.height)) p
  else if p.y < p.height - 1 then tsGoto (setY (p.y + 1) p)
  else stay p

def ri (p : Parser σ) : Outcome σ :=
  if p.y = p.top then scrdown p.top p.bottom 1 p
  else if 0 < p.y then tsGoto (setY (p.y - 1) p)
  else stay p

def cr (p : Parser σ) : Outcome σ := tsGoto (setX 0 p)

def cursorReport (p : Parser σ) : Outcome σ :=
  tell (.sendCString ("\x1b[" ++ toString (p.y + if p.decom then p.top + 1 else 1) ++ ";" ++
    toString (p.x + 1) ++ "R")) p

def statusReport (p : Parser σ) : Outcome σ := tell (.sendCString "\x1b[0n") p

def respondID (p : Parser σ) : Outcome σ := tell (.sendCString "\x1b[?6c") p

def hasTabWord (x : ℤ) : Prop := 0 ≤ x / 32 ∧ x / 32 < 8

instance (x : ℤ) : Decidable (hasTabWord x) := inferInstanceAs (Decidable (_ ∧ _))

def tabWord (host : Host σ) (p : Parser σ) (x : ℤ) : ℕ :=
  if hasTabWord x then p.tabStop.getD (x / 32).toNat 0 else host.strayWord p (x / 32)

def storeTabWord (host : Host σ) (p : Parser σ) (x : ℤ) (word : ℕ) : Parser σ :=
  if hasTabWord x then { p with tabStop := p.tabStop.set (x / 32).toNat word }
  else host.strayStore p (x / 32) word

def tabBit (x : ℤ) : ℕ := (x % 32).toNat

def setTabStop (host : Host σ) (p : Parser σ) : Parser σ :=
  storeTabWord host p p.x (tabWord host p p.x ||| 1 <<< tabBit p.x)

def clearTabStop (host : Host σ) (p : Parser σ) : Parser σ :=
  storeTabWord host p p.x (tabWord host p p.x &&& (0xffffffff ^^^ 1 <<< tabBit p.x))

/-- `while (x < width - 1) { x++; if (tab_stop[x >> 5] & (1 << (x & 31))) break; }`, with the number of
columns left as the bound. -/
def nextTab (host : Host σ) (p : Parser σ) : ℕ → ℤ → ℤ
  | 0, x => x
  | n + 1, x =>
    if x < p.width - 1 then
      if (tabWord host p (x + 1)).testBit (tabBit (x + 1)) then x + 1 else nextTab host p n (x + 1)
    else x

def tab (host : Host σ) (p : Parser σ) : Outcome σ :=
  tsGoto (setX (nextTab host p (p.width - 1 - p.x).toNat p.x) p)

def bell (p : Parser σ) : Outcome σ :=
  if p.vcState = .titleBuf then tell (.setTitle p.titleBuf p.titleType) (setState .normal p)
  else stay p

def byteChar (c : UInt8) : Char := Char.ofNat c.toNat

def escState (host : Host σ) (c : UInt8) (p : Parser σ) : Outcome σ :=
  let p := setState .normal p
  match byteChar c with
  | '[' => stay (setState .square p)
  | ']' => stay (setState .nonstd p)
  | '%' => stay (setState .percent p)
  | 'E' => (cr p).andThen lf
  | 'M' => ri p
  | 'D' => lf p
  | 'H' => stay (setTabStop host p)
  | 'Z' => respondID p
  | '7' => stay (saveCur p)
  | '8' => restoreCur p
  | '(' => stay (setState .setG0 p)
  | ')' => stay (setState .setG1 p)
  | '#' => stay (setState .hash p)
  | 'c' => resetTerminal p
  | _ => stay p

def nonstdState (c : UInt8) (p : Parser σ) : Outcome σ :=
  match byteChar c with
  | '0' | '1' | '2' => stay { p with vcState := .titleSemi, titleType := c.toNat - 48 }
  | 'P' => stay (setState .palette p)
  | _ => stay (setState .normal p)

def titleSemiState (c : UInt8) (p : Parser σ) : Outcome σ :=
  if c.toNat = 59 then stay { p with vcState := .titleBuf, titleBuf := [] }
  else stay (setState .normal p)

def titleBufState (c : UInt8) (p : Parser σ) : Outcome σ :=
  if p.titleBuf.length = titleBufSize then stay (setState .normal p)
  else stay { p with titleBuf := p.titleBuf ++ [c] }

def setPar (i : ℕ) (n : ℤ) (p : Parser σ) : Parser σ := { p with par := p.par.set i n }

/-- `if (par[i]) par[i]--;` -/
def decrementPar (i : ℕ) (p : Parser σ) : Parser σ :=
  if parAt p i ≠ 0 then setPar i (wrap32 (parAt p i - 1)) p else p

/-- `if (!par[i]) par[i] = n;` -/
def defaultPar (i : ℕ) (n : ℤ) (p : Parser σ) : Parser σ :=
  if parAt p i = 0 then setPar i n p else p

def setScrollRegion (p : Parser σ) : Outcome σ :=
  let p := defaultPar 1 p.height (defaultPar 0 1 p)
  if parAt p 0 < parAt p 1 ∧ parAt p 1 ≤ p.height then
    gotoxay 0 0 { p with top := wrap32 (parAt p 0 - 1), bottom := parAt p 1 }
  else stay p

def clearTabs (host : Host σ) (p : Parser σ) : Parser σ :=
  if parAt p 0 = 0 then clearTabStop host p
  else if parAt p 0 = 3 then { p with tabStop := List.replicate 5 0 ++ p.tabStop.drop 5 }
  else p

/-- The control sequences that follow the `if (ques)` test. -/
def csiFinal (host : Host σ) (c : UInt8) (p : Parser σ) : Outcome σ :=
  match byteChar c with
  | 'G' | '`' => let p := decrementPar 0 p; gotoxy (parAt p 0) p.y p
  | 'A' => let p := defaultPar 0 1 p; gotoxy p.x (wrap32 (p.y - parAt p 0)) p
  | 'B' | 'e' => let p := defaultPar 0 1 p; gotoxy p.x (wrap32 (p.y + parAt p 0)) p
  | 'C' | 'a' => let p := defaultPar 0 1 p; gotoxy (wrap32 (p.x + parAt p 0)) p.y p
  | 'D' => let p := defaultPar 0 1 p; gotoxy (wrap32 (p.x - parAt p 0)) p.y p
  | 'E' => let p := defaultPar 0 1 p; gotoxy 0 (wrap32 (p.y + parAt p 0)) p
  | 'F' => let p := defaultPar 0 1 p; gotoxy 0 (wrap32 (p.y - parAt p 0)) p
  | 'd' => let p := decrementPar 0 p; gotoxay p.x (parAt p 0) p
  | 'H' | 'f' => let p := decrementPar 1 (decrementPar 0 p); gotoxay (parAt p 1) (parAt p 0) p
  | 'J' => csi_J (parAt p 0) p
  | 'K' => csi_K (parAt p 0) p
  | 'L' => csi_L (parAt p 0) p
  | 'M' => csi_M (parAt p 0) p
  | 'P' => csi_P (parAt p 0) p
  | 'c' => if parAt p 0 = 0 then respondID p else stay p
  | 'g' => stay (clearTabs host p)
  | 'm' => stay (csi_m p)
  | 'r' => setScrollRegion p
  | 's' => stay (saveCur p)
  | 'u' => restoreCur p
  | 'X' => csi_X (parAt p 0) p
  | '@' => csi_at (parAt p 0) p
  | ']' => stay (settermCommand p)
  | _ => stay p

def deviceReport (p : Parser σ) : Outcome σ :=
  if p.ques then stay p
  else if parAt p 0 = 5 then statusReport p
  else if parAt p 0 = 6 then cursorReport p
  else stay p

def gotparsState (host : Host σ) (c : UInt8) (p : Parser σ) : Outcome σ :=
  let p := setState .normal p
  match byteChar c with
  | 'h' => setMode true p
  | 'l' => setMode false p
  | 'n' => deviceReport p
  | _ => if p.ques then stay { p with ques := false } else csiFinal host c p

def getparsState (host : Host σ) (c : UInt8) (p : Parser σ) : Outcome σ :=
  if c.toNat = 59 ∧ p.npar < nparMax - 1 then stay { p with npar := p.npar + 1 }
  else if 48 ≤ c.toNat ∧ c.toNat ≤ 57 then
    stay (setPar p.npar (wrap32 (wrap32 (parAt p p.npar * 10) + (c.toNat - 48))) p)
  else gotparsState host c (setState .gotpars p)

def squareState (host : Host σ) (c : UInt8) (p : Parser σ) : Outcome σ :=
  let p := { p with par := List.replicate nparMax 0, npar := 0, vcState := .getpars }
  if c.toNat = 91 then stay (setState .funckey p)
  else
    let p := { p with ques := decide (c.toNat = 63) }
    if p.ques then stay p else getparsState host c p

def percentState (c : UInt8) (p : Parser σ) : Outcome σ :=
  match byteChar c with
  | '@' => stay { setState .normal p with utf := false }
  | 'G' | '8' => stay { setState .normal p with utf := true }
  | _ => stay (setState .normal p)

def designatedCharset (c : UInt8) (current : ℕ) : ℕ :=
  match byteChar c with
  | '0' => grafMap
  | 'B' => lat1Map
  | 'U' => ibmpcMap
  | 'K' => userMap
  | _ => current

def setG0State (c : UInt8) (p : Parser σ) : Outcome σ :=
  let p := { p with vcState := .normal, g0Charset := designatedCharset c p.g0Charset }
  stay (if p.charset = false then { p with translate := setTranslate p.g0Charset } else p)

def setG1State (c : UInt8) (p : Parser σ) : Outcome σ :=
  let p := { p with vcState := .normal, g1Charset := designatedCharset c p.g1Charset }
  stay (if p.charset = true then { p with translate := setTranslate p.g1Charset } else p)

def multiCellGlyph : ℕ := 0xfffe

def markedCells (charWidth : ℤ) (p : Parser σ) : ℤ :=
  if p.width < charWidth - 1 + p.x then p.width - p.x else charWidth - 1

def markCells (ch : ScreenChar) (count : ℤ) (p : Parser σ) : Outcome σ :=
  if 0 < count then
    tell (.putCharAt { ch with ch := multiCellGlyph } count p.x p.y) (setX (p.x + count) p)
  else stay p

def advance (ch : ScreenChar) (charWidth : ℤ) (p : Parser σ) : Outcome σ :=
  if p.x < p.width then
    let p := setX (p.x + 1) p
    (markCells ch (markedCells charWidth p) p).andThen tsGoto
  else stay p

def putCell (ch : ScreenChar) (p : Parser σ) : Outcome σ :=
  { parser := p, calls := [.putCharAt ch 1 p.x p.y], printed := [ch.ch] }

def putGlyph (host : Host σ) (ch : ScreenChar) (p : Parser σ) : Outcome σ :=
  let charWidth := relativeWidthOfCharacter host ch.ch
  ((if p.decim then tell (.shiftRow p.y p.x charWidth) p else stay p).andThen (putCell ch)).andThen
    (advance ch charWidth)

def autowrap (p : Parser σ) : Outcome σ :=
  if p.width ≤ p.x ∧ p.decawm then (cr p).andThen lf else stay p

/-- `PUTCH`: the `return` inside `lf` leaves `processByte:` before the character is put. -/
def putch (host : Host σ) (ch : ScreenChar) (p : Parser σ) : Outcome σ :=
  (autowrap p).andThen (putGlyph host ch)

def charOf (unich : ℕ) (p : Parser σ) : ScreenChar := ⟨unich % 65536, p.color % 256, attrByte p⟩

def ntohl (n : ℕ) : ℕ :=
  n % 256 <<< 24 ||| n / 256 % 256 <<< 16 ||| n / 65536 % 256 <<< 8 ||| n / 16777216 % 256

def setIconvState (cd : σ) (p : Parser σ) : Parser σ := { p with iconvState := some cd }

/-- The `do … while (in_size>0 && errno==E2BIG)` loop and the adjustment of the buffer after it. -/
def convert (host : Host σ) (ch : ScreenChar) (cd : σ) (inp : List UInt8) (p : Parser σ) : Outcome σ :=
  let r := host.iconv cd inp
  let rest := inp.drop (inp.length - r.inSize)
  let p := setIconvState r.descriptor p
  (match r.output with
    | some u => putch host { ch with ch := u % 65536 } (setUnich (ntohl u) p)
    | none => stay p).andThen fun p =>
  match hs : r.status with
  | .done => stay (setInputBuf rest p)
  | .einval => stay (setInputBuf rest p)
  | .eilseq =>
    (putch host { ch with ch := 0xfffd } p).andThen fun p => stay (setInputBuf (rest.drop 1) p)
  | .e2big => if rest = [] then stay (setInputBuf [] p) else convert host ch r.descriptor rest p
termination_by inp.length
decreasing_by
  have hlt := host.iconv_e2big cd inp hs
  rw [List.length_drop]
  omega

def metaByte (c : UInt8) (p : Parser σ) : UInt8 := if p.toggleMeta then c ||| 0x80 else c

def iconvInput (host : Host σ) (cd : σ) (c : UInt8) (p : Parser σ) : Outcome σ :=
  let buffer := (if p.inputBuf.length = inputBufSize then [] else p.inputBuf) ++ [metaByte c p]
  convert host (charOf 0 p) cd buffer (setInputBuf buffer p)

def putUnich (host : Host σ) (p : Parser σ) : Outcome σ := putch host (charOf p.unich p) p

def setPartial (count unich : ℕ) (p : Parser σ) : Parser σ := { p with utfCount := count, unich := unich }

def leadByte (c : ℕ) (p : Parser σ) : Parser σ :=
  if c &&& 0xe0 = 0xc0 then setPartial 1 (c &&& 0x1f) p
  else if c &&& 0xf0 = 0xe0 then setPartial 2 (c &&& 0x0f) p
  else if c &&& 0xf8 = 0xf0 then setPartial 3 (c &&& 0x07) p
  else if c &&& 0xfc = 0xf8 then setPartial 4 (c &&& 0x03) p
  else if c &&& 0xfe = 0xfc then setPartial 5 (c &&& 0x01) p
  else { p with utfCount := 0 }

def contByte (c : ℕ) (p : Parser σ) : Parser σ :=
  setPartial (p.utfCount - 1) ((p.unich <<< 6 ||| c &&& 0x3f) % 2 ^ 32) p

def utfByte (host : Host σ) (c : ℕ) (p : Parser σ) : Outcome σ :=
  if p.utfCount ≠ 0 ∧ c &&& 0xc0 = 0x80 then
    let p := contByte c p
    if p.utfCount ≠ 0 then stay p else putUnich host p
  else stay (leadByte c p)

def normalState (host : Host σ) (c : UInt8) (p : Parser σ) : Outcome σ :=
  let p := setState .normal p
  if p.utf ∧ 0x7f < c.toNat then utfByte host c.toNat p
  else
    match p.iconvState, decide (p.translate = 0) with
    | some cd, true => iconvInput host cd c p
    | _, _ => putUnich host (setUnich (translateMaps p.translate (metaByte c p).toNat) p)

def processState (host : Host σ) (c : UInt8) (p : Parser σ) : Outcome σ :=
  match p.vcState with
  | .esc => escState host c p
  | .nonstd => nonstdState c p
  | .titleSemi => titleSemiState c p
  | .titleBuf => titleBufState c p
  | .palette => stay (setState .normal p)
  | .square => squareState host c p
  | .getpars => getparsState host c p
  | .gotpars => gotparsState host c p
  | .percent => percentState c p
  | .funckey => stay (setState .normal p)
  | .hash => stay (setState .normal p)
  | .setG0 => setG0State c p
  | .setG1 => setG1State c p
  | .normal | .ignore => normalState host c p

def processByte (host : Host σ) (c : UInt8) (p : Parser σ) : Outcome σ :=
  match c.toNat with
  | 0 => stay p
  | 7 => bell p
  | 8 => if 0 < p.x then tsGoto (setX (p.x - 1) p) else stay p
  | 9 => tab host p
  | 10 | 11 | 12 => lf p
  | 13 => cr p
  | 14 => stay { p with charset := true, translate := setTranslate p.g1Charset, dispCtrl := true }
  | 15 => stay { p with charset := false, translate := setTranslate p.g0Charset, dispCtrl := false }
  | 24 | 26 => stay (setState .normal p)
  | 27 => stay (setState .esc p)
  | 127 => stay p
  | 155 => stay (setState .square p)
  | _ => processState host c p

def processBytes (host : Host σ) : List UInt8 → Parser σ → Outcome σ
  | [], p => stay p
  | c :: cs, p =>
    let o := processByte host c p
    let r := processBytes host cs o.parser
    { parser := r.parser, calls := o.calls ++ r.calls, printed := o.printed ++ r.printed }

def initWithTerminalScreen (width height : ℤ) (iconvState : Option σ) : Outcome σ :=
  (resetTerminal { width := width, height := height, color := 0xff, defColor := 0xff }).andThen fun p =>
    stay { p with iconvState := iconvState }

def setTerminalScreen (width height cursorY : ℤ) (p : Parser σ) : Parser σ :=
  let x := if width ≤ p.x then width - 1 else p.x
  let y := if height ≤ cursorY then height - 1 else cursorY
  { p with
    width := width, height := height, top := 0, bottom := height
    x := if x < 0 then 0 else x
    y := if y < 0 then 0 else y }

end Xperimentum.Terminal.LinuxParser
