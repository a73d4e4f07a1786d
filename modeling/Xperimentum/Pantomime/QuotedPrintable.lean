import Xperimentum.Pantomime.Data

/-! The content encodings: quoted-printable and base64. -/

namespace Xperimentum.Pantomime

def hexDigit (n : UInt8) : UInt8 := if n < 10 then n + 48 else n + 55

def escaped (c : UInt8) : Bytes := [61, hexDigit (c >>> 4), hexDigit (c &&& 15)]

/-- `line` is the length of the line so far. -/
@[grind =] def encodeQuotedPrintable (theLength : ℕ) (inHeader : Bool) : ℕ → Bytes → Bytes
  | _, [] => []
  | line, c :: b =>
    let soft := theLength ≠ 0 ∧ theLength ≤ line
    let line := if soft then 0 else line
    (if soft then [61, 10] else []) ++
      if (c = 32 ∨ c = 9) ∧ b.head? = some 10 then escaped c ++ encodeQuotedPrintable theLength inHeader (line + 3) b
      else if !inHeader && (c = 10 || c = 32 || c = 9 || 33 ≤ c && c ≤ 60 || 62 ≤ c && c ≤ 126) then
        c :: encodeQuotedPrintable theLength inHeader (if c = 10 then 0 else line + 1) b
      else if inHeader && isAlpha c then c :: encodeQuotedPrintable theLength inHeader (line + 1) b
      else if inHeader && c = 32 then 95 :: encodeQuotedPrintable theLength inHeader line b
      else escaped c ++ encodeQuotedPrintable theLength inHeader (line + 3) b

def unhex (c : UInt8) : Option UInt8 :=
  if 65 ≤ c && c ≤ 70 then some (c - 55)
  else if 97 ≤ c && c ≤ 102 then some (c - 87)
  else if 48 ≤ c && c ≤ 57 then some (c - 48)
  else none

/-- Nothing is returned where the exception for invalid hexadecimal data is raised. -/
@[grind =] def decodeQuotedPrintable (inHeader : Bool) : Bytes → Option Bytes
  | [] => some []
  | [c] => if c = 61 then some [] else if inHeader && c = 95 then some [32] else some [c]
  | [c, d] =>
    if c = 61 ∧ d = 10 then some []
    else (decodeQuotedPrintable inHeader [d]).map ((if inHeader && c = 95 then 32 else c) :: ·)
  | c :: d :: e :: b =>
    if c = 61 then
      if d = 10 then decodeQuotedPrintable inHeader (e :: b)
      else (unhex d).bind fun high => (unhex e).bind fun low =>
        (decodeQuotedPrintable inHeader b).map ((16 * high + low) :: ·)
    else (decodeQuotedPrintable inHeader (d :: e :: b)).map ((if inHeader && c = 95 then 32 else c) :: ·)

def getValue (c : UInt8) : ℤ :=
  if 65 ≤ c ∧ c ≤ 90 then c.toNat - 65
  else if 97 ≤ c ∧ c ≤ 122 then c.toNat - 71
  else if 48 ≤ c ∧ c ≤ 57 then c.toNat + 4
  else if c = 43 then 62
  else if c = 47 then 63
  else if c = 61 then 0
  else -1

/-- Four characters at a time; a last group that is not complete is read with what is behind the data. -/
@[grind =] def decodeBlocks : Bytes → Option Bytes
  | [] => some []
  | a :: b :: c :: d :: rest =>
    let block := getValue a * 2 ^ 18 + getValue b * 2 ^ 12 + getValue c * 2 ^ 6 + getValue d
    (decodeBlocks rest).map fun raw =>
      UInt8.ofNat (block / 2 ^ 16 % 256).toNat :: UInt8.ofNat (block / 2 ^ 8 % 256).toNat ::
        UInt8.ofNat (block % 256).toNat :: raw
  | _ => none

def padLength (b : Bytes) : ℕ := (b.reverse.takeWhile (· = 61)).length

/-- Data of padding only is read in front of its first byte, and with more padding than there are bytes to decode the
memory for a negative length is written to. -/
def decodeBase64 (b : Bytes) : Option Bytes :=
  if b = [] then some []
  else if b.all (· = 61) || b.length * 6 / 8 < padLength b then none
  else (decodeBlocks b).map fun raw => raw.take (b.length * 6 / 8 - padLength b)

end Xperimentum.Pantomime
