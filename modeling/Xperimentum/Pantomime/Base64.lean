import Xperimentum.Lib.Memory
import Xperimentum.Pantomime.QuotedPrintable

/-! The memory that the base64 coders read and write. -/

namespace Xperimentum.Pantomime

open Lib.Int32 Lib.Memory Lib.Partial

def basis64 : Bytes := ascii "ABCDEFGHIJKLMNOPQRSTUVWXYZabcdefghijklmnopqrstuvwxyz0123456789+/"

def base64Char (n : UInt8) : UInt8 := basis64.getD (n &&& 0x3f).toNat 0

/-- `theLength` is an `unsigned`. -/
def nb64Chunk (a b c : UInt8) (theLength : ℕ) : Bytes :=
  if 3 ≤ theLength then
    [base64Char (a >>> 2), base64Char ((a &&& 3) <<< 4 ||| (b &&& 0xf0) >>> 4),
      base64Char ((b &&& 0xf) <<< 2 ||| (c &&& 0xc0) >>> 6), base64Char c]
  else if theLength = 2 then
    [base64Char (a >>> 2), base64Char ((a &&& 3) <<< 4 ||| (b &&& 0xf0) >>> 4), base64Char ((b &&& 0xf) <<< 2), 61]
  else [base64Char (a >>> 2), base64Char ((a &&& 3) <<< 4), 61, 61]

structure Output where
  block : Bytes
  outBytesPtr : ℤ
  wordCounter : ℕ

def Output.put (o : Output) (text : Bytes) : Option Output := do
  let block ← move o.block o.outBytesPtr text 0 text.length
  pure { o with block := block, outBytesPtr := o.outBytesPtr + text.length }

def putChunk (theLength : ℕ) (chunk : Bytes) (o : Output) : Option Output := do
  let o ← o.put chunk
  if theLength ≠ 0 ∧ o.wordCounter + 1 = theLength / 4 then Output.put { o with wordCounter := 0 } [10]
  else pure { o with wordCounter := o.wordCounter + 1 }

def putChunks (theLength : ℕ) : Bytes → Output → Option Output
  | a :: b :: c :: rest, o => do
    let o ← putChunk theLength (nb64Chunk a b c ((rest.length + 3) % 2 ^ 32)) o
    putChunks theLength rest o
  | [a, b], o => putChunk theLength (nb64Chunk a b 0 2) o
  | [a], o => putChunk theLength (nb64Chunk a 0 0 1) o
  | [], o => pure o

def encodeBase64 (theLength : ℕ) (inBytes : Bytes) : Option Bytes := do
  let o ← putChunks theLength inBytes ⟨List.replicate (inBytes.length * 2) 0, 0, 0⟩
  pure (o.block.take o.outBytesPtr.toNat)

/-- The bytes from index `i - 1` down. -/
@[grind =] def countPad (bytes : Bytes) : ℕ → Option ℕ
  | 0 => none
  | i + 1 => do
    let c ← bytes[i]?
    if c = 61 then (countPad bytes i).map (· + 1) else pure 0

/-- A byte that has not been written yet is `none`. -/
abbrev Raw := List (Option UInt8)

/-- The order of two numbers once they are unsigned: negative ones are behind all others. -/
def unsignedLt (m n : ℤ) : Bool := if m < 0 ↔ n < 0 then m < n else n < 0

def blockByte (block : ℤ) (j : ℕ) : UInt8 := UInt8.ofNat (block / 2 ^ (8 * (2 - j)) % 256).toNat

def putBlock (length rawIndex block : ℤ) (raw : Raw) : Option Raw :=
  ((List.range 3).takeWhile fun (j : ℕ) => unsignedLt (rawIndex + j) length).foldlM
    (fun raw j => update (fun _ => some (blockByte block j)) raw (rawIndex + j) 1) raw

@[grind =] def putBlocks (length : ℤ) : Bytes → ℤ → Raw → Option Raw
  | a :: b :: c :: d :: rest, rawIndex, raw => do
    let block := getValue a * 2 ^ 18 + getValue b * 2 ^ 12 + getValue c * 2 ^ 6 + getValue d
    let raw ← putBlock length rawIndex block raw
    putBlocks length rest (wrap32 (rawIndex + 3)) raw
  | [], _, raw => pure raw
  | _, _, _ => none

/-- No memory is allocated for a negative length. -/
def decodeInto (bytes : Bytes) : Option Raw :=
  if bytes = [] then pure []
  else do
    let pad ← countPad bytes bytes.length
    let length : ℤ := bytes.length * 6 / 8 - pad
    putBlocks length bytes 0 (List.replicate length.toNat none)

/-- The data that is returned, where all of it has been written. -/
def decodedBytes (bytes : Bytes) : Option Bytes := (decodeInto bytes).bind fun raw => raw.mapM id

def removeLineFeeds (bytes : Bytes) : Bytes := bytes.filter (· ≠ 10)

end Xperimentum.Pantomime
