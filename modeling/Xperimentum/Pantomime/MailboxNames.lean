import Xperimentum.Lib.UTF7
import Xperimentum.Pantomime.Data

/-! Modified UTF-7 of mailbox names. A name is its UTF-16 code units. -/

namespace Xperimentum.Pantomime.MailboxNames

open Lib

def isPrintable (ch : UInt16) : Bool := 32 ≤ ch && ch ≤ 126

/-- A run of characters that are not printable is encoded when it has come to its end. -/
def encodeRun (encode : List UInt16 → Bytes) (run : List UInt16) : Bytes := if run = [] then [] else encode run

@[grind =] def encodeParts (encode : List UInt16 → Bytes) : List UInt16 → List UInt16 → Bytes
  | run, [] => encodeRun encode run
  | run, ch :: s =>
    if isPrintable ch then encodeRun encode run ++ ch.toUInt8 :: encodeParts encode [] s
    else encodeParts encode (run ++ [ch]) s

/-- The second loop of `modifiedUTF7String`; it reads the byte behind the last one. -/
@[grind =] def modify (behind : UInt8) : Bool → Bytes → Bytes
  | escaped, [] => if escaped then [45] else []
  | escaped, c :: b =>
    if !escaped && c = 38 then 38 :: 45 :: modify behind escaped b
    else if !escaped && c = 43 then
      if b.headD behind = 45 then 43 :: modify behind escaped b else 38 :: modify behind true b
    else if escaped && c = 47 then 44 :: modify behind escaped b
    else if escaped && c = 45 then 45 :: modify behind false b
    else c :: modify behind escaped b

def modifiedUTF7String (encode : List UInt16 → Bytes) (behind : UInt8) (s : List UInt16) : List UInt16 :=
  let modifiedData := modify behind false (encodeParts encode [] s)
  if modifiedData.all (· < 128) then modifiedData.map UInt8.toUInt16 else s

@[grind =] def restore (lossy : UInt16 → Bytes) : Bool → List UInt16 → Bytes
  | _, [] => []
  | escaped, ch :: s =>
    if !escaped && ch = 38 then
      match s with
      | [] => [38]
      | next :: s' => if next ≠ 45 then 43 :: restore lossy true (next :: s') else 38 :: restore lossy escaped s'
    else if escaped && ch = 44 then 47 :: restore lossy escaped s
    else if escaped && ch = 45 then 45 :: restore lossy false s
    else (if ch < 128 then [ch.toUInt8] else lossy ch) ++ restore lossy escaped s

def stringFromModifiedUTF7 (lossy : UInt16 → Bytes) (s : List UInt16) : Option (List UInt16) :=
  UTF7.decode none (restore lossy false s)

end Xperimentum.Pantomime.MailboxNames
