import Xperimentum.Lib.Lines
import Xperimentum.Workspace.Communicator

/-! The Workspace's side of a file operation: what `readInput:` makes of the bytes of the pipe. -/

namespace Xperimentum.Workspace

open Xperimentum.Lib.Lines Xperimentum.Lib.Utf8 ProblemType

inductive OperationState
  | prepare
  | running
  | paused
  | alert
  | completed
  | stopping
  | stopped
  deriving DecidableEq

structure Alert where
  problem : ProblemType
  problemDesc : Text
  problemSolutionDesc : String
  solutions : List String

structure FileMover where
  target : Text
  message : Text
  currFile : Text
  currSourceDir : Text
  currTargetDir : Text
  numberOfFiles : UInt64
  numberOfFilesDone : UInt64
  totalBatchSize : UInt64
  doneBatchSize : UInt64
  isSizing : Bool
  state : OperationState
  alerts : List Alert

namespace FileMover

/-! Problems. -/

def problemDesc (m : FileMover) : ProblemType → Text
  | readError => m.currSourceDir ++ '/' :: m.currFile ++ " is not readable".toList
  | writeError => m.target ++ '/' :: m.currFile ++ " is not writable".toList
  | deleteError => m.currSourceDir ++ '/' :: m.currFile ++ " is not deletable".toList
  | moveError => m.currSourceDir ++ '/' :: m.currFile ++ " is not moveable".toList
  | symlinkEncountered => m.currSourceDir ++ '/' :: m.currFile ++ " is a symbolic link".toList
  | symlinkTargetNotExist =>
    "Symlink ".toList ++ m.currSourceDir ++ '/' :: m.currFile ++ " points to file wich doesn't exist".toList
  | attributesUnchangeable =>
    "Attributes of ".toList ++ m.target ++ '/' :: m.currFile ++ " is not changeable".toList
  | fileExists => m.target ++ '/' :: m.currFile ++ " already exists".toList
  | unknownFile => "File ".toList ++ m.currSourceDir ++ '/' :: m.currFile ++ " doesn't exist or not unsupported".toList

def problemSolutionDesc : ProblemType → String
  | symlinkEncountered =>
    "You can create new link, skip this link, copy the original, or stop the entire opertaion"
  | symlinkTargetNotExist => "You can skip this file, make new link, or stop the entire operation"
  | fileExists =>
    "You can skip this file to proceed with operation or ovewrite existig file with the new one"
  | unknownFile => "You can skip this file, or stop the entire operation"
  | _ => "You can skip this file to proceed with operation."

def solutions : ProblemType → List String
  | symlinkEncountered => ["Copy", "Skip", "New Link"]
  | symlinkTargetNotExist => ["Skip", "New Link"]
  | fileExists => ["Overwrite", "Skip"]
  | _ => ["Skip"]

def report (m : FileMover) (p : ProblemType) : FileMover :=
  { m with
    state := .alert
    alerts := m.alerts ++ [⟨p, m.problemDesc p, problemSolutionDesc p, solutions p⟩] }

/-! One line. -/

/-- The first of the character's UTF-16 units. -/
def characterAtIndex0 (c : Char) : ℕ :=
  if c.toNat < 0x10000 then c.toNat else 0xd800 + (c.toNat - 0x10000) / 0x400

/-- The unit is narrowed to a `char`. -/
def msgType (c : Char) : Char := Char.ofNat (characterAtIndex0 c % 256)

def isSpace (c : Char) : Bool := c = ' ' || '\t' ≤ c && c ≤ '\r'

def unsigned (negative : Bool) (digits : Text) : Option UInt64 :=
  let n := digits.foldl (fun n c => 10 * n + (c.toNat - '0'.toNat)) 0
  if digits = [] then none
  else if 2 ^ 64 ≤ n then some (UInt64.ofNat (2 ^ 64 - 1))
  else some (if negative then 0 - UInt64.ofNat n else UInt64.ofNat n)

/-- `sscanf` with `%llu`. -/
def scanUnsigned (arg : Text) : Option UInt64 :=
  match (Communicator.cString arg).dropWhile isSpace with
  | '-' :: t => unsigned true (t.takeWhile Char.isDigit)
  | '+' :: t => unsigned false (t.takeWhile Char.isDigit)
  | t => unsigned false (t.takeWhile Char.isDigit)

def finished (m : FileMover) (message : Text) : FileMover :=
  { m with
    message := message, currFile := [], currSourceDir := [], currTargetDir := [],
    numberOfFilesDone := 0, doneBatchSize := 0 }

def fileStarted (m : FileMover) (message currFile currSourceDir currTargetDir : Text) : FileMover :=
  { m with
    message := message, currFile := currFile, currSourceDir := currSourceDir, currTargetDir := currTargetDir,
    numberOfFilesDone := if m.numberOfFiles > 0 then m.numberOfFilesDone + 1 else m.numberOfFilesDone
    state := if !m.isSizing ∧ currFile = [] then .completed else m.state }

def advanced (m : FileMover) (arg : Text) : FileMover :=
  match scanUnsigned arg with
  | some advance => { m with doneBatchSize := m.doneBatchSize + advance }
  | none => m

def queued (m : FileMover) (qType : Char) (isIncrement : Bool) (digits : Text) : FileMover :=
  match msgType qType, scanUnsigned digits with
  | 'F', some files_count =>
    { m with numberOfFiles := if isIncrement then m.numberOfFiles + files_count else files_count }
  | 'S', some batch_size =>
    { m with totalBatchSize := if isIncrement then m.totalBatchSize + batch_size else batch_size }
  | _, _ => m

/-- `none` is the exception that `characterAtIndex:` raises for an empty string. -/
def handle (m : FileMover) (line : Text) : Option FileMover :=
  match parts (· = '\t') line with
  | (c :: _) :: args =>
    match msgType c, args with
    | '0', message :: _ => some (m.finished message)
    | '1', message :: _ => some (m.finished message)
    | 'F', message :: currFile :: currSourceDir :: currTargetDir :: _ =>
      some (m.fileStarted message currFile currSourceDir currTargetDir)
    | 'B', arg :: _ => some (m.advanced arg)
    | 'Q', [] :: _ :: _ => none
    | 'Q', _ :: _ :: [] :: _ => none
    | 'Q', (qType :: _) :: digits :: (sign :: _) :: _ => some (m.queued qType (characterAtIndex0 sign = 43) digits)
    | 'Q', [qType :: _, digits] => some (m.queued qType false digits)
    | 'R', _ => some (m.report readError)
    | 'W', _ => some (m.report writeError)
    | 'M', _ => some (m.report moveError)
    | 'S', _ => some (m.report symlinkEncountered)
    | 'D', _ => some (m.report deleteError)
    | 'A', _ => some (m.report attributesUnchangeable)
    | 'E', _ => some (m.report fileExists)
    | 'U', _ => some (m.report unknownFile)
    | 'T', _ => some (m.report symlinkTargetNotExist)
    | _, _ => some m
  | _ => none

/-! One piece of the pipe's bytes. -/

def fixBOM : Bytes → Bytes
  | 0xef :: 0xbb :: 0xbf :: b => b
  | b => b

/-- `initWithBytes:` and the initialiser behind it take one byte order mark each. -/
def initWithData (data : Bytes) : Option Text := decode (fixBOM (fixBOM data))

section Reassembly

variable {α : Type*} (isNewline : α → Bool) (units : α → ℕ) (truncatedLine input : List α)

/-- The lines of an input, of which the first continues the remembered one. -/
def assembled : List (List α) := (parts isNewline input).modifyHead (truncatedLine ++ ·)

def received : List (List α) := (assembled isNewline truncatedLine input).filter (· ≠ [])

def isTruncated : Bool := 1 < (input.map units).sum && input.getLast?.any fun c => !isNewline c

def remembered : List α :=
  if isTruncated isNewline units input then (assembled isNewline truncatedLine input).getLast?.getD [] else []

end Reassembly

def isNewline (c : Char) : Bool := c = '\n'

/-- The length of a character in an `NSString`. -/
def units (c : Char) : ℕ := if c.toNat < 0x10000 then 1 else 2

/-- The operation and its truncated line. -/
def readInput (m : FileMover × Text) (data : Bytes) : Option (FileMover × Text) :=
  match initWithData data with
  | none => some m
  | some input =>
    ((received isNewline m.2 input).foldlM handle m.1).map fun m' => (m', remembered isNewline units m.2 input)

end FileMover

end Xperimentum.Workspace
