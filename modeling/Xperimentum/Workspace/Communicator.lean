import Mathlib.Tactic
import Xperimentum.Lib.Utf8

/-! The tools' side of a file operation: the lines its `Communicator` prints, and the answers it reads. -/

namespace Xperimentum.Workspace

open Xperimentum.Lib.Utf8

abbrev Text := List Char

abbrev Bytes := List UInt8

inductive OperationType
  | sizingOp
  | copyOp
  | duplicateOp
  | moveOp
  | linkOp
  | deleteOp
  deriving DecidableEq

inductive ProblemType
  | readError
  | writeError
  | deleteError
  | moveError
  | symlinkEncountered
  | symlinkTargetNotExist
  | attributesUnchangeable
  | fileExists
  | unknownFile
  deriving DecidableEq

inductive ProblemSolution
  | skipFile
  | newLink
  | copyOriginal
  | ignoreProblem
  | overwriteFile
  deriving DecidableEq

open OperationType ProblemType ProblemSolution

structure Communicator where
  defaultAction : ProblemType → Option ProblemSolution
  lastOpType : OperationType
  sentFilename : Option Text
  fileProgress : UInt64
  makeCleanupOnStop : Bool

namespace Communicator

def init : Communicator where
  defaultAction := fun _ => none
  lastOpType := sizingOp
  sentFilename := none
  fileProgress := 0
  makeCleanupOnStop := true

/-- What `printf` prints of a C string. -/
def cString (t : Text) : Text := t.takeWhile (· ≠ '\x00')

def verb : OperationType → Text
  | sizingOp => "Computing size of ".toList
  | copyOp => "Copying ".toList
  | duplicateOp => "Duplicating ".toList
  | moveOp => "Moving ".toList
  | linkOp => "Linking ".toList
  | deleteOp => "Destroying ".toList

def opMessage (opType : OperationType) (filename : Text) : Text := verb opType ++ filename

def fileLine (opType : OperationType) (filename sourcePrefix targetPrefix : Text) : Text :=
  'F' :: '\t' :: cString (opMessage opType filename) ++ '\t' :: cString filename ++
    '\t' :: cString sourcePrefix ++ '\t' :: cString targetPrefix ++ ['\n']

def bytesLine (progress : UInt64) : Text := 'B' :: '\t' :: Nat.toDigits 10 progress.toNat ++ ['\n']

/-- A name that is `nil` is passed on like an empty one. -/
def showProcessingFilename (comm : Communicator) (filename sourcePrefix targetPrefix : Text) (progress : UInt64)
    (opType : OperationType) : Communicator × Text :=
  let sends := filename ≠ [] ∧ (comm.sentFilename ≠ some filename ∨ comm.lastOpType ≠ opType)
  let fileProgress := comm.fileProgress + progress
  ({ comm with
      sentFilename := if sends then some filename else comm.sentFilename
      lastOpType := if sends then opType else comm.lastOpType
      fileProgress := 0 },
    (if sends then fileLine opType filename sourcePrefix targetPrefix else []) ++
      if fileProgress ≠ 0 then bytesLine fileProgress else [])

def finishOperation (opName : Text) (isStopped : Bool) : Text :=
  if isStopped then '1' :: '\t' :: cString (opName ++ " Operation Stopped".toList) ++ ['\n']
  else '0' :: '\t' :: cString (opName ++ " Operation Completed".toList) ++ ['\n']

def letter : ProblemType → Char
  | readError => 'R'
  | writeError => 'W'
  | deleteError => 'D'
  | moveError => 'M'
  | symlinkEncountered => 'S'
  | symlinkTargetNotExist => 'T'
  | attributesUnchangeable => 'A'
  | fileExists => 'E'
  | unknownFile => 'U'

def solutionFor : ProblemType → Char → Option ProblemSolution
  | attributesUnchangeable, c => if c = 'i' then some ignoreProblem else none
  | symlinkEncountered, c =>
    if c = 's' then some skipFile else if c = 'n' then some newLink else if c = 'c' then some copyOriginal else none
  | symlinkTargetNotExist, c => if c = 's' then some skipFile else if c = 'n' then some newLink else none
  | fileExists, c => if c = 's' then some skipFile else if c = 'o' then some overwriteFile else none
  | _, c => if c = 's' then some skipFile else none

inductive Answer
  | once (solution : ProblemSolution)
  | always (solution : ProblemSolution)
  | stop

/-- A letter in upper case makes the solution the default one. -/
def answer (p : ProblemType) (c : Char) : Option Answer :=
  if c = 't' then some .stop
  else ((solutionFor p c).map .once).or ((solutionFor p c.toLower).map .always)

/-- The solution, which is `none` for the -1 behind a stop, and whether the operation is stopped. -/
def settled (comm : Communicator) (p : ProblemType) : Answer → Communicator × Option ProblemSolution × Bool
  | .once s => (comm, some s, false)
  | .always s => ({ comm with defaultAction := Function.update comm.defaultAction p (some s) }, some s, false)
  | .stop => (comm, none, true)

/-- The letters typed before one that is an answer are passed over; without an answer the call waits. -/
def howToHandleProblem (comm : Communicator) (p : ProblemType) (message : Text) (typed : List Char) :
    Communicator × Text × Option (Option ProblemSolution × Bool) :=
  let comm := { comm with makeCleanupOnStop := false }
  match comm.defaultAction p with
  | some s => (comm, [], some (some s, false))
  | none =>
    (match typed.findSome? (answer p) with
      | some a => (comm.settled p a).1
      | none => comm,
    letter p :: cString message ++ ['\n'],
    (typed.findSome? (answer p)).map fun a => (comm.settled p a).2)

inductive Call
  | showProcessingFilename (filename sourcePrefix targetPrefix : Text) (progress : UInt64) (opType : OperationType)
  | finishOperation (opName : Text) (isStopped : Bool)
  | howToHandleProblem (p : ProblemType) (message : Text) (typed : List Char)

def Call.fields : Call → List Text
  | .showProcessingFilename filename sourcePrefix targetPrefix _ _ => [filename, sourcePrefix, targetPrefix]
  | .finishOperation opName _ => [opName]
  | .howToHandleProblem _ message _ => [message]

def perform (comm : Communicator) : Call → Communicator × Text
  | .showProcessingFilename filename sourcePrefix targetPrefix progress opType =>
    comm.showProcessingFilename filename sourcePrefix targetPrefix progress opType
  | .finishOperation opName isStopped => (comm, finishOperation opName isStopped)
  | .howToHandleProblem p message typed =>
    ((comm.howToHandleProblem p message typed).1, (comm.howToHandleProblem p message typed).2.1)

def printed : Communicator → List Call → Text
  | _, [] => []
  | comm, call :: calls => (comm.perform call).2 ++ printed (comm.perform call).1 calls

def Clean (t : Text) : Prop := '\t' ∉ t ∧ '\n' ∉ t

end Communicator

/-- A rest of a text whose lines are complete and begin with a character of one byte, read from the start of a
line or from behind it. -/
def Lined : Bool → Text → Prop
  | atStart, [] => atStart
  | atStart, c :: t => (atStart → c.utf8Size = 1 ∧ c ≠ '\n') ∧ Lined (c = '\n') t

variable {b : Bool} {t u : Text} {c : Char}

lemma lined_append (ht : Lined b t) (hu : Lined true u) : Lined b (t ++ u) := by
  induction t generalizing b with
  | nil => cases b with
    | true => exact hu
    | false => exact absurd ht Bool.false_ne_true
  | cons c t ih => exact ⟨ht.1, ih ht.2⟩

lemma Lined.behind (h : Lined b (t ++ c :: u)) : Lined (c = '\n') u := by
  induction t generalizing b with
  | nil => exact h.2
  | cons d t ih => exact ih h.2

lemma Lined.ne_nil (h : Lined false t) : t ≠ [] := by
  rintro rfl
  exact Bool.false_ne_true h

lemma lined_line (hc : c.utf8Size = 1) (hne : c ≠ '\n') (ht : '\n' ∉ t) : Lined true (c :: t ++ ['\n']) := by
  refine ⟨fun _ => ⟨hc, hne⟩, ?_⟩
  rw [decide_eq_false hne]
  clear hc hne
  induction t with
  | nil => exact ⟨by simp, rfl⟩
  | cons d t ih =>
    simp only [List.mem_cons, not_or] at ht
    obtain ⟨hd, ht⟩ := ht
    refine ⟨by simp, ?_⟩
    rw [decide_eq_false (Ne.symm hd)]
    exact ih ht

namespace Communicator

lemma not_mem_cString (h : '\n' ∉ t) : '\n' ∉ cString t := by
  intro hm
  exact h ((List.takeWhile_prefix (fun c => decide (c ≠ '\x00'))).subset hm)

lemma not_mem_verb (opType : OperationType) : '\n' ∉ verb opType := by
  cases opType <;> decide

lemma not_mem_opMessage {opType : OperationType} (h : '\n' ∉ t) : '\n' ∉ opMessage opType t := by
  simp only [opMessage, List.mem_append, not_or]
  exact ⟨not_mem_verb opType, h⟩

lemma not_mem_toDigits (n : ℕ) : '\n' ∉ Nat.toDigits 10 n := by
  intro h
  have := Nat.isDigit_of_mem_toDigits (by decide) (by decide) h
  simp at this

lemma lined_fileLine {opType : OperationType} {filename sourcePrefix targetPrefix : Text} (hf : '\n' ∉ filename)
    (hs : '\n' ∉ sourcePrefix) (ht : '\n' ∉ targetPrefix) :
    Lined true (fileLine opType filename sourcePrefix targetPrefix) := by
  rw [fileLine]
  apply lined_line (by decide) (by decide)
  simp [not_mem_cString, not_mem_opMessage, hf, hs, ht]

lemma lined_bytesLine (progress : UInt64) : Lined true (bytesLine progress) := by
  rw [bytesLine]
  apply lined_line (by decide) (by decide)
  simp [not_mem_toDigits]

lemma lined_showProcessingFilename {comm : Communicator} {filename sourcePrefix targetPrefix : Text}
    {progress : UInt64} {opType : OperationType} (hf : '\n' ∉ filename) (hs : '\n' ∉ sourcePrefix)
    (ht : '\n' ∉ targetPrefix) :
    Lined true (comm.showProcessingFilename filename sourcePrefix targetPrefix progress opType).2 := by
  simp only [showProcessingFilename]
  apply lined_append
  · split
    · exact lined_fileLine hf hs ht
    · exact rfl
  · split
    · exact lined_bytesLine _
    · exact rfl

lemma lined_finishOperation {opName : Text} {isStopped : Bool} (h : '\n' ∉ opName) :
    Lined true (finishOperation opName isStopped) := by
  cases isStopped
  all_goals
    apply lined_line (by decide) (by decide)
    simp only [List.mem_cons, not_or]
    refine ⟨by decide, not_mem_cString ?_⟩
    simp only [List.mem_append, not_or]
    exact ⟨h, by decide⟩

lemma letter_size (p : ProblemType) : (letter p).utf8Size = 1 ∧ letter p ≠ '\n' := by
  cases p <;> decide

lemma lined_howToHandleProblem {comm : Communicator} {p : ProblemType} {message : Text} {typed : List Char}
    (h : '\n' ∉ message) : Lined true (comm.howToHandleProblem p message typed).2.1 := by
  simp only [howToHandleProblem]
  cases comm.defaultAction p with
  | some s => exact rfl
  | none => exact lined_line (letter_size p).1 (letter_size p).2 (not_mem_cString h)

lemma lined_perform (comm : Communicator) {call : Call} (h : ∀ t ∈ call.fields, Clean t) :
    Lined true (comm.perform call).2 := by
  cases call with
  | showProcessingFilename filename sourcePrefix targetPrefix progress opType =>
    simp only [Call.fields, List.forall_mem_cons] at h
    exact lined_showProcessingFilename h.1.2 h.2.1.2 h.2.2.1.2
  | finishOperation opName isStopped =>
    simp only [Call.fields, List.forall_mem_cons] at h
    exact lined_finishOperation h.1.2
  | howToHandleProblem p message typed =>
    simp only [Call.fields, List.forall_mem_cons] at h
    exact lined_howToHandleProblem h.1.2

lemma lined_printed (comm : Communicator) {calls : List Call} (h : ∀ call ∈ calls, ∀ t ∈ call.fields, Clean t) :
    Lined true (comm.printed calls) := by
  induction calls generalizing comm with
  | nil => rfl
  | cons call calls ih =>
    rw [List.forall_mem_cons] at h
    exact lined_append (lined_perform comm h.1) (ih _ h.2)

end Communicator

end Xperimentum.Workspace
