import Mathlib.Data.UInt
import Mathlib.Tactic
import Xperimentum.Workspace.Communicator

/-! The batch size that the `Sizer` computes, and the byte advances that a copy without problems reports. -/

namespace Xperimentum.Workspace

open OperationType

/-- The contents of a directory in the order they are listed. -/
inductive Contents
  | empty
  | regular (name : Text) (fileSize : UInt64) (rest : Contents)
  | directory (name : Text) (fileSize : UInt64) (contents rest : Contents)

inductive Entry
  | regular (fileSize : UInt64)
  | directory (fileSize : UInt64) (contents : Contents)

def Contents.lookup (name : Text) : Contents → Option Entry
  | empty => none
  | regular n fileSize rest => if n = name then some (.regular fileSize) else rest.lookup name
  | directory n fileSize contents rest => if n = name then some (.directory fileSize contents) else rest.lookup name

def appendingPathComponent (path name : Text) : Text :=
  if path = [] then name else if path.getLast? = some '/' then path ++ name else path ++ '/' :: name

/-! ### The Sizer -/

/-- The batch size, the number of files and the calls of the communicator. -/
structure Sizes where
  batchSize : UInt64 := 0
  filecount : UInt64 := 0
  calls : List Communicator.Call := []

def Sizes.show (s : Sizes) (name dir : Text) : Sizes :=
  { s with calls := s.calls ++ [.showProcessingFilename name dir [] 0 sizingOp] }

/-- Files that are deleted have no size. -/
def Sizes.file (s : Sizes) (opType : OperationType) (fileSize : UInt64) : Sizes :=
  { s with batchSize := if opType ≠ deleteOp then s.batchSize + fileSize else s.batchSize, filecount := s.filecount + 1 }

def Sizes.counted (s : Sizes) : Sizes := { s with filecount := s.filecount + 1 }

/-- `calculateBatchSizeInDirectory:operationType:communicator:`. -/
def calculateBatchSizeInDirectory (opType : OperationType) : Text → Contents → Sizes → Sizes
  | _, .empty, s => s
  | dir, .regular name fileSize rest, s =>
    calculateBatchSizeInDirectory opType dir rest (((s.show name dir).file opType fileSize).counted)
  | dir, .directory name _ contents rest, s =>
    calculateBatchSizeInDirectory opType dir rest
      (calculateBatchSizeInDirectory opType (appendingPathComponent dir name) contents (s.show name dir)).counted

/-- A name that is not there has no attributes, and counts as a file of no size. -/
def calculateBatchSize (opType : OperationType) (sourceDir : Text) (tree : Contents) (filenames : List Text) : Sizes :=
  if opType = linkOp then {}
  else
    filenames.foldl (fun s file =>
      let s := s.show file sourceDir
      match tree.lookup file with
      | some (.directory _ contents) =>
        calculateBatchSizeInDirectory opType (appendingPathComponent sourceDir file) contents s
      | some (.regular fileSize) => s.file opType fileSize
      | none => s.file opType 0) {}

/-! ### The copy -/

/-- What the calls of the system give for a path: whether there is something at it and whether that is a directory,
whether the calls succeed, and the results of `read` that are not zero, as unsigned numbers. -/
structure Environment where
  fileExists : Text → Option Bool
  createsDirectory : Text → Bool
  listsDirectory : Text → Bool
  createsFile : Text → Bool
  opens : Text → Bool
  changesMode : Text → Bool
  reads : Text → List UInt64

section Copy

variable (env : Environment) (opType : OperationType)

/-- A file that is there, or that cannot be made or opened, is a problem: no result. -/
def copyRegular (filename sourcePrefix targetPrefix : Text) (fileSize : UInt64) : Option (List Communicator.Call) :=
  let sourceFile := appendingPathComponent sourcePrefix filename
  let targetFile := appendingPathComponent targetPrefix filename
  let shown (progress : UInt64) : Communicator.Call :=
    .showProcessingFilename filename sourcePrefix targetPrefix progress opType
  if env.fileExists targetFile = none ∧ env.createsFile targetFile ∧ env.opens sourceFile ∧ env.opens targetFile ∧
      env.changesMode targetFile then
    let doneSize := (env.reads sourceFile).sum
    some ((env.reads sourceFile).map shown ++ [shown 0] ++
      if doneSize < fileSize then [shown (fileSize - doneSize)] else [])
  else none

/-- The directory that is made, and the calls for what is in it. -/
def copyDirectory (sourceDir targetDir : Text) (fileSize : UInt64) (contents : Option (List Communicator.Call)) :
    Option (List Communicator.Call) :=
  if (env.fileExists targetDir = some true ∨ env.fileExists targetDir = none ∧ env.createsDirectory targetDir) ∧
      env.listsDirectory sourceDir ∧ env.changesMode targetDir then
    contents.map fun calls => .showProcessingFilename [] sourceDir targetDir fileSize opType :: calls
  else none

/-- The calls of `CopyFile` in front of those for the kind of file. -/
def copyingFile (filename sourcePrefix targetPrefix : Text) (calls : Option (List Communicator.Call)) :
    Option (List Communicator.Call) :=
  calls.map fun calls => .showProcessingFilename filename sourcePrefix targetPrefix 0 opType :: calls

/-- `CopyFile` for everything in a directory. -/
def copyContents : Text → Text → Contents → Option (List Communicator.Call)
  | _, _, .empty => some []
  | sourceDir, targetDir, .regular name fileSize rest =>
    (copyingFile opType name sourceDir targetDir (copyRegular env opType name sourceDir targetDir fileSize)).bind
      fun calls => (copyContents sourceDir targetDir rest).map (calls ++ ·)
  | sourceDir, targetDir, .directory name fileSize contents rest =>
    (copyingFile opType name sourceDir targetDir
      (copyDirectory env opType (appendingPathComponent sourceDir name) (appendingPathComponent targetDir name) fileSize
        (copyContents (appendingPathComponent sourceDir name) (appendingPathComponent targetDir name) contents))).bind
      fun calls => (copyContents sourceDir targetDir rest).map (calls ++ ·)

/-- A name that is not there is a problem. -/
def copyFile (tree : Contents) (sourceDir targetDir filename : Text) : Option (List Communicator.Call) :=
  match tree.lookup filename with
  | none => none
  | some (.regular fileSize) =>
    copyingFile opType filename sourceDir targetDir (copyRegular env opType filename sourceDir targetDir fileSize)
  | some (.directory fileSize contents) =>
    copyingFile opType filename sourceDir targetDir
      (copyDirectory env opType (appendingPathComponent sourceDir filename) (appendingPathComponent targetDir filename)
        fileSize (copyContents env opType (appendingPathComponent sourceDir filename)
          (appendingPathComponent targetDir filename) contents))

/-- The calls of a copy in which no problem is reported and that is not stopped; otherwise no result. -/
def copyOperation (sourceDir : Text) (tree : Contents) (targetDir : Text) :
    List Text → Option (List Communicator.Call)
  | [] => some []
  | file :: files =>
    (copyFile env opType tree sourceDir targetDir file).bind fun calls =>
      (copyOperation sourceDir tree targetDir files).map (calls ++ ·)

end Copy

def Communicator.Call.advance : Communicator.Call → UInt64
  | .showProcessingFilename _ _ _ progress _ => progress
  | .finishOperation .. | .howToHandleProblem .. => 0

def advances (calls : List Communicator.Call) : UInt64 := (calls.map Communicator.Call.advance).sum

/-! ### What the copy reports that the Sizer does not count -/

/-- What a file is reported with in excess of its size: nothing, unless the results of `read` do not add up to at most
that. -/
def excess (env : Environment) (sourceFile : Text) (fileSize : UInt64) : UInt64 :=
  if (env.reads sourceFile).sum < fileSize then 0 else (env.reads sourceFile).sum - fileSize

/-- The sizes of the directories, and the excess of the files. -/
def Contents.uncounted (env : Environment) : Text → Contents → UInt64
  | _, .empty => 0
  | dir, .regular name fileSize rest => excess env (appendingPathComponent dir name) fileSize + rest.uncounted env dir
  | dir, .directory name fileSize contents rest =>
    fileSize + contents.uncounted env (appendingPathComponent dir name) + rest.uncounted env dir

def uncounted (env : Environment) (dir : Text) (tree : Contents) (file : Text) : UInt64 :=
  match tree.lookup file with
  | none => 0
  | some (.regular fileSize) => excess env (appendingPathComponent dir file) fileSize
  | some (.directory fileSize contents) => fileSize + contents.uncounted env (appendingPathComponent dir file)

def Contents.size : Contents → UInt64
  | empty => 0
  | regular _ fileSize rest => fileSize + rest.size
  | directory _ _ contents rest => contents.size + rest.size

def sizeOf (tree : Contents) (file : Text) : UInt64 :=
  match tree.lookup file with
  | none => 0
  | some (.regular fileSize) => fileSize
  | some (.directory _ contents) => contents.size

open scoped UInt64.CommRing

lemma batchSize_directory {opType : OperationType} (hop : opType ≠ deleteOp) (dir : Text) (contents : Contents) (s : Sizes) :
    (calculateBatchSizeInDirectory opType dir contents s).batchSize = s.batchSize + contents.size := by
  induction contents generalizing dir s with
  | empty => simp [calculateBatchSizeInDirectory, Contents.size]
  | regular name fileSize rest ih =>
    rw [calculateBatchSizeInDirectory, ih, Contents.size, ← add_assoc]
    simp [Sizes.counted, Sizes.file, Sizes.show, hop]
  | directory name fileSize contents rest ihc ih =>
    rw [calculateBatchSizeInDirectory, ih, Contents.size, ← add_assoc]
    simp only [Sizes.counted, ihc]
    rfl

lemma batchSize_files {opType : OperationType} (hop : opType ≠ deleteOp) (hlink : opType ≠ linkOp) (sourceDir : Text)
    (tree : Contents) (filenames : List Text) :
    (calculateBatchSize opType sourceDir tree filenames).batchSize = (filenames.map (sizeOf tree)).sum := by
  have hfold : ∀ s : Sizes, (filenames.foldl (fun s file =>
      let s := s.show file sourceDir
      match tree.lookup file with
      | some (.directory _ contents) =>
        calculateBatchSizeInDirectory opType (appendingPathComponent sourceDir file) contents s
      | some (.regular fileSize) => s.file opType fileSize
      | none => s.file opType 0) s).batchSize = s.batchSize + (filenames.map (sizeOf tree)).sum := by
    induction filenames with
    | nil => simp
    | cons file files ih =>
      intro s
      rw [List.foldl_cons, ih, List.map_cons, List.sum_cons, ← add_assoc]
      congr 1
      simp only [sizeOf]
      cases tree.lookup file with
      | none => simp [Sizes.file, Sizes.show, hop]
      | some entry =>
        cases entry with
        | regular fileSize => simp [Sizes.file, Sizes.show, hop]
        | directory fileSize contents => simp [batchSize_directory hop, Sizes.show]
  rw [calculateBatchSize, if_neg hlink, hfold]
  simp

section Advances

variable {env : Environment} {opType : OperationType} {calls : List Communicator.Call} {tree : Contents}
  {sourceDir targetDir : Text} {files : List Text}

lemma advances_append (a b : List Communicator.Call) : advances (a ++ b) = advances a + advances b := by
  rw [advances, List.map_append, List.sum_append]
  rfl

lemma advances_cons (call : Communicator.Call) (calls : List Communicator.Call) :
    advances (call :: calls) = call.advance + advances calls := List.sum_cons

lemma advances_copyingFile {filename sourcePrefix targetPrefix : Text} {inner : Option (List Communicator.Call)}
    (h : copyingFile opType filename sourcePrefix targetPrefix inner = some calls) :
    ∃ calls' ∈ inner, advances calls = advances calls' := by
  obtain ⟨calls', hcalls, rfl⟩ := Option.map_eq_some_iff.mp h
  exact ⟨calls', hcalls, by rw [advances_cons]; exact zero_add _⟩

/-- The reads and the remainder of a file. -/
lemma advances_copyRegular {filename sourcePrefix targetPrefix : Text} {fileSize : UInt64}
    (h : copyRegular env opType filename sourcePrefix targetPrefix fileSize = some calls) :
    advances calls = fileSize + excess env (appendingPathComponent sourcePrefix filename) fileSize := by
  simp only [copyRegular] at h
  split_ifs at h with hcan hless
  all_goals
    obtain rfl := Option.some.inj h
    have hreads : ∀ rs : List UInt64, advances (rs.map fun progress =>
        .showProcessingFilename filename sourcePrefix targetPrefix progress opType) = rs.sum := by
      intro rs
      induction rs with
      | nil => rfl
      | cons r rs ih => rw [List.map_cons, advances_cons, ih, List.sum_cons]; rfl
    simp only [advances_append, hreads, excess, hless, ↓reduceIte]
    simp [Communicator.Call.advance, advances]

lemma advances_copyDirectory {sourceDir targetDir : Text} {fileSize : UInt64}
    {inner : Option (List Communicator.Call)}
    (h : copyDirectory env opType sourceDir targetDir fileSize inner = some calls) :
    ∃ calls' ∈ inner, advances calls = fileSize + advances calls' := by
  rw [copyDirectory] at h
  split_ifs at h
  obtain ⟨calls', hcalls, rfl⟩ := Option.map_eq_some_iff.mp h
  exact ⟨calls', hcalls, advances_cons _ _⟩

/-- What is in a directory is reported with its size, and with what the Sizer does not count. -/
lemma advances_copyContents {sourceDir targetDir : Text} {contents : Contents}
    (h : copyContents env opType sourceDir targetDir contents = some calls) :
    advances calls = contents.size + contents.uncounted env sourceDir := by
  induction contents generalizing sourceDir targetDir calls with
  | empty =>
    obtain rfl := Option.some.inj h
    rfl
  | regular name fileSize rest ih =>
    obtain ⟨first, hfirst, h⟩ := Option.bind_eq_some_iff.mp h
    obtain ⟨others, hothers, rfl⟩ := Option.map_eq_some_iff.mp h
    obtain ⟨inner, hinner, hsame⟩ := advances_copyingFile hfirst
    rw [advances_append, hsame, advances_copyRegular hinner, ih hothers, Contents.size, Contents.uncounted]
    ring
  | directory name fileSize contents rest ihc ih =>
    obtain ⟨first, hfirst, h⟩ := Option.bind_eq_some_iff.mp h
    obtain ⟨others, hothers, rfl⟩ := Option.map_eq_some_iff.mp h
    obtain ⟨dir, hdir, hsame⟩ := advances_copyingFile hfirst
    obtain ⟨inner, hinner, hsize⟩ := advances_copyDirectory hdir
    rw [advances_append, hsame, hsize, ihc hinner, ih hothers, Contents.size, Contents.uncounted]
    ring

lemma advances_copyFile {tree : Contents} {sourceDir targetDir filename : Text}
    (h : copyFile env opType tree sourceDir targetDir filename = some calls) :
    advances calls = sizeOf tree filename + uncounted env sourceDir tree filename := by
  rw [copyFile] at h
  rw [sizeOf, uncounted]
  cases hlookup : tree.lookup filename with
  | none =>
    rw [hlookup] at h
    cases h
  | some entry =>
    rw [hlookup] at h
    cases entry with
    | regular fileSize =>
      obtain ⟨inner, hinner, hsame⟩ := advances_copyingFile h
      rw [hsame, advances_copyRegular hinner]
    | directory fileSize contents =>
      obtain ⟨dir, hdir, hsame⟩ := advances_copyingFile h
      obtain ⟨inner, hinner, hsize⟩ := advances_copyDirectory hdir
      rw [hsame, hsize, advances_copyContents hinner]
      ring

lemma advances_copyOperation {tree : Contents} {sourceDir targetDir : Text} {files : List Text}
    (h : copyOperation env opType sourceDir tree targetDir files = some calls) :
    advances calls = (files.map (sizeOf tree)).sum + (files.map (uncounted env sourceDir tree)).sum := by
  induction files generalizing calls with
  | nil =>
    obtain rfl := Option.some.inj h
    rfl
  | cons file files ih =>
    obtain ⟨first, hfirst, h⟩ := Option.bind_eq_some_iff.mp h
    obtain ⟨others, hothers, rfl⟩ := Option.map_eq_some_iff.mp h
    rw [advances_append, advances_copyFile hfirst, ih hothers]
    simp only [List.map_cons, List.sum_cons]
    ring

/-- The advances of a copy add up to the batch size exactly when the sizes of the directories that are copied, and
the excess of the files, add up to nothing. -/
theorem advances_iff (hcopy : copyOperation env copyOp sourceDir tree targetDir files = some calls) :
    advances calls = (calculateBatchSize copyOp sourceDir tree files).batchSize ↔
      (files.map (uncounted env sourceDir tree)).sum = 0 := by
  rw [advances_copyOperation hcopy, batchSize_files (by decide) (by decide)]
  exact add_eq_left

/-- A target in which nothing is there yet, and files of `reads` bytes. -/
def emptyTarget (reads : List UInt64) : Environment where
  fileExists := fun _ => none
  createsDirectory := fun _ => true
  listsDirectory := fun _ => true
  createsFile := fun _ => true
  opens := fun _ => true
  changesMode := fun _ => true
  reads := fun _ => reads

theorem advances_short_reads : ∃ calls, copyOperation (emptyTarget [2, 3]) copyOp ['s'] (.regular ['f'] 5 .empty) ['t']
    [['f']] = some calls ∧
      advances calls = (calculateBatchSize copyOp ['s'] (.regular ['f'] 5 .empty) [['f']]).batchSize := by
  obtain ⟨calls, hcalls⟩ : ∃ calls, copyOperation (emptyTarget [2, 3]) copyOp ['s'] (.regular ['f'] 5 .empty) ['t']
      [['f']] = some calls := ⟨_, rfl⟩
  exact ⟨calls, hcalls, (advances_iff hcalls).mpr (by decide)⟩

/-- The directory itself is reported with its size. -/
theorem directory_advances : ∃ calls,
    copyOperation (emptyTarget [3]) copyOp ['s'] (.directory ['d'] 4096 (.regular ['f'] 3 .empty) .empty) ['t']
      [['d']] = some calls ∧ advances calls = 4099 ∧
      (calculateBatchSize copyOp ['s'] (.directory ['d'] 4096 (.regular ['f'] 3 .empty) .empty) [['d']]).batchSize = 3 :=
  ⟨_, rfl, by decide, by decide⟩

end Advances

end Xperimentum.Workspace
