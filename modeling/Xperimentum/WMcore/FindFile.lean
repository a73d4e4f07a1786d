import Mathlib.Tactic

/-! The expansion of a path in two buffers of fixed size, and the search of a file along a list of paths. -/

namespace Xperimentum.WMcore.FindFile

/-- An access outside of a buffer, or a path that cannot be expanded. -/
inductive Failure
  | outside
  | nameTooLong
deriving DecidableEq

def nul : Char := Char.ofNat 0

/-- A buffer up to its `NUL`. -/
def string (buffer : List Char) : List Char := buffer.takeWhile (· ≠ nul)

def wstrlcpy (dst src : List Char) : List Char × ℕ :=
  let copied := src.take (dst.length - 1)
  (if dst = [] then dst else copied ++ nul :: dst.drop (copied.length + 1), src.length)

def wstrlcat (dst src : List Char) : List Char × ℕ :=
  let dlen := (string dst).length
  let copied := src.take (dst.length - dlen - 1)
  (if dlen = dst.length then dst else string dst ++ (copied ++ nul :: dst.drop (dlen + copied.length + 1)),
    dlen + src.length)

section Expansion

-- `PATH_MAX`, the environment and the home directories.
variable (pathMax : ℕ) (getenv : List Char → Option (List Char)) (home : List Char)
  (getuserhomedir : List Char → Option (List Char))

/-- A copy for which the buffer has no room is an error. -/
def copied (r : List Char × ℕ) : Except Failure (List Char) :=
  if pathMax + 2 ≤ r.2 then .error .nameTooLong else .ok r.1

def atMost (n : ℕ) : Except Failure Unit := if pathMax < n then .error .nameTooLong else .ok ()

def write (buffer : List Char) (i : ℕ) (c : Char) : Except Failure (List Char) :=
  if i < buffer.length then .ok (buffer.set i c) else .error .outside

/-- The second buffer holds a name. -/
def inside (j : ℕ) : Except Failure Unit := if j < pathMax + 2 then .ok () else .error .outside

def readName (stop : Char) : List Char → List Char → Except Failure (List Char × List Char)
  | [], name => do
    inside pathMax name.length
    pure (name, [])
  | c :: path, name =>
    if c = stop then do
      inside pathMax name.length
      pure (name, c :: path)
    else do
      atMost pathMax name.length
      inside pathMax name.length
      readName stop path (name ++ [c])

/-- The character in front of the rest of the path. -/
def before (closed : Bool) (name : List Char) : Char := if closed then ')' else name.getLastD '('

/-- The value, or what stands there for a variable that is not set. -/
def expandParenthesised (path buffer : List Char) (i : ℕ) : Except Failure (List Char × List Char × ℕ) := do
  let r ← readName pathMax ')' path []
  let closed := r.2.head? = some ')'
  match if closed then getenv r.1 else none with
  | some value =>
    atMost pathMax (i + value.length)
    let buffer ← copied pathMax (wstrlcat buffer value)
    pure (r.2.tail, buffer, i + value.length)
  | none =>
    let i := i + (r.1.length + 2)
    atMost pathMax i
    let buffer ← write buffer i nul
    let buffer ← copied pathMax (wstrlcat buffer ['$', '('])
    let buffer ← copied pathMax (wstrlcat buffer r.1)
    if before closed r.1 = ')' then
      atMost pathMax (i + 1)
      let buffer ← copied pathMax (wstrlcat buffer [')'])
      pure (r.2.tail, buffer, i + 1)
    else pure (r.2.tail, buffer, i)

def expandPlain (path buffer : List Char) (i : ℕ) : Except Failure (List Char × List Char × ℕ) := do
  let r ← readName pathMax '/' path []
  match getenv r.1 with
  | some value =>
    atMost pathMax (i + value.length)
    let buffer ← copied pathMax (wstrlcat buffer value)
    pure (r.2, buffer, i + value.length)
  | none =>
    atMost pathMax (i + (r.1.length + 1))
    let buffer ← copied pathMax (wstrlcat buffer ['$'])
    let buffer ← copied pathMax (wstrlcat buffer r.1)
    pure (r.2, buffer, i + (r.1.length + 1))

def expandVariable (path buffer : List Char) (i : ℕ) : Except Failure (List Char × List Char × ℕ) :=
  if path.head? = some '(' then expandParenthesised pathMax getenv path.tail buffer i
  else expandPlain pathMax getenv path buffer i

/-- A turn of the loop takes a character at least, so there are no more turns than characters. -/
def expandFrom : ℕ → List Char → List Char → ℕ → Except Failure (List Char × List Char)
  | 0, path, buffer, _ => .ok (path, buffer)
  | _ + 1, [], buffer, _ => .ok ([], buffer)
  | turns + 1, c :: path, buffer, i =>
    if pathMax < i then .ok (c :: path, buffer)
    else if c = '$' then do
      let r ← expandVariable pathMax getenv path buffer i
      expandFrom turns r.1 r.2.1 r.2.2
    else do
      let buffer ← write buffer i c
      expandFrom turns path buffer (i + 1)

def expandHome (path : List Char) : Except Failure (List Char × List Char) :=
  let buffer := List.replicate (pathMax + 2) nul
  if path.head? = some '~' then
    if path.tail.head? = some '/' ∨ path.tail = [] then do
      atMost pathMax home.length
      let buffer ← copied pathMax (wstrlcpy buffer home)
      pure (path.tail, buffer)
    else do
      let r ← readName pathMax '/' path.tail []
      match getuserhomedir r.1 with
      | none => .error .nameTooLong
      | some home =>
        let buffer ← copied pathMax (wstrlcat buffer home)
        pure (r.2, buffer)
  else pure (path, buffer)

def wexpandpath (path : List Char) : Except Failure (List Char) := do
  let r ← expandHome pathMax home getuserhomedir path
  let r ← expandFrom pathMax getenv r.1.length r.1 r.2 (string r.2).length
  if r.1 ≠ [] then .error .nameTooLong else pure (string r.2)

/-! The search of a file. -/

/-- The directory and the file in a buffer with room for both, a `/` and a `NUL`. -/
def candidate (dir file : List Char) : Except Failure (List Char) := do
  let size := dir.length + file.length
  let path := dir ++ List.replicate (file.length + 2) nul
  let path ← (match dir.getLast? with
    | none => .error .outside
    | some c => if c = '/' then .ok path else copied size (wstrlcat path ['/']))
  let path ← copied size (wstrlcat path file)
  pure (string path)

variable (access : List Char → Bool)

/-- The expanded path, if there is such a file. -/
def findExpanded (path : List Char) : Except Failure (Option (List Char)) :=
  match wexpandpath pathMax getenv home getuserhomedir path with
  | .error .outside => .error .outside
  | .error .nameTooLong => .ok none
  | .ok fullpath => .ok (if access fullpath then some fullpath else none)

/-- A turn of the loop takes a character at least. -/
def findFrom (file : List Char) : ℕ → List Char → Except Failure (Option (List Char))
  | 0, _ => .ok none
  | turns + 1, paths =>
    let tmp := paths.dropWhile (· = ':')
    if tmp = [] then .ok none
    else
      match candidate (tmp.takeWhile (· ≠ ':')) file with
      | .error .outside => .error .outside
      | .error .nameTooLong => .ok none
      | .ok path => do
        let found ← findExpanded pathMax getenv home getuserhomedir access path
        if found.isSome then .ok found else findFrom file turns (tmp.dropWhile (· ≠ ':'))

def wfindfile (paths file : Option (List Char)) : Except Failure (Option (List Char)) :=
  match file with
  | none => .ok none
  | some file =>
    if file.head? = some '/' ∨ file.head? = some '~' ∨ file.head? = some '$' ∨ paths = none ∨ paths = some [] then
      if access file then .ok (some file) else findExpanded pathMax getenv home getuserhomedir access file
    else findFrom pathMax getenv home getuserhomedir access file (paths.getD []).length (paths.getD [])

end Expansion

end Xperimentum.WMcore.FindFile
