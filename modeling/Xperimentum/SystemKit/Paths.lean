import Mathlib.Data.List.DropRight
import Mathlib.Tactic

/-! Path strings as `NSString` cuts and joins them, in its default mode, where both kinds of slash separate. -/

namespace Xperimentum.SystemKit

abbrev Path := List Char

namespace Path

def pathSepMember (c : Char) : Bool := c == '/' || c == '\\'

def isDriveLetter (c : Char) : Bool := ('A' ≤ c && c ≤ 'Z') || ('a' ≤ c && c ≤ 'z')

/-- The end of the first separator at or behind the position. -/
def separatorEnd (s : Path) (i : ℕ) : Option ℕ := ((s.drop i).findIdx? pathSepMember).map (i + · + 1)

/-- The length of `//host/share/`, where the path begins with one. -/
def shareRoot (s : Path) : Option ℕ := do
  let pos ← s.separatorEnd 2
  let share ← s.separatorEnd pos
  if 4 < s.length ∧ (s[1]?.any pathSepMember) ∧ 3 < pos ∧ pos < s.length ∧ pos + 1 < share then some share else none

def rootOf (s : Path) : ℕ :=
  match s with
  | [] => 0
  | '~' :: _ => (s.separatorEnd 1).getD s.length
  | c :: s' =>
    if pathSepMember c then s.shareRoot.getD 1
    else if isDriveLetter c ∧ s'.head? = some ':' then (if s'[1]?.any pathSepMember then 3 else 2)
    else 0

def pathComponents (s : Path) : List Path :=
  let root := s.rootOf
  (if 0 < root then [s.take root] else []) ++ ((s.drop root).splitOnP pathSepMember).filter (· ≠ []) ++
    if root < s.length ∧ s.getLast?.any pathSepMember then [['/']] else []

/-- Each run of separators behind the first character becomes one slash, the first character's own run too. -/
def squeeze : List Char → List Char
  | c :: d :: s =>
    match squeeze (d :: s) with
    | [] => [c]
    | d' :: t =>
      if pathSepMember d' then (if pathSepMember c then '/' :: t else c :: '/' :: t) else c :: d' :: t
  | s => s

/-- Separators behind the root are taken off the end, and runs of them made one. -/
def trim (root : ℕ) (buf : List Char) : Path :=
  let trimmed := buf.take (root + 1) ++ (buf.drop (root + 1)).rdropWhile pathSepMember
  trimmed.take root ++ squeeze (trimmed.drop root)

/-- How much of a component stands for its root and is left out. -/
def rootToStrip (s : Path) : ℕ :=
  match s with
  | [] => 0
  | c :: _ =>
    if c = '~' then 0
    else if 1 < s.rootOf ∧ pathSepMember c then ((s.take s.rootOf).takeWhile pathSepMember).length
    else s.rootOf

/-- The path in front of the component, ending in one separator except behind a drive. -/
def opened (s component : Path) : Path :=
  let root := component.rootToStrip
  if s.length = 2 ∧ s[1]? = some ':' ∧ s.head?.any isDriveLetter ∧
      ¬(0 < root ∧ component[root - 1]?.any pathSepMember) then s
  else s.rdropWhile pathSepMember ++ ['/']

def stringByAppendingPathComponent (s component : Path) : Path :=
  match s with
  | [] => trim component.rootOf component
  | _ :: _ => trim s.rootOf (s.opened component ++ component.drop component.rootToStrip)

/-- The paths of the components, each with all in front of it. -/
def componentPaths (absolutePath : Path) : List Path :=
  (absolutePath.pathComponents.scanl stringByAppendingPathComponent []).tail

end Path

end Xperimentum.SystemKit
