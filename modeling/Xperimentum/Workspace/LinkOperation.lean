import Xperimentum.Lib.Partial
import Xperimentum.Workspace.CopyProgress

/-! Links to a list of files: what is there under their names, and what of it is gone when the operation has been
stopped. -/

namespace Xperimentum.Workspace.LinkOperation

open Lib.Partial OperationType ProblemType ProblemSolution

/-- What happens around one file: whether the operation is interrupted before it, the letters typed in answer to its
two problems, and whether the removal and the link succeed. -/
structure Turn where
  interrupted : Bool
  typed : List Char
  removes : Bool
  again : List Char
  links : Bool

/-- What the paths hold, and the history: the paths whose contents have been removed, and those of which the user has
chosen so. -/
structure State (α : Type) where
  fs : Text → Option α
  comm : Communicator
  isStopped : Bool
  removals : List Text
  overwritten : List Text

variable {α : Type}

namespace State

def fileExistsAtPath (path : Text) (s : State α) : Bool := (s.fs path).isSome

def removeFileAtPath (path : Text) (s : State α) : State α :=
  { s with fs := Function.update s.fs path none, removals := s.removals ++ [path] }

/-- The call waits where no answer is typed. -/
def howToHandleProblem (p : ProblemType) (typed : List Char) (s : State α) : Option (Option ProblemSolution × State α) :=
  let asked := s.comm.howToHandleProblem p [] typed
  asked.2.2.map fun answered => (answered.1, { s with comm := asked.1, isStopped := s.isStopped || answered.2 })

/-- A solution that the user has given. -/
def chosen (path : Text) (solution : Option ProblemSolution) (s : State α) : State α :=
  if solution.isSome then { s with overwritten := s.overwritten ++ [path] } else s

def createSymbolicLink (path : Text) (content : α) (turn : Turn) (s : State α) : Option (State α) :=
  if turn.links then some { s with fs := Function.update s.fs path (some content) }
  else do
    let (_, s) ← s.howToHandleProblem writeError turn.again
    pure s

end State

section Operation

variable (link : Text → α) (sourceDir destDir : Text)

def linkFile (file : Text) (turn : Turn) (s : State α) : Option (State α) :=
  let sourceFile := appendingPathComponent sourceDir file
  let destFile := appendingPathComponent destDir file
  let s := { s with comm := (s.comm.showProcessingFilename file sourceDir destDir 0 linkOp).1 }
  if s.fileExistsAtPath destFile then do
    let (solution, s) ← s.howToHandleProblem fileExists turn.typed
    if solution = some skipFile then pure s
    else if !turn.removes then do
      let (_, s) ← s.howToHandleProblem writeError turn.again
      pure s
    else ((s.chosen destFile solution).removeFileAtPath destFile).createSymbolicLink destFile (link sourceFile) turn
  else s.createSymbolicLink destFile (link sourceFile) turn

/-- One turn of the loop, which does nothing once the operation is stopped. -/
def step (s : State α) (e : Text × Turn) : Option (State α) :=
  if s.isStopped || e.2.interrupted then some { s with isStopped := true } else linkFile link sourceDir destDir e.1 e.2 s

/-- `removed` tells of each removal whether it succeeds. -/
def cleanUpAfterLink (removed : Text → Bool) (files : List Text) (s : State α) : State α :=
  files.foldl (fun s file =>
    let path := appendingPathComponent destDir file
    if removed path then s.removeFileAtPath path else s) s

/-- The operation may be interrupted behind the last file as well. -/
def linkOperation (removed : Text → Bool) (interrupted : Bool) (es : List (Text × Turn)) (s : State α) :
    Option (State α) := do
  let s ← tryRun (step link sourceDir destDir) s es
  if (s.isStopped || interrupted) && s.comm.makeCleanupOnStop then
    pure (cleanUpAfterLink destDir removed (es.map Prod.fst) s)
  else pure s

end Operation

def start (fs : Text → Option α) : State α := ⟨fs, Communicator.init, false, [], []⟩

/-- What was there is still there, unless the user has chosen otherwise. -/
def Kept (fs : Text → Option α) (s : State α) : Prop :=
  ∀ path, (fs path).isSome → path ∈ s.removals → path ∈ s.overwritten

variable {fs : Text → Option α} {s t u : State α} {link : Text → α} {sourceDir destDir : Text} {e : Text × Turn}
  {es : List (Text × Turn)} {p : ProblemType} {typed : List Char} {solution : Option ProblemSolution}

section Questions

structure Asked (s t : State α) : Prop where
  fs : t.fs = s.fs
  removals : t.removals = s.removals
  overwritten : t.overwritten = s.overwritten
  stopped : s.isStopped = true → t.isStopped = true

lemma howToHandleProblem_asked (h : s.howToHandleProblem p typed = some (solution, t)) :
    Asked s t ∧ (solution = none → t.isStopped = true) ∧
      (solution = none ↔ s.comm.defaultAction p = none ∧ typed.findSome? (Communicator.answer p) = some .stop) := by
  rw [State.howToHandleProblem, Communicator.howToHandleProblem] at h
  cases hdefault : s.comm.defaultAction p with
  | some action =>
    simp only [hdefault, Option.map_some, Option.some.injEq, Prod.mk.injEq] at h
    obtain ⟨rfl, rfl⟩ := h
    refine ⟨⟨rfl, rfl, rfl, fun hs => ?_⟩, fun hnone => absurd hnone (Option.some_ne_none action), ?_⟩
    · rw [hs, Bool.true_or]
    · exact iff_of_false (Option.some_ne_none action) fun hnone => Option.some_ne_none action hnone.1
  | none =>
    cases hanswer : typed.findSome? (Communicator.answer p) with
    | none =>
      simp only [hdefault, hanswer, Option.map_none] at h
      cases h
    | some given =>
      simp only [hdefault, hanswer, Option.map_some, Option.some.injEq, Prod.mk.injEq] at h
      obtain ⟨rfl, rfl⟩ := h
      cases given with
      | once action =>
        refine ⟨⟨rfl, rfl, rfl, fun hs => ?_⟩, fun hnone => absurd hnone (Option.some_ne_none action), ?_⟩
        · rw [hs, Bool.true_or]
        · refine iff_of_false (Option.some_ne_none action) fun hstop => ?_
          cases hstop.2
      | always action =>
        refine ⟨⟨rfl, rfl, rfl, fun hs => ?_⟩, fun hnone => absurd hnone (Option.some_ne_none action), ?_⟩
        · rw [hs, Bool.true_or]
        · refine iff_of_false (Option.some_ne_none action) fun hstop => ?_
          cases hstop.2
      | stop => exact ⟨⟨rfl, rfl, rfl, fun _ => Bool.or_true _⟩, fun _ => Bool.or_true _, iff_of_true rfl ⟨rfl, rfl⟩⟩

lemma createSymbolicLink_asked {path : Text} {content : α} {turn : Turn}
    (h : s.createSymbolicLink path content turn = some t) :
    t.removals = s.removals ∧ t.overwritten = s.overwritten ∧ (s.isStopped = true → t.isStopped = true) := by
  rw [State.createSymbolicLink] at h
  split_ifs at h
  · obtain rfl := Option.some.inj h
    exact ⟨rfl, rfl, id⟩
  · obtain ⟨⟨solution, u⟩, hasked, hu⟩ := Option.bind_eq_some_iff.mp h
    obtain rfl := Option.some.inj hu
    obtain ⟨hasked, -, -⟩ := howToHandleProblem_asked hasked
    exact ⟨hasked.removals, hasked.overwritten, hasked.stopped⟩

end Questions

section Loop

/-- A stop that is typed when a file is there goes on to remove it. -/
def StopsOver (fs : Text → Option α) (destDir : Text) (s : State α) (e : Text × Turn) : Prop :=
  let path := appendingPathComponent destDir e.1
  (s.isStopped || e.2.interrupted) = false ∧ (fs path).isSome ∧ path ∉ s.overwritten ∧ (s.fs path).isSome ∧
    s.comm.defaultAction fileExists = none ∧ e.2.typed.findSome? (Communicator.answer fileExists) = some .stop ∧
    e.2.removes = true

lemma Kept.congr (hremovals : t.removals = s.removals) (hoverwritten : t.overwritten = s.overwritten) :
    Kept fs t ↔ Kept fs s := by
  rw [Kept, Kept, hremovals, hoverwritten]

lemma kept_removed (h : Kept fs s) {path : Text} (hasked : Asked s u)
    (ht : t.removals = ((u.chosen path solution).removeFileAtPath path).removals ∧
      t.overwritten = ((u.chosen path solution).removeFileAtPath path).overwritten) :
    Kept fs t ↔ ¬((fs path).isSome ∧ path ∉ s.overwritten ∧ solution = none) := by
  have hremovals : t.removals = s.removals ++ [path] := by
    rw [ht.1, State.removeFileAtPath, State.chosen, ← hasked.removals]
    split_ifs <;> rfl
  cases solution with
  | none =>
    have hoverwritten : t.overwritten = s.overwritten := ht.2.trans hasked.overwritten
    rw [Kept, hremovals, hoverwritten]
    constructor
    · exact fun hall hlost => hlost.2.1 (hall path hlost.1 (List.mem_append_right _ (List.mem_singleton_self _)))
    · intro hnot q hq hmem
      rcases List.mem_append.mp hmem with hmem | hmem
      · exact h q hq hmem
      · obtain rfl := List.mem_singleton.mp hmem
        by_contra hover
        exact hnot ⟨hq, hover, rfl⟩
  | some given =>
    have hoverwritten : t.overwritten = s.overwritten ++ [path] := by
      rw [ht.2, ← hasked.overwritten]
      rfl
    refine iff_of_true (fun q hq hmem => ?_) fun hlost => by cases hlost.2.2
    rw [hremovals] at hmem
    rw [hoverwritten]
    rcases List.mem_append.mp hmem with hmem | hmem
    · exact List.mem_append_left _ (h q hq hmem)
    · exact List.mem_append_right _ hmem

lemma step_kept (h : Kept fs s) (ht : step link sourceDir destDir s e = some t) :
    (Kept fs t ↔ ¬StopsOver fs destDir s e) ∧ (StopsOver fs destDir s e → t.isStopped = true) := by
  obtain ⟨file, turn⟩ := e
  rw [step] at ht
  split_ifs at ht with hstopped
  · obtain rfl := Option.some.inj ht
    have hnot : ¬StopsOver fs destDir s (file, turn) := fun hover => Bool.false_ne_true (hover.1.symm.trans hstopped)
    exact ⟨iff_of_true h hnot, fun hover => absurd hover hnot⟩
  rw [linkFile] at ht
  by_cases hexists : (s.fs (appendingPathComponent destDir file)).isSome
  · dsimp only at ht
    rw [State.fileExistsAtPath, if_pos hexists] at ht
    obtain ⟨⟨solution, u⟩, hasked, ht⟩ := Option.bind_eq_some_iff.mp ht
    obtain ⟨hasked, hstops, hsolution⟩ := howToHandleProblem_asked hasked
    have hasked' : Asked s u := ⟨hasked.fs, hasked.removals, hasked.overwritten, hasked.stopped⟩
    have hover (hover : StopsOver fs destDir s (file, turn)) : solution = none :=
      hsolution.mpr ⟨hover.2.2.2.2.1, hover.2.2.2.2.2.1⟩
    dsimp only at ht
    by_cases hskip : solution = some skipFile
    · rw [if_pos hskip] at ht
      obtain rfl := Option.some.inj ht
      have hnot : ¬StopsOver fs destDir s (file, turn) := fun hstop => by cases (hover hstop).symm.trans hskip
      exact ⟨iff_of_true ((Kept.congr hasked'.removals hasked'.overwritten).mpr h) hnot, fun hstop => absurd hstop hnot⟩
    rw [if_neg hskip] at ht
    cases hremoves : turn.removes with
    | false =>
      rw [hremoves, Bool.not_false, if_pos rfl] at ht
      obtain ⟨⟨answered, v⟩, hasked₂, hv⟩ := Option.bind_eq_some_iff.mp ht
      obtain rfl := Option.some.inj hv
      obtain ⟨hasked₂, -, -⟩ := howToHandleProblem_asked hasked₂
      have hnot : ¬StopsOver fs destDir s (file, turn) := fun hstop =>
        Bool.false_ne_true (hremoves.symm.trans hstop.2.2.2.2.2.2)
      refine ⟨iff_of_true ?_ hnot, fun hstop => absurd hstop hnot⟩
      exact (Kept.congr (hasked₂.removals.trans hasked'.removals) (hasked₂.overwritten.trans hasked'.overwritten)).mpr h
    | true =>
      rw [hremoves, Bool.not_true, if_neg Bool.false_ne_true] at ht
      obtain ⟨hremovals, hoverwritten, hkeeps⟩ := createSymbolicLink_asked ht
      refine ⟨(kept_removed h hasked' ⟨hremovals, hoverwritten⟩).trans (not_congr ?_), fun hstop => hkeeps ?_⟩
      · constructor
        · intro hlost
          obtain ⟨hdefault, hanswer⟩ := hsolution.mp hlost.2.2
          exact ⟨Bool.eq_false_of_not_eq_true hstopped, hlost.1, hlost.2.1, hexists, hdefault, hanswer, hremoves⟩
        · exact fun hstop => ⟨hstop.2.1, hstop.2.2.1, hover hstop⟩
      · have hnone := hover hstop
        subst hnone
        exact hstops rfl
  · dsimp only at ht
    rw [State.fileExistsAtPath, if_neg hexists] at ht
    obtain ⟨hremovals, hoverwritten, -⟩ := createSymbolicLink_asked ht
    have hnot : ¬StopsOver fs destDir s (file, turn) := fun hstop => hexists hstop.2.2.2.1
    exact ⟨iff_of_true ((Kept.congr hremovals hoverwritten).mpr h) hnot, fun hstop => absurd hstop hnot⟩

lemma run_stopped (hs : s.isStopped = true) (es : List (Text × Turn)) :
    tryRun (step link sourceDir destDir) s es = some s := by
  induction es with
  | nil => rfl
  | cons e es ih =>
    have hsame : step link sourceDir destDir s e = some s := by
      rw [step, hs, Bool.true_or, if_pos rfl, ← hs]
    rw [tryRun, List.foldlM_cons, hsame]
    exact ih

lemma loop_kept (h : Kept fs s) (ht : tryRun (step link sourceDir destDir) s es = some t) :
    Kept fs t ↔ Admits (step link sourceDir destDir) (fun s e => ¬StopsOver fs destDir s e) s es := by
  induction es generalizing s with
  | nil =>
    obtain rfl := Option.some.inj ht
    exact iff_of_true h trivial
  | cons e es ih =>
    rw [tryRun, List.foldlM_cons] at ht
    obtain ⟨u, hu, ht⟩ := Option.bind_eq_some_iff.mp ht
    obtain ⟨hiff, hstops⟩ := step_kept h hu
    by_cases hover : StopsOver fs destDir s e
    · obtain rfl := Option.some.inj ((run_stopped (hstops hover) es).symm.trans ht)
      exact iff_of_false (fun hkept => hiff.mp hkept hover) fun hadmits => hadmits.1 hover
    · refine (ih (hiff.mpr hover) ht).trans ⟨fun hrest => ⟨hover, fun v hv => ?_⟩, fun hadmits => hadmits.2 u hu⟩
      obtain rfl := Option.some.inj (hu.symm.trans hv)
      exact hrest

end Loop

section Stops

variable {removed : Text → Bool} {interrupted : Bool}

lemma removeFileAtPath_kept (path : Text) :
    Kept fs (s.removeFileAtPath path) ↔ Kept fs s ∧ ((fs path).isSome → path ∈ s.overwritten) := by
  constructor
  · intro h
    refine ⟨fun q hq hmem => h q hq (List.mem_append_left _ hmem), fun hpath => ?_⟩
    exact h path hpath (List.mem_append_right _ (List.mem_singleton_self path))
  · rintro ⟨h, hpath⟩ q hq hmem
    rcases List.mem_append.mp hmem with hmem | hmem
    · exact h q hq hmem
    · obtain rfl := List.mem_singleton.mp hmem
      exact hpath hq

lemma cleanUp_kept (removed : Text → Bool) (files : List Text) (s : State α) :
    Kept fs (cleanUpAfterLink destDir removed files s) ↔ Kept fs s ∧ ∀ file ∈ files,
      removed (appendingPathComponent destDir file) → (fs (appendingPathComponent destDir file)).isSome →
        appendingPathComponent destDir file ∈ s.overwritten := by
  induction files generalizing s with
  | nil => exact (and_iff_left fun _ hfile => absurd hfile List.not_mem_nil).symm
  | cons file files ih =>
    rw [List.forall_mem_cons, ← and_assoc]
    have hsplit : cleanUpAfterLink destDir removed (file :: files) s = cleanUpAfterLink destDir removed files
        (if removed (appendingPathComponent destDir file) then s.removeFileAtPath (appendingPathComponent destDir file)
          else s) := rfl
    rw [hsplit]
    by_cases hremoved : removed (appendingPathComponent destDir file) = true
    · rw [if_pos hremoved, ih, removeFileAtPath_kept]
      exact and_congr_left' (and_congr_right' ⟨fun h _ => h, fun h => h hremoved⟩)
    · rw [if_neg hremoved, ih]
      exact and_congr_left' (and_iff_left fun h => absurd h hremoved).symm

/-- Besides a stop that is typed when a file is there, only the cleanup behind a stop takes what was there before: it
removes the names that the loop has not come to as well. -/
theorem linkOperation_kept_iff (link : Text → α) (sourceDir destDir : Text) (removed : Text → Bool) (interrupted : Bool)
    (fs : Text → Option α) (es : List (Text × Turn)) (s : State α)
    (hrun : linkOperation link sourceDir destDir removed interrupted es (start fs) = some s) :
    Kept fs s ↔
      Admits (step link sourceDir destDir) (fun s e => ¬StopsOver fs destDir s e) (start fs) es ∧
      ∀ t ∈ tryRun (step link sourceDir destDir) (start fs) es,
        ((t.isStopped || interrupted) && t.comm.makeCleanupOnStop) = true → ∀ file ∈ es.map Prod.fst,
          removed (appendingPathComponent destDir file) → (fs (appendingPathComponent destDir file)).isSome →
            appendingPathComponent destDir file ∈ t.overwritten := by
  have hstart : Kept fs (start fs) := fun _ _ hmem => absurd hmem List.not_mem_nil
  obtain ⟨t, ht, hrun⟩ := Option.bind_eq_some_iff.mp hrun
  have hloop := loop_kept hstart ht
  have honly (P : State α → Prop) : (∀ u ∈ tryRun (step link sourceDir destDir) (start fs) es, P u) ↔ P t :=
    ⟨fun hall => hall t ht, fun hp u hu => Option.some.inj (ht.symm.trans hu) ▸ hp⟩
  rw [honly, ← hloop]
  split_ifs at hrun with hcleanup
  · obtain rfl := Option.some.inj hrun
    rw [cleanUp_kept]
    exact and_congr_right' ⟨fun h _ => h, fun h => h hcleanup⟩
  · obtain rfl := Option.some.inj hrun
    exact (and_iff_left fun h => absurd h hcleanup).symm

/-- Beside the file that is linked there is another one. -/
def other (path : Text) : Option Bool := if path = ['d', '/', 'b'] then some false else none

theorem linkOperation_kept_other :
    Ensures (linkOperation (fun _ => true) ['s'] ['d'] (fun _ => true) true [(['a'], ⟨false, [], true, [], true⟩)]
      (start other)) (Kept other) := by
  obtain ⟨s, hs⟩ := Option.isSome_iff_exists.mp (by decide : (linkOperation (fun _ => true) ['s'] ['d'] (fun _ => true)
    true [(['a'], ⟨false, [], true, [], true⟩)] (start other)).isSome = true)
  have hnone : ¬(other ['d', '/', 'a']).isSome := by decide
  refine ⟨s, hs, (linkOperation_kept_iff (fun _ => true) ['s'] ['d'] (fun _ => true) true other _ s hs).mpr ⟨?_, ?_⟩⟩
  · exact ⟨fun hstop => hnone hstop.2.1, fun _ _ => trivial⟩
  · intro t _ _ file hfile _ hsome
    obtain rfl := List.mem_singleton.mp hfile
    exact absurd hsome hnone

end Stops

end Xperimentum.Workspace.LinkOperation
