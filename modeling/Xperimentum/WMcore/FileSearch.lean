import Xperimentum.WMcore.PathExpansion

/-! A file is searched in the directories of a list in their order, and the first expanded path is returned at which
there is one. -/

namespace Xperimentum.WMcore.FindFile

variable {pathMax : ℕ} {getenv getuserhomedir : List Char → Option (List Char)} {access : List Char → Bool}
  {home path paths dir file : List Char}

/-- The directories of a list, of which the empty ones do not count. -/
def dirs (paths : List Char) : List (List Char) := (paths.splitOnP (· = ':')).filter (· ≠ [])

def join (dir file : List Char) : List Char := if dir.getLast? = some '/' then dir ++ file else dir ++ '/' :: file

/-- The expanded path, if there is a file. -/
def fileAt (pathMax : ℕ) (getenv : List Char → Option (List Char)) (home : List Char)
    (getuserhomedir : List Char → Option (List Char)) (access : List Char → Bool) (path : List Char) :
    Option (List Char) :=
  (wexpandpath pathMax getenv home getuserhomedir path).toOption.filter access

lemma dirs_nil : dirs [] = [] := by
  rw [dirs, List.splitOnP_nil]
  rfl

lemma dirs_colon (paths : List Char) : dirs (':' :: paths) = dirs paths := by
  have hsplit : (':' :: paths).splitOnP (· = ':') = [] :: paths.splitOnP (· = ':') :=
    List.splitOnP_append_cons_of_forall_mem (fun c hc => absurd hc List.not_mem_nil) ':' rfl paths
  rw [dirs, hsplit, List.filter_cons_of_neg (by simp)]
  rfl

lemma dirs_dropWhile (paths : List Char) : dirs (paths.dropWhile (· = ':')) = dirs paths := by
  induction paths with
  | nil => rfl
  | cons c paths ih =>
    by_cases hc : c = ':'
    · rw [List.dropWhile_cons_of_pos (by simp [hc]), ih, hc, dirs_colon]
    · rw [List.dropWhile_cons_of_neg (by simp [hc])]

lemma dirs_split (h : paths.takeWhile (· ≠ ':') ≠ []) :
    dirs paths = paths.takeWhile (· ≠ ':') :: dirs (paths.dropWhile (· ≠ ':')) := by
  have hname : ∀ c ∈ paths.takeWhile (· ≠ ':'), decide (c = ':') = false := by
    intro c hc
    have hall := List.all_eq_true.mp List.all_takeWhile _ hc
    exact decide_eq_false (of_decide_eq_true hall)
  have hwhole : paths.takeWhile (· ≠ ':') ++ paths.dropWhile (· ≠ ':') = paths := List.takeWhile_append_dropWhile
  cases hrest : paths.dropWhile (· ≠ ':') with
  | nil =>
    rw [hrest, List.append_nil] at hwhole
    rw [hwhole] at h hname ⊢
    rw [dirs_nil, dirs, List.splitOnP_eq_singleton hname, List.filter_cons_of_pos]
    · rfl
    · exact decide_eq_true h
  | cons c rest =>
    have hc : c = ':' := by
      have hhead := (head_dropWhile ':' paths).mpr (hrest ▸ List.cons_ne_nil c rest)
      rw [hrest, List.head?_cons] at hhead
      exact Option.some.inj hhead
    subst hc
    rw [hrest] at hwhole
    have hsplit := List.splitOnP_append_cons_of_forall_mem hname ':' rfl rest
    rw [hwhole] at hsplit
    rw [dirs_colon, dirs, hsplit, List.filter_cons_of_pos]
    · rfl
    · exact decide_eq_true h

lemma first_ne_nil (h : paths.dropWhile (· = ':') ≠ []) : (paths.dropWhile (· = ':')).takeWhile (· ≠ ':') ≠ [] := by
  induction paths with
  | nil => exact absurd rfl h
  | cons c paths ih =>
    by_cases hc : c = ':'
    · rw [List.dropWhile_cons_of_pos (by simp [hc])] at h ⊢
      exact ih h
    · rw [List.dropWhile_cons_of_neg (by simp [hc]), List.takeWhile_cons_of_pos (by simp [hc])]
      exact List.cons_ne_nil _ _

lemma wexpandpath_ne_outside (hpath : nul ∉ path) (hhome : nul ∉ home) (henv : NulFree getenv)
    (huser : NulFree getuserhomedir) : wexpandpath pathMax getenv home getuserhomedir path ≠ .error .outside := by
  intro houtside
  cases hpiece : (homePiece home getuserhomedir path).1 with
  | none =>
    rw [wexpandpath, expandHome_of_none hpiece] at houtside
    cases houtside
  | some piece =>
    have hgives : Gives (wexpandpath pathMax getenv home getuserhomedir path) _ _ :=
      wexpandpath_gives hpath hhome henv huser hpiece
    rw [houtside] at hgives
    rcases hgives with ⟨-, hok⟩ | ⟨-, herror⟩
    · cases hok
    · cases herror

lemma findExpanded_eq (hpath : nul ∉ path) (hhome : nul ∉ home) (henv : NulFree getenv)
    (huser : NulFree getuserhomedir) : findExpanded pathMax getenv home getuserhomedir access path =
      .ok (fileAt pathMax getenv home getuserhomedir access path) := by
  have hinside : wexpandpath pathMax getenv home getuserhomedir path ≠ _ :=
    wexpandpath_ne_outside hpath hhome henv huser
  rw [findExpanded, fileAt]
  rcases hresult : wexpandpath pathMax getenv home getuserhomedir path with (_ | _) | fullpath
  · exact absurd hresult hinside
  · rfl
  · show Except.ok _ = Except.ok (Option.filter access (some fullpath))
    rw [Option.filter_some]

/-- The buffer has room for the path. -/
lemma candidate_eq (hdir : dir ≠ []) (hdirNul : nul ∉ dir) (hfile : nul ∉ file) :
    candidate dir file = .ok (join dir file) := by
  have hfilled : dir ++ List.replicate (file.length + 2) nul = filled (dir.length + file.length) dir := by
    rw [filled]
    congr 2
    omega
  obtain ⟨c, hc⟩ : ∃ c, dir.getLast? = some c := Option.isSome_iff_exists.mp (List.getLast?_isSome.mpr hdir)
  rw [candidate, join, hc, hfilled]
  by_cases hslash : c = '/'
  · subst hslash
    have hlength : dir.length ≤ dir.length + file.length + 1 := by omega
    have hnul : nul ∉ dir ++ file := by
      rw [List.mem_append, not_or]
      exact ⟨hdirNul, hfile⟩
    simp only [if_true, ok_bind]
    rw [(wstrlcat_gives hdirNul hlength file).eq_ok (by omega), ok_bind,
      string_filled hnul (by rw [List.length_append]; omega)]
    rfl
  · have hnul : nul ∉ dir ++ ['/'] := by
      rw [List.mem_append, not_or]
      exact ⟨hdirNul, by decide⟩
    have hboth : nul ∉ dir ++ ['/'] ++ file := by
      rw [List.mem_append, not_or]
      exact ⟨hnul, hfile⟩
    have hlength : (dir ++ ['/']).length = dir.length + 1 := List.length_append
    simp only [if_neg hslash]
    rw [(wstrlcat_gives hdirNul (by omega) ['/']).eq_ok (by rw [List.length_singleton]; omega), ok_bind,
      (wstrlcat_gives hnul (by omega) file).eq_ok (by omega), ok_bind,
      string_filled hboth (by rw [List.length_append, hlength]; omega), if_neg (by simp [hslash]), List.append_assoc]
    rfl

lemma findFrom_eq (hhome : nul ∉ home) (henv : NulFree getenv) (huser : NulFree getuserhomedir) (hfile : nul ∉ file)
    (turns : ℕ) (hturns : paths.length ≤ turns) (hpaths : nul ∉ paths) :
    findFrom pathMax getenv home getuserhomedir access file turns paths =
      .ok ((dirs paths).findSome? fun dir => fileAt pathMax getenv home getuserhomedir access (join dir file)) := by
  induction turns generalizing paths with
  | zero =>
    obtain rfl : paths = [] := List.length_eq_zero_iff.mp (by omega)
    rw [findFrom, dirs_nil]
    rfl
  | succ turns ih =>
    have htmp : nul ∉ paths.dropWhile (· = ':') := fun hmem => hpaths ((List.dropWhile_suffix _).subset hmem)
    have hshorter := (List.dropWhile_suffix (· = ':') (l := paths)).length_le
    rw [findFrom, ← dirs_dropWhile]
    by_cases hend : paths.dropWhile (· = ':') = []
    · rw [if_pos hend, hend, dirs_nil]
      rfl
    · have hfirst := first_ne_nil hend
      rw [if_neg hend, dirs_split hfirst, List.findSome?_cons]
      generalize paths.dropWhile (· = ':') = tmp at htmp hshorter hfirst ⊢
      have hdir : nul ∉ tmp.takeWhile (· ≠ ':') := fun hmem => htmp (List.takeWhile_subset _ hmem)
      have hrest : nul ∉ tmp.dropWhile (· ≠ ':') := fun hmem => htmp ((List.dropWhile_suffix _).subset hmem)
      have hjoin : nul ∉ join (tmp.takeWhile (· ≠ ':')) file := by
        rw [join]
        split_ifs
        · rw [List.mem_append, not_or]
          exact ⟨hdir, hfile⟩
        · rw [List.mem_append, not_or, List.mem_cons, not_or]
          exact ⟨hdir, by decide, hfile⟩
      have hturn : (tmp.dropWhile (· ≠ ':')).length ≤ turns := by
        have hwhole : tmp.takeWhile (· ≠ ':') ++ tmp.dropWhile (· ≠ ':') = tmp := List.takeWhile_append_dropWhile
        have hlength := congrArg List.length hwhole
        have hpos := List.length_pos_iff.mpr hfirst
        rw [List.length_append] at hlength
        omega
      simp only [candidate_eq hfirst hdir hfile]
      rw [findExpanded_eq hjoin hhome henv huser, ok_bind, ih hturn hrest]
      cases fileAt pathMax getenv home getuserhomedir access (join (tmp.takeWhile (· ≠ ':')) file) with
      | none => rfl
      | some found => rfl

/-- A path that begins with a root, a home directory or a variable is looked up itself. -/
def Direct (file : List Char) : Prop := file.head? = some '/' ∨ file.head? = some '~' ∨ file.head? = some '$'

instance (file : List Char) : Decidable (Direct file) := inferInstanceAs (Decidable (_ ∨ _ ∨ _))

/-- The search returns the first expanded path of a directory and the file at which there is one, and no access is
outside of a buffer. -/
theorem wfindfile_eq (hhome : nul ∉ home) (henv : NulFree getenv) (huser : NulFree getuserhomedir)
    (hfile : nul ∉ file) (hpaths : nul ∉ paths) :
    wfindfile pathMax getenv home getuserhomedir access (some paths) (some file) =
      .ok (if Direct file ∨ paths = [] then
        if access file then some file else fileAt pathMax getenv home getuserhomedir access file
      else (dirs paths).findSome? fun dir => fileAt pathMax getenv home getuserhomedir access (join dir file)) := by
  have hself : (file.head? = some '/' ∨ file.head? = some '~' ∨ file.head? = some '$' ∨
      some paths = none ∨ some paths = some []) ↔ Direct file ∨ paths = [] := by
    rw [Direct, Option.some_inj]
    simp only [reduceCtorEq, false_or, or_assoc]
  rw [wfindfile]
  by_cases hdirect : Direct file ∨ paths = []
  · rw [if_pos (hself.mpr hdirect), if_pos hdirect, findExpanded_eq hfile hhome henv huser]
    split_ifs <;> rfl
  · rw [if_neg (mt hself.mp hdirect), if_neg hdirect]
    exact findFrom_eq hhome henv huser hfile _ le_rfl hpaths

/-- The file is in the second directory. -/
theorem wfindfile_sample :
    wfindfile 12 (fun _ => none) ['/'] (fun _ => none) (fun path => path = ['/', 'b', '/', 'f'])
      (some [':', '/', 'a', ':', '/', 'b', '/']) (some ['f']) = .ok (some ['/', 'b', '/', 'f']) := by
  have hnone : NulFree fun _ => none := fun name value hvalue => by cases hvalue
  refine (wfindfile_eq (by decide) hnone hnone (by decide) (by decide)).trans ?_
  decide

end Xperimentum.WMcore.FindFile
