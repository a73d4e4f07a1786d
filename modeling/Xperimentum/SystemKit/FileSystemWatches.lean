import Xperimentum.Lib.Runs
import Xperimentum.SystemKit.FileSystemMonitor

/-! Runs of a monitor's clients, and what the list of watches counts. -/

namespace Xperimentum.SystemKit

open Lib.Int32 Lib.Runs

namespace OSEFileSystemMonitor

variable {m : OSEFileSystemMonitor} {a : Answers} {q : Path}

def linkCount (m : OSEFileSystemMonitor) (q : Path) : Option ℤ :=
  (m.monitorThread.bind fun t => t.pathFDList q).map Watch.linkCount

/-- The monitor has a thread with an inotify descriptor. -/
def opened (m : OSEFileSystemMonitor) : Bool := m.monitorThread.any fun t => 0 ≤ t.in_fd

@[grind =] def readable (a : Answers) : List Path → ℕ → List Path
  | [], _ => []
  | path :: paths, i =>
    if a.isReadable i ∧ path ≠ [] then path :: readable a paths (i + 1) else readable a paths (i + 1)

/-- The components that an addition registers. -/
def registered (m : OSEFileSystemMonitor) (a : Answers) (absolutePath : Path) : List Path :=
  if m.opened ∧ ¬m.monitorThreadTerminated then readable a absolutePath.componentPaths 0 else []

lemma mem_readable {paths : List Path} {i : ℕ} (h : q ∈ readable a paths i) : q ∈ paths ∧ q ≠ [] := by
  induction paths generalizing i with
  | nil => cases h
  | cons path paths ih =>
    rw [readable] at h
    split at h
    · rcases List.mem_cons.mp h with rfl | h
      · exact ⟨List.mem_cons_self, (by assumption : _ ∧ _).2⟩
      · exact ⟨List.mem_cons_of_mem _ (ih h).1, (ih h).2⟩
    · exact ⟨List.mem_cons_of_mem _ (ih h).1, (ih h).2⟩

lemma mem_registered {absolutePath : Path} (h : q ∈ m.registered a absolutePath) :
    q ∈ absolutePath.componentPaths ∧ q ≠ [] := by
  rw [registered] at h
  split at h
  · exact mem_readable h
  · cases h

section Messages

@[simp] lemma terminated_send (f : OSEFileSystemMonitorThread → OSEFileSystemMonitorThread) :
    (m.send f).monitorThreadTerminated = m.monitorThreadTerminated := rfl

/-- The lists and the descriptor are as before. -/
structure SameWatches (m m' : OSEFileSystemMonitor) : Prop where
  linkCount : m'.linkCount = m.linkCount
  opened : m'.opened = m.opened
  terminated : m'.monitorThreadTerminated = m.monitorThreadTerminated

lemma SameWatches.refl (m : OSEFileSystemMonitor) : SameWatches m m := ⟨rfl, rfl, rfl⟩

lemma sameWatches_send {f : OSEFileSystemMonitorThread → OSEFileSystemMonitorThread}
    (hlist : ∀ t, (f t).pathFDList = t.pathFDList) (hfd : ∀ t, (f t).in_fd = t.in_fd) : SameWatches m (m.send f) := by
  obtain ⟨_ | t, _, _, _, _⟩ := m
  · exact ⟨rfl, rfl, rfl⟩
  · exact ⟨by funext q; simp [linkCount, send, hlist], by simp [opened, send, hfd], rfl⟩

lemma sameWatches_stopThread : SameWatches m (m.send .stopThread) := sameWatches_send (fun _ => rfl) fun _ => rfl

lemma sameWatches_startThread : SameWatches m (m.send .startThread) := by
  apply sameWatches_send <;> intro t <;> rw [OSEFileSystemMonitorThread.startThread] <;> split <;> rfl

lemma sameWatches_pause : SameWatches m m.pause := by
  rw [pause]
  split
  · exact ⟨sameWatches_stopThread.1, sameWatches_stopThread.2, rfl⟩
  · exact .refl m

lemma sameWatches_stop : SameWatches m m.stop := by
  rw [stop]
  split
  · exact ⟨sameWatches_stopThread.1, sameWatches_stopThread.2, rfl⟩
  · exact .refl m

lemma sameWatches_resume : SameWatches m m.resume := by
  rw [resume]
  split
  · exact ⟨sameWatches_startThread.1, sameWatches_startThread.2, rfl⟩
  · exact .refl m

lemma sameWatches_start : SameWatches m m.start := by
  rw [start]
  split
  · split
    · exact ⟨sameWatches_startThread.1, sameWatches_startThread.2, rfl⟩
    · exact .refl m
  · exact ⟨rfl, rfl, rfl⟩

lemma linkCount_addPath (hopen : m.opened = true) (w : ℤ) {path : Path} (hpath : path ≠ []) :
    (m.send (.addPath · w path)).linkCount =
      Function.update m.linkCount path (some ((m.linkCount path).elim 1 fun n => wrap32 (n + 1))) := by
  obtain ⟨_ | t, _, _, _, _⟩ := m
  · cases hopen
  · have hfd : ¬t.in_fd < 0 := by simpa [opened] using hopen
    funext q
    by_cases h : q = path
    · subst h
      cases hq : t.pathFDList q <;> simp [linkCount, send, OSEFileSystemMonitorThread.addPath, hfd, hpath, hq]
    · simp [linkCount, send, OSEFileSystemMonitorThread.addPath, hfd, hpath, Function.update_of_ne h]

lemma linkCount_removePath (hopen : m.opened = true) {path : Path} (hpath : path ≠ []) :
    (m.send (.removePath · path)).linkCount = Function.update m.linkCount path
      ((m.linkCount path).bind fun n => if n = 1 then none else some (wrap32 (n - 1))) := by
  obtain ⟨_ | t, _, _, _, _⟩ := m
  · cases hopen
  · have hfd : ¬t.in_fd < 0 := by simpa [opened] using hopen
    funext q
    by_cases h : q = path
    · subst h
      cases hq : t.pathFDList q with
      | none => simp [linkCount, send, OSEFileSystemMonitorThread.removePath, hfd, hpath, hq]
      | some watch =>
        by_cases h1 : watch.linkCount = 1 <;>
          simp [linkCount, send, OSEFileSystemMonitorThread.removePath, hfd, hpath, hq, h1]
    · cases hq : t.pathFDList path <;>
        simp [linkCount, send, OSEFileSystemMonitorThread.removePath, hfd, hpath, hq, Function.update_of_ne h]

lemma opened_addPath (w : ℤ) (path : Path) : (m.send (.addPath · w path)).opened = m.opened := by
  obtain ⟨_ | t, _, _, _, _⟩ := m
  · rfl
  · simp only [opened, send, Option.map_some, Option.any_some, OSEFileSystemMonitorThread.addPath]
    split <;> rfl

lemma opened_removePath (path : Path) : (m.send (.removePath · path)).opened = m.opened := by
  obtain ⟨_ | t, _, _, _, _⟩ := m
  · rfl
  · simp only [opened, send, Option.map_some, Option.any_some, OSEFileSystemMonitorThread.removePath]
    split
    · rfl
    · split <;> rfl

lemma sameWatches_addPath {w : ℤ} {path : Path} (h : m.opened = false ∨ path = []) :
    SameWatches m (m.send (.addPath · w path)) := by
  obtain ⟨_ | t, _, _, _, _⟩ := m
  · exact ⟨rfl, rfl, rfl⟩
  · have hskip : t.in_fd < 0 ∨ path = [] := by simpa [opened] using h
    refine ⟨?_, opened_addPath w path, rfl⟩
    simp only [linkCount, send, Option.map_some, OSEFileSystemMonitorThread.addPath, if_pos hskip]

lemma sameWatches_removePath {path : Path} (h : m.opened = false ∨ path = []) :
    SameWatches m (m.send (.removePath · path)) := by
  obtain ⟨_ | t, _, _, _, _⟩ := m
  · exact ⟨rfl, rfl, rfl⟩
  · have hskip : t.in_fd < 0 ∨ path = [] := by simpa [opened] using h
    refine ⟨?_, opened_removePath path, rfl⟩
    simp only [linkCount, send, Option.map_some, OSEFileSystemMonitorThread.removePath, if_pos hskip]

end Messages

section Components

/-- The link count of a component that is held so many times. -/
def ofCount (n : ℕ) : Option ℤ := if n = 0 then none else some n

@[simp] lemma ofCount_zero : ofCount 0 = none := rfl

@[simp] lemma ofCount_succ (n : ℕ) : ofCount (n + 1) = some ((n : ℤ) + 1) := by simp [ofCount]

lemma ofCount_increment {n : ℕ} (h : (n : ℤ) + 1 < 2 ^ 31) :
    some ((ofCount n).elim 1 fun k => wrap32 (k + 1)) = ofCount (n + 1) := by
  cases n with
  | zero => rw [ofCount_zero, Option.elim_none, ofCount_succ, Nat.cast_zero, zero_add]
  | succ n =>
    rw [ofCount_succ, ofCount_succ, Option.elim_some, Nat.cast_succ] at *
    rw [wrap32_of_mem (by omega) h]

lemma ofCount_decrement {n : ℕ} (h : (n : ℤ) < 2 ^ 31) :
    ((ofCount n).bind fun k => if k = 1 then none else some (wrap32 (k - 1))) = ofCount (n - 1) := by
  cases n with
  | zero => rfl
  | succ n =>
    rw [ofCount_succ, Option.bind_some, Nat.add_sub_cancel]
    cases n with
    | zero => rfl
    | succ n =>
      rw [if_neg (by omega), ofCount_succ, wrap32_of_mem (by omega) (by omega), Nat.cast_succ, add_sub_cancel_right]

lemma terminated_addComponents (paths : List Path) (i : ℕ) :
    (addComponents a paths i m).monitorThreadTerminated = m.monitorThreadTerminated := by
  induction paths generalizing i m with
  | nil => rfl
  | cons path paths ih =>
    rw [addComponents, ih]
    split <;> rfl

lemma opened_addComponents (paths : List Path) (i : ℕ) : (addComponents a paths i m).opened = m.opened := by
  induction paths generalizing i m with
  | nil => rfl
  | cons path paths ih =>
    rw [addComponents, ih]
    split
    · exact opened_addPath _ path
    · rfl

lemma linkCount_addComponents (count : Path → ℕ) (hopen : m.opened = true) {paths : List Path} {i : ℕ}
    (hcount : ∀ q, m.linkCount q = ofCount (count q)) (hnodup : (readable a paths i).Nodup)
    (hbound : ∀ q ∈ readable a paths i, (count q : ℤ) + 1 < 2 ^ 31) (q : Path) :
    (addComponents a paths i m).linkCount q =
      ofCount (count q + if q ∈ readable a paths i then 1 else 0) := by
  induction paths generalizing i m count with
  | nil => simpa [addComponents, readable] using hcount q
  | cons path paths ih =>
    rw [addComponents]
    rw [readable] at hnodup hbound ⊢
    by_cases hread : a.isReadable i ∧ path ≠ []
    · simp only [if_pos hread, if_pos hread.1] at hnodup hbound ⊢
      have hnew := List.nodup_cons.mp hnodup
      rw [ih (Function.update count path (count path + 1)) ((opened_addPath _ path).trans hopen) ?_ hnew.2 ?_]
      · by_cases hq : q = path
        · subst hq
          simp [hnew.1]
        · simp [hq]
      · intro p
        rw [linkCount_addPath hopen _ hread.2]
        by_cases hp : p = path
        · subst hp
          simp only [Function.update_self, hcount]
          exact ofCount_increment (hbound p List.mem_cons_self)
        · simpa only [Function.update_of_ne hp] using hcount p
      · intro p hp
        have hne : p ≠ path := fun h => hnew.1 (h ▸ hp)
        rw [Function.update_of_ne hne]
        exact hbound p (List.mem_cons_of_mem _ hp)
    · simp only [if_neg hread] at hnodup hbound ⊢
      refine ih count ?_ ?_ hnodup hbound
      · split
        · exact (opened_addPath _ path).trans hopen
        · exact hopen
      · intro p
        split
        · next hyes =>
          have hempty : path = [] := by
            by_contra hne
            exact hread ⟨hyes, hne⟩
          rw [(sameWatches_addPath (Or.inr hempty)).linkCount]
          exact hcount p
        · exact hcount p

lemma SameWatches.trans {m m' m'' : OSEFileSystemMonitor} (h : SameWatches m m') (h' : SameWatches m' m'') :
    SameWatches m m'' :=
  ⟨h'.1.trans h.1, h'.2.trans h.2, h'.3.trans h.3⟩

lemma sameWatches_addComponents (hopen : m.opened = false) (paths : List Path) (i : ℕ) :
    SameWatches m (addComponents a paths i m) := by
  induction paths generalizing i m with
  | nil => exact .refl m
  | cons path paths ih =>
    rw [addComponents]
    split
    · exact (sameWatches_addPath (Or.inl hopen)).trans (ih ((opened_addPath _ path).trans hopen) _)
    · exact ih hopen _

lemma removeComponents_cons (path : Path) (paths : List Path) :
    removeComponents (path :: paths) m = removeComponents paths (m.send (.removePath · path)) := rfl

lemma terminated_removeComponents (paths : List Path) :
    (removeComponents paths m).monitorThreadTerminated = m.monitorThreadTerminated := by
  induction paths generalizing m with
  | nil => rfl
  | cons path paths ih => exact ih

lemma opened_removeComponents (paths : List Path) : (removeComponents paths m).opened = m.opened := by
  induction paths generalizing m with
  | nil => rfl
  | cons path paths ih => exact ih.trans (opened_removePath path)

lemma sameWatches_removeComponents (hopen : m.opened = false) (paths : List Path) :
    SameWatches m (removeComponents paths m) := by
  induction paths generalizing m with
  | nil => exact .refl m
  | cons path paths ih =>
    exact (sameWatches_removePath (Or.inl hopen)).trans (ih ((opened_removePath path).trans hopen))

lemma linkCount_removeComponents (count : Path → ℕ) (hopen : m.opened = true) {paths : List Path}
    (hcount : ∀ q, m.linkCount q = ofCount (count q)) (hempty : count [] = 0) (hbound : ∀ q, (count q : ℤ) < 2 ^ 31)
    (q : Path) : (removeComponents paths m).linkCount q = ofCount (count q - paths.count q) := by
  induction paths generalizing m count with
  | nil => simpa [removeComponents] using hcount q
  | cons path paths ih =>
    rw [removeComponents_cons,
      ih (Function.update count path (count path - 1)) ((opened_removePath path).trans hopen) ?_ ?_ ?_]
    · by_cases hq : q = path
      · subst hq
        simp [Nat.sub_sub, Nat.add_comm]
      · simp [hq, List.count_cons_of_ne (Ne.symm hq)]
    · intro p
      by_cases hpath : path = []
      · rw [(sameWatches_removePath (Or.inr hpath)).linkCount, hcount]
        by_cases hp : p = path
        · subst hp hpath
          simp [hempty]
        · rw [Function.update_of_ne hp]
      · rw [linkCount_removePath hopen hpath]
        by_cases hp : p = path
        · subst hp
          simp only [Function.update_self, hcount]
          exact ofCount_decrement (hbound p)
        · simpa only [Function.update_of_ne hp] using hcount p
    · by_cases hpath : path = []
      · subst hpath
        simp [hempty]
      · simpa only [Function.update_of_ne (Ne.symm hpath)] using hempty
    · intro p
      by_cases hp : p = path
      · subst hp
        rw [Function.update_self]
        exact (Int.ofNat_le.mpr (Nat.sub_le _ 1)).trans_lt (hbound p)
      · simpa only [Function.update_of_ne hp] using hbound p

end Components

end OSEFileSystemMonitor

open OSEFileSystemMonitor

/-- An addition and the components that were registered for it. -/
structure Addition where
  path : Path
  registered : List Path
  components : ∀ q ∈ registered, q ∈ path.componentPaths ∧ q ≠ []

/-- The monitor and the additions not yet removed. -/
structure Clients where
  monitor : OSEFileSystemMonitor
  additions : List Addition

inductive Event where
  | setEventMonitor (in_fd : ℤ)
  | start
  | stop
  | addPath (a : Answers) (absolutePath : Path)
  | removePath (k : ℕ)

namespace Clients

variable {s : Clients} {q : Path}

def init : Clients := ⟨.init, []⟩

/-- A removal is of one of the additions, and a monitor has one worker thread. -/
def step (s : Clients) : Event → Clients
  | .setEventMonitor in_fd =>
    if s.monitor.monitorThread.isSome then s
    else { s with monitor := s.monitor.setEventMonitor (.initWithConnection in_fd) }
  | .start => { s with monitor := s.monitor.start }
  | .stop => { s with monitor := s.monitor.stop }
  | .addPath a path =>
    ⟨s.monitor.addPath a path, ⟨path, s.monitor.registered a path, fun _ => mem_registered⟩ :: s.additions⟩
  | .removePath k =>
    match s.additions[k]? with
    | some x => ⟨s.monitor.removePath x.path, s.additions.eraseIdx k⟩
    | none => s

/-- How many of the additions not yet removed a component was registered for. -/
def held (s : Clients) (q : Path) : ℕ := s.additions.countP fun x => x.registered.contains q

lemma held_eq (s : Clients) (q : Path) : s.held q = s.additions.countP fun x => q ∈ x.registered := by
  simp only [held, List.contains_eq_mem]

def Balanced (s : Clients) : Prop :=
  ∀ q, s.monitor.linkCount q = if s.held q = 0 then none else some (s.held q : ℤ)

/-- A path that is added has no component twice and an `int` counts its additions; where another addition holds a
component of the path that is removed, the component was registered for the one that is removed, too. -/
def Keeps (s : Clients) : Event → Prop
  | .addPath a path =>
    (s.monitor.registered a path).Nodup ∧ ∀ q ∈ s.monitor.registered a path, (s.held q : ℤ) + 1 < 2 ^ 31
  | .removePath k => ∀ x ∈ s.additions[k]?, ∀ q ∈ x.path.componentPaths,
      (q ∈ x.registered ∧ x.path.componentPaths.count q = 1) ∨ ∀ y ∈ s.additions.eraseIdx k, q ∉ y.registered
  | _ => True

structure Invariant (s : Clients) : Prop where
  linkCount : ∀ q, s.monitor.linkCount q = ofCount (s.held q)
  running : s.monitor.monitorThreadTerminated = false
  opened : s.monitor.opened = false → ∀ x ∈ s.additions, x.registered = []
  bounded : ∀ q, (s.held q : ℤ) < 2 ^ 31

lemma Invariant.balanced (h : Invariant s) : Balanced s := fun q => (h.linkCount q).trans rfl

lemma held_empty (s : Clients) : s.held [] = 0 :=
  List.countP_eq_zero.mpr fun x _ => by simpa using fun h => (x.components [] h).2 rfl

lemma held_eq_zero (h : ∀ x ∈ s.additions, x.registered = []) (q : Path) : s.held q = 0 :=
  List.countP_eq_zero.mpr fun x hx => by simp [h x hx]

lemma invariant_init : Invariant init where
  linkCount _ := rfl
  running := rfl
  opened _ _ hx := (List.not_mem_nil hx).elim
  bounded _ := by simp [held, init]

lemma Invariant.of_sameWatches (h : Invariant s) {m : OSEFileSystemMonitor} (hm : SameWatches s.monitor m) :
    Invariant { s with monitor := m } where
  linkCount q := by
    rw [hm.linkCount]
    exact h.linkCount q
  running := hm.terminated.trans h.running
  opened ho := h.opened (hm.opened.symm.trans ho)
  bounded := h.bounded

lemma invariant_setEventMonitor (h : Invariant s) (in_fd : ℤ) : Invariant (s.step (.setEventMonitor in_fd)) := by
  simp only [step]
  split
  · exact h
  · next hnone =>
    have hthread : s.monitor.monitorThread = none := by simpa using hnone
    have hzero : ∀ x ∈ s.additions, x.registered = [] := h.opened (by simp [opened, hthread])
    have hplain : Invariant
        { s with monitor := { s.monitor with monitorThread := some (.initWithConnection in_fd) } } :=
      ⟨fun q => (congrArg ofCount (held_eq_zero hzero q)).symm, h.running, fun _ => hzero, h.bounded⟩
    rw [setEventMonitor]
    split
    · exact hplain.of_sameWatches sameWatches_start
    · exact hplain

lemma invariant_addPath (h : Invariant s) {a : Answers} {path : Path} (hkeeps : s.Keeps (.addPath a path)) :
    Invariant (s.step (.addPath a path)) := by
  obtain ⟨hnodup, hbound⟩ := hkeeps
  have hheld : ∀ q, (s.step (.addPath a path)).held q =
      s.held q + if q ∈ s.monitor.registered a path then 1 else 0 := by
    intro q
    simp only [step, held_eq, List.countP_cons, decide_eq_true_eq]
  have hmonitor : (s.step (.addPath a path)).monitor =
      (addComponents a path.componentPaths 0 s.monitor.pause).resume := by
    simp [step, OSEFileSystemMonitor.addPath, h.running]
  have hopened : (s.step (.addPath a path)).monitor.opened = s.monitor.opened := by
    rw [hmonitor, sameWatches_resume.opened, opened_addComponents, sameWatches_pause.opened]
  refine ⟨fun q => ?_, ?_, fun ho => ?_, fun q => ?_⟩
  · rw [hheld, hmonitor, sameWatches_resume.linkCount]
    cases ho : s.monitor.opened with
    | true =>
      have hregistered : s.monitor.registered a path = readable a path.componentPaths 0 := by
        simp [registered, ho, h.running]
      rw [hregistered] at hnodup hbound ⊢
      refine linkCount_addComponents s.held (sameWatches_pause.opened.trans ho) (fun p => ?_) hnodup hbound q
      rw [sameWatches_pause.linkCount]
      exact h.linkCount p
    | false =>
      have hregistered : s.monitor.registered a path = [] := by simp [registered, ho]
      rw [hregistered, if_neg List.not_mem_nil,
        (sameWatches_addComponents (sameWatches_pause.opened.trans ho) _ 0).linkCount, sameWatches_pause.linkCount]
      exact h.linkCount q
  · rw [hmonitor, sameWatches_resume.terminated, terminated_addComponents, sameWatches_pause.terminated]
    exact h.running
  · rw [hopened] at ho
    intro x hx
    rcases List.mem_cons.mp hx with rfl | hx
    · simp [registered, ho]
    · exact h.opened ho x hx
  · rw [hheld]
    split
    · next hq => exact_mod_cast hbound q hq
    · exact h.bounded q

lemma invariant_removePath (h : Invariant s) {k : ℕ} (hkeeps : s.Keeps (.removePath k)) :
    Invariant (s.step (.removePath k)) := by
  cases hk : s.additions[k]? with
  | none => simpa only [step, hk] using h
  | some x =>
    obtain ⟨hlt, hx⟩ := List.getElem?_eq_some_iff.mp hk
    have hperm : (x :: s.additions.eraseIdx k).Perm s.additions := hx ▸ List.getElem_cons_eraseIdx_perm hlt
    have hheld : ∀ q, s.held q = (s.additions.eraseIdx k).countP (fun y => q ∈ y.registered) +
        if q ∈ x.registered then 1 else 0 := by
      intro q
      rw [held_eq, ← hperm.countP_eq, List.countP_cons]
      simp only [decide_eq_true_eq]
    have hmem : x ∈ s.additions := hperm.subset List.mem_cons_self
    simp only [step, hk, OSEFileSystemMonitor.removePath, h.running, Bool.false_eq_true, if_false]
    refine ⟨fun q => ?_, ?_, fun ho => ?_, fun q => ?_⟩
    · rw [sameWatches_resume.linkCount]
      cases ho : s.monitor.opened with
      | true =>
        rw [linkCount_removeComponents s.held (sameWatches_pause.opened.trans ho) (fun p => ?_) s.held_empty
          h.bounded]
        · refine congrArg ofCount ?_
          rw [hheld, held_eq]
          change _ = (s.additions.eraseIdx k).countP fun y => q ∈ y.registered
          by_cases hq : q ∈ x.path.componentPaths
          · rcases hkeeps x hk q hq with ⟨hregistered, hcount⟩ | hothers
            · rw [if_pos hregistered, hcount, Nat.add_sub_cancel]
            · have hzero : (s.additions.eraseIdx k).countP (fun y => q ∈ y.registered) = 0 :=
                List.countP_eq_zero.mpr fun y hy => by simpa using hothers y hy
              have hpos := List.count_pos_iff.mpr hq
              rw [hzero]
              split <;> omega
          · rw [List.count_eq_zero.mpr hq, if_neg fun hregistered => hq (x.components q hregistered).1]
            rfl
        · rw [sameWatches_pause.linkCount]
          exact h.linkCount p
      | false =>
        rw [(sameWatches_removeComponents (sameWatches_pause.opened.trans ho) _).linkCount, sameWatches_pause.linkCount,
          h.linkCount, held_eq_zero (h.opened ho), held_eq_zero]
        exact fun y hy => h.opened ho y (List.mem_of_mem_eraseIdx hy)
    · rw [sameWatches_resume.terminated, terminated_removeComponents, sameWatches_pause.terminated]
      exact h.running
    · rw [sameWatches_resume.opened, opened_removeComponents, sameWatches_pause.opened] at ho
      exact fun y hy => h.opened ho y (List.mem_of_mem_eraseIdx hy)
    · have hle := h.bounded q
      rw [hheld] at hle
      rw [held_eq]
      exact (Int.ofNat_le.mpr (Nat.le_add_right _ _)).trans_lt hle

lemma invariant_step (e : Event) (h : Invariant s) (hkeeps : s.Keeps e) : Invariant (s.step e) := by
  cases e with
  | setEventMonitor in_fd => exact invariant_setEventMonitor h in_fd
  | start => exact h.of_sameWatches sameWatches_start
  | stop => exact h.of_sameWatches sameWatches_stop
  | addPath a path => exact invariant_addPath h hkeeps
  | removePath k => exact invariant_removePath h hkeeps

/-- The answers when the first `n` components are readable. -/
def readableUpTo (n : ℕ) : Answers := ⟨fun i => i < n, fun i => i + 1⟩

def sharedRun : List Event :=
  [.setEventMonitor 3, .start, .addPath (readableUpTo 2) "/d/e".toList, .addPath (readableUpTo 2) "/d".toList,
    .removePath 1]

end Clients

end Xperimentum.SystemKit
