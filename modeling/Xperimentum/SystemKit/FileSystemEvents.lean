import Mathlib.Tactic
import Xperimentum.SystemKit.FileSystemMonitor

/-! `checkForEvents` of the monitor's thread: the events of one buffer, folded into one record for each descriptor. -/

namespace Xperimentum.SystemKit

/-- What the mask of an event has, in the order in which it is looked at. -/
inductive EventKind
  | create
  | delete
  | modify
  | attributes
  | movedFrom
  | movedTo
  deriving DecidableEq

/-- An event about the directory itself has no name. -/
structure InotifyEvent where
  wd : ℤ
  kind : EventKind
  cookie : ℕ
  name : Option (List UInt8)
  deriving DecidableEq

inductive FileOperation
  | write
  | create
  | delete
  | attributes
  | movedFrom
  | rename
  deriving DecidableEq

structure EventInfo (Name : Type) where
  operations : List FileOperation := []
  changedPath : Option Path := none
  changedFile : Option Name := none
  changedFileTo : Option Name := none
  deriving DecidableEq

namespace OSEFileSystemMonitorThread

/-- The first of the paths with the descriptor, in the order of the dictionary's keys. -/
def pathForDescriptor (t : OSEFileSystemMonitorThread) (allKeys : List Path) (wd : ℤ) : Option Path :=
  allKeys.find? fun path => (t.pathFDList path).any (·.descriptor = wd)

section Code

variable {Name : Type} (decode : List UInt8 → Option Name) (path : Option Path)

def operationsOf : EventKind → List FileOperation
  | .create | .movedTo => [.write, .create]
  | .delete => [.write, .delete]
  | .modify => [.write]
  | .attributes => [.attributes]
  | .movedFrom => [.write, .movedFrom]

/-- A missing path, or a name that gives no string, is an exception. -/
def changed (info : EventInfo Name) (operations : List FileOperation) (name : List UInt8) : Option (EventInfo Name) :=
  path.bind fun path => (decode name).map fun file =>
    { info with
      changedPath := some path, changedFile := some file, operations := info.operations ++ operations }

/-- The record of a descriptor after an event with a name. -/
def recordEvent (info : EventInfo Name) (kind : EventKind) (name : List UInt8) : Option (EventInfo Name) :=
  if kind = .movedTo ∧ .movedFrom ∈ info.operations then
    (decode name).map fun fileTo => { info with changedFileTo := some fileTo, operations := info.operations ++ [.rename] }
  else changed decode path info (operationsOf kind) name

end Code

section Batch

variable {Name : Type} (t : OSEFileSystemMonitorThread) (allKeys : List Path) (decode : List UInt8 → Option Name)

abbrev EventList (Name : Type) := ℤ → Option (EventInfo Name)

def handleEvent (eventList : EventList Name) (event : InotifyEvent) : Option (EventList Name) :=
  match event.name with
  | none => some eventList
  | some name =>
    (recordEvent decode (t.pathForDescriptor allKeys event.wd) ((eventList event.wd).getD {}) event.kind name).map
      fun info => Function.update eventList event.wd (some info)

/-- The records that the owner is told of. Without watches the buffer is not read, and no result is an exception. -/
def checkForEvents (events : List InotifyEvent) : Option (EventList Name) :=
  if allKeys = [] then some fun _ => none else events.foldlM (handleEvent t allKeys decode) fun _ => none

/-- No exception is raised, every file of a watched directory is in the record of its descriptor, and a rename that is
reported has its two events. -/
def Reports (events : List InotifyEvent) : Prop :=
  ∃ eventList, checkForEvents t allKeys decode events = some eventList ∧
    (∀ event ∈ events, ∀ name ∈ event.name, ∀ path ∈ t.pathForDescriptor allKeys event.wd,
      ∃ info ∈ eventList event.wd, info.changedPath = some path ∧ ∃ file ∈ decode name,
        info.changedFile = some file ∨ info.changedFileTo = some file) ∧
    ∀ wd, ∀ info ∈ eventList wd, .rename ∈ info.operations →
      ∀ file ∈ info.changedFile, ∀ fileTo ∈ info.changedFileTo, ∃ source ∈ events, ∃ target ∈ events,
        source.wd = wd ∧ target.wd = wd ∧ source.kind = .movedFrom ∧ target.kind = .movedTo ∧
          source.cookie = target.cookie ∧ source.name.bind decode = some file ∧ target.name.bind decode = some fileTo

/-- The events of a descriptor with a name. -/
def eventsOf (wd : ℤ) (events : List InotifyEvent) : List InotifyEvent :=
  events.filter fun event => event.wd = wd && event.name.isSome

/-- The events that are not a `movedTo` behind a `movedFrom`. -/
@[grind =] def sources (moved : Bool) : List InotifyEvent → List InotifyEvent
  | [] => []
  | event :: events =>
    if event.kind = .movedTo ∧ moved then sources moved events
    else event :: sources (moved || event.kind = .movedFrom) events

@[grind =] def targets (moved : Bool) : List InotifyEvent → List InotifyEvent
  | [] => []
  | event :: events =>
    if event.kind = .movedTo ∧ moved then event :: targets moved events
    else targets (moved || event.kind = .movedFrom) events

def fileOf (event : InotifyEvent) : Option Name := event.name.bind decode

/-- The file of the last event that is not a `movedTo` behind a `movedFrom`, and that of the last such `movedTo`. -/
def lastFile (events : List InotifyEvent) : Option Name := (sources false events).getLast?.bind (fileOf decode)

def lastFileTo (events : List InotifyEvent) : Option Name := (targets false events).getLast?.bind (fileOf decode)

/-- The events of one descriptor name no other files than these two, and a `movedTo` behind a `movedFrom` means that
the two are those of a rename. -/
def Foldable (events : List InotifyEvent) : Prop :=
  (∀ event ∈ events, fileOf decode event = lastFile decode events ∨ fileOf decode event = lastFileTo decode events) ∧
    (targets false events ≠ [] → ∃ source ∈ events, ∃ target ∈ events,
      source.kind = .movedFrom ∧ target.kind = .movedTo ∧ source.cookie = target.cookie ∧
        fileOf decode source = lastFile decode events ∧ fileOf decode target = lastFileTo decode events)

/-- Every name is that of a watched directory and gives a string, and the events of every descriptor are foldable. -/
def Reportable (events : List InotifyEvent) : Prop :=
  allKeys = [] ∨
    (∀ event ∈ events, ∀ name ∈ event.name, (t.pathForDescriptor allKeys event.wd).isSome ∧ (decode name).isSome) ∧
      ∀ wd, Foldable decode (eventsOf wd events)

end Batch

section Records

variable {Name : Type} {decode : List UInt8 → Option Name} {path : Option Path}

def Decodable (decode : List UInt8 → Option Name) (events : List InotifyEvent) : Prop :=
  ∀ event ∈ events, (fileOf decode event).isSome

/-- The record of one descriptor after its events. -/
def recordEvents (decode : List UInt8 → Option Name) (path : Option Path) (info : EventInfo Name)
    (events : List InotifyEvent) : Option (EventInfo Name) :=
  events.foldlM (fun info event => recordEvent decode path info event.kind (event.name.getD [])) info

/-- A record from another one and the events that came in between, `moved` when a `movedFrom` was among the others. -/
structure Recorded (decode : List UInt8 → Option Name) (path : Path) (events : List InotifyEvent)
    (info info' : EventInfo Name) : Prop where
  rename : .rename ∈ info'.operations ↔
    .rename ∈ info.operations ∨ targets (.movedFrom ∈ info.operations) events ≠ []
  changedPath : info'.changedPath = if sources (.movedFrom ∈ info.operations) events = [] then info.changedPath else some path
  changedFile : info'.changedFile =
    ((sources (.movedFrom ∈ info.operations) events).getLast?.bind (fileOf decode)).or info.changedFile
  changedFileTo : info'.changedFileTo =
    ((targets (.movedFrom ∈ info.operations) events).getLast?.bind (fileOf decode)).or info.changedFileTo

lemma getLast_bind_cons {event : InotifyEvent} {events : List InotifyEvent} {file : Name} {o : Option Name}
    (h : fileOf decode event = some file) (hall : Decodable decode events) :
    ((event :: events).getLast?.bind (fileOf decode)).or o =
      (events.getLast?.bind (fileOf decode)).or (some file) := by
  cases hlast : events.getLast? with
  | none =>
    rw [List.getLast?_eq_none_iff] at hlast
    subst hlast
    simp [h]
  | some last =>
    obtain ⟨f, hf⟩ := Option.isSome_iff_exists.mp (hall last (List.mem_of_getLast? hlast))
    have hcons : (event :: events).getLast? = some last := by
      rw [List.getLast?_cons, hlast]
      rfl
    simp [hcons, hf]

lemma sources_subset (moved : Bool) (events : List InotifyEvent) : sources moved events ⊆ events := by
  induction events generalizing moved with
  | nil => exact List.Subset.refl []
  | cons event events ih =>
    rw [sources]
    split_ifs
    · exact List.subset_cons_of_subset event (ih moved)
    · exact List.cons_subset_cons event (ih _)

lemma targets_subset (moved : Bool) (events : List InotifyEvent) : targets moved events ⊆ events := by
  induction events generalizing moved with
  | nil => exact List.Subset.refl []
  | cons event events ih =>
    rw [targets]
    split_ifs
    · exact List.cons_subset_cons event (ih moved)
    · exact List.subset_cons_of_subset event (ih _)

lemma exists_recordEvents {path : Path} (events : List InotifyEvent) (info : EventInfo Name)
    (h : Decodable decode events) :
    ∃ info', recordEvents decode (some path) info events = some info' ∧ Recorded decode path events info info' := by
  induction events generalizing info with
  | nil => exact ⟨info, rfl, by simp [targets], by simp [sources], by simp [sources], by simp [targets]⟩
  | cons event events ih =>
    have hrest : Decodable decode events := fun e he => h e (List.mem_cons_of_mem event he)
    obtain ⟨file, hfile⟩ := Option.isSome_iff_exists.mp (h event List.mem_cons_self)
    obtain ⟨name, hname, hdecode⟩ := Option.bind_eq_some_iff.mp hfile
    rw [recordEvents, List.foldlM_cons, hname, Option.getD_some]
    by_cases hmove : event.kind = .movedTo ∧ .movedFrom ∈ info.operations
    · have hone : recordEvent decode (some path) info event.kind name =
          some { info with changedFileTo := some file, operations := info.operations ++ [.rename] } := by
        rw [recordEvent, if_pos hmove, hdecode, Option.map_some]
      rw [hone]
      obtain ⟨info', hrun, hrec⟩ := ih { info with changedFileTo := some file, operations := info.operations ++ [.rename] } hrest
      have hmoved : decide (.movedFrom ∈ info.operations ++ [FileOperation.rename]) = decide (.movedFrom ∈ info.operations) := by
        simp
      obtain ⟨hr, hp, hf, ht⟩ := hrec
      simp only [hmoved] at hr hp hf ht
      have hcond : event.kind = .movedTo ∧ decide (.movedFrom ∈ info.operations) = true := ⟨hmove.1, by simpa using hmove.2⟩
      refine ⟨info', hrun, ?_, ?_, ?_, ?_⟩
      · rw [targets, if_pos hcond, hr]
        simp
      · rw [sources, if_pos hcond, hp]
      · rw [sources, if_pos hcond, hf]
      · rw [targets, if_pos hcond, ht]
        exact (getLast_bind_cons hfile fun e he => hrest e (targets_subset _ _ he)).symm
    · have hone : recordEvent decode (some path) info event.kind name =
          some { info with
            changedPath := some path, changedFile := some file, operations := info.operations ++ operationsOf event.kind } := by
        rw [recordEvent, if_neg hmove, changed, Option.bind_some, hdecode, Option.map_some]
      rw [hone]
      obtain ⟨info', hrun, hrec⟩ := ih { info with
        changedPath := some path, changedFile := some file, operations := info.operations ++ operationsOf event.kind } hrest
      have hmoved : decide (.movedFrom ∈ info.operations ++ operationsOf event.kind) =
          (decide (.movedFrom ∈ info.operations) || decide (event.kind = .movedFrom)) := by
        rw [← Bool.decide_or]
        refine decide_eq_decide.mpr ?_
        rw [List.mem_append]
        refine or_congr_right ?_
        cases event.kind <;> simp [operationsOf]
      have hrename : .rename ∈ info.operations ++ operationsOf event.kind ↔ .rename ∈ info.operations := by
        rw [List.mem_append, or_iff_left]
        cases event.kind <;> simp [operationsOf]
      obtain ⟨hr, hp, hf, ht⟩ := hrec
      simp only [hmoved, hrename] at hr hp hf ht
      have hcond : ¬(event.kind = .movedTo ∧ decide (.movedFrom ∈ info.operations) = true) := by simpa using hmove
      refine ⟨info', hrun, ?_, ?_, ?_, ?_⟩
      · rw [targets, if_neg hcond, hr]
      · rw [sources, if_neg hcond, hp, if_neg (List.cons_ne_nil _ _), ite_self]
      · rw [sources, if_neg hcond, hf]
        exact (getLast_bind_cons hfile fun e he => hrest e (sources_subset _ _ he)).symm
      · rw [targets, if_neg hcond, ht]

end Records

section Reporting

variable {Name : Type} {t : OSEFileSystemMonitorThread} {allKeys : List Path} {decode : List UInt8 → Option Name}

def Readable (t : OSEFileSystemMonitorThread) (allKeys : List Path) (decode : List UInt8 → Option Name)
    (events : List InotifyEvent) : Prop :=
  ∀ event ∈ events, ∀ name ∈ event.name, (t.pathForDescriptor allKeys event.wd).isSome ∧ (decode name).isSome

lemma decodable_eventsOf {events : List InotifyEvent} (h : Readable t allKeys decode events) (wd : ℤ) :
    Decodable decode (eventsOf wd events) := by
  intro event hevent
  simp only [eventsOf, List.mem_filter, Bool.and_eq_true, decide_eq_true_eq] at hevent
  obtain ⟨hmem, -, hsome⟩ := hevent
  obtain ⟨name, hname⟩ := Option.isSome_iff_exists.mp hsome
  rw [fileOf, hname, Option.bind_some]
  exact (h event hmem name hname).2

lemma path_of_eventsOf {events : List InotifyEvent} (h : Readable t allKeys decode events) {wd : ℤ}
    (hne : eventsOf wd events ≠ []) : ∃ path, t.pathForDescriptor allKeys wd = some path := by
  obtain ⟨event, hevent⟩ := List.exists_mem_of_ne_nil _ hne
  simp only [eventsOf, List.mem_filter, Bool.and_eq_true, decide_eq_true_eq] at hevent
  obtain ⟨hmem, rfl, hsome⟩ := hevent
  obtain ⟨name, hname⟩ := Option.isSome_iff_exists.mp hsome
  exact Option.isSome_iff_exists.mp (h event hmem name hname).1

/-- The records after a buffer are those of the descriptors, each after its own events. -/
lemma handleEvents_records {events : List InotifyEvent} (h : Readable t allKeys decode events) (s : EventList Name) :
    ∃ s', events.foldlM (handleEvent t allKeys decode) s = some s' ∧
      ∀ wd, s' wd = if eventsOf wd events = [] then s wd
        else recordEvents decode (t.pathForDescriptor allKeys wd) ((s wd).getD {}) (eventsOf wd events) := by
  induction events generalizing s with
  | nil => exact ⟨s, rfl, fun wd => rfl⟩
  | cons event events ih =>
    have hrest : Readable t allKeys decode events := fun e he => h e (List.mem_cons_of_mem event he)
    rw [List.foldlM_cons]
    cases hname : event.name with
    | none =>
      obtain ⟨s', hrun, hs'⟩ := ih hrest s
      refine ⟨s', by rw [handleEvent, hname]; exact hrun, fun wd => ?_⟩
      have hskip : eventsOf wd (event :: events) = eventsOf wd events := by simp [eventsOf, hname]
      rw [hskip, hs']
    | some name =>
      obtain ⟨hpath, hdecode⟩ := h event List.mem_cons_self name hname
      obtain ⟨path, hpath⟩ := Option.isSome_iff_exists.mp hpath
      have hfile : Decodable decode [event] := by simpa [Decodable, fileOf, hname] using hdecode
      obtain ⟨info, hinfo, -⟩ := exists_recordEvents [event] ((s event.wd).getD {}) hfile
      have hone : recordEvent decode (t.pathForDescriptor allKeys event.wd) ((s event.wd).getD {}) event.kind name =
          some info := by
        rw [recordEvents, List.foldlM_cons, hname, Option.getD_some] at hinfo
        obtain ⟨info', hinfo', hsame⟩ := Option.bind_eq_some_iff.mp hinfo
        rw [hpath, hinfo']
        exact hsame
      obtain ⟨s', hrun, hs'⟩ := ih hrest (Function.update s event.wd (some info))
      refine ⟨s', ?_, fun wd => ?_⟩
      · rw [handleEvent, hname]
        simp only [hone, Option.map_some]
        exact hrun
      · by_cases hwd : event.wd = wd
        · subst hwd
          have hcons : eventsOf event.wd (event :: events) = event :: eventsOf event.wd events := by
            simp [eventsOf, hname]
          have hrec : recordEvents decode (t.pathForDescriptor allKeys event.wd) ((s event.wd).getD {})
              (event :: eventsOf event.wd events) =
              recordEvents decode (t.pathForDescriptor allKeys event.wd) info (eventsOf event.wd events) := by
            rw [recordEvents, List.foldlM_cons, hname, Option.getD_some, hone]
            rfl
          rw [hs', hcons, if_neg (List.cons_ne_nil _ _), Function.update_self, hrec]
          split_ifs with hnil
          · rw [hnil]
            rfl
          · rfl
        · have hskip : eventsOf wd (event :: events) = eventsOf wd events := by simp [eventsOf, hwd]
          rw [hskip, hs', Function.update_of_ne (Ne.symm hwd)]

/-- An event that cannot be recorded is an exception, as there is no earlier record of its descriptor. -/
lemma readable_of_handled {events : List InotifyEvent} {s s' : EventList Name}
    (hs : ∀ wd, (s wd).isSome → (t.pathForDescriptor allKeys wd).isSome)
    (h : events.foldlM (handleEvent t allKeys decode) s = some s') : Readable t allKeys decode events := by
  induction events generalizing s with
  | nil => simp [Readable]
  | cons event events ih =>
    rw [List.foldlM_cons] at h
    obtain ⟨s₁, hone, hrun⟩ := Option.bind_eq_some_iff.mp h
    rw [handleEvent] at hone
    cases hname : event.name with
    | none =>
      rw [hname] at hone
      obtain rfl := Option.some.inj hone
      intro e he
      rcases List.mem_cons.mp he with rfl | he
      · simp [hname]
      · exact ih hs hrun e he
    | some name =>
      rw [hname] at hone
      obtain ⟨info, hinfo, rfl⟩ := Option.map_eq_some_iff.mp hone
      have hok : (t.pathForDescriptor allKeys event.wd).isSome ∧ (decode name).isSome := by
        rw [recordEvent] at hinfo
        split_ifs at hinfo with hmove
        · obtain ⟨file, hfile, -⟩ := Option.map_eq_some_iff.mp hinfo
          refine ⟨hs event.wd ?_, Option.isSome_iff_exists.mpr ⟨file, hfile⟩⟩
          cases hrec : s event.wd with
          | none =>
            rw [hrec] at hmove
            exact absurd hmove.2 (by simp)
          | some info => rfl
        · obtain ⟨path, hpath, hinfo⟩ := Option.bind_eq_some_iff.mp hinfo
          obtain ⟨file, hfile, -⟩ := Option.map_eq_some_iff.mp hinfo
          exact ⟨Option.isSome_iff_exists.mpr ⟨path, hpath⟩, Option.isSome_iff_exists.mpr ⟨file, hfile⟩⟩
      have hs₁ : ∀ wd, (Function.update s event.wd (some info) wd).isSome → (t.pathForDescriptor allKeys wd).isSome := by
        intro wd hwd
        by_cases heq : wd = event.wd
        · exact heq ▸ hok.1
        · rw [Function.update_of_ne heq] at hwd
          exact hs wd hwd
      intro e he
      rcases List.mem_cons.mp he with rfl | he
      · intro name' hname'
        rw [hname, Option.mem_some_iff] at hname'
        exact hname' ▸ hok
      · exact ih hs₁ hrun e he

lemma mem_eventsOf {wd : ℤ} {events : List InotifyEvent} {event : InotifyEvent} :
    event ∈ eventsOf wd events ↔ event ∈ events ∧ event.wd = wd ∧ event.name.isSome := by
  simp [eventsOf]

lemma foldable_nil : Foldable decode [] := ⟨by simp, fun h => absurd rfl h⟩

lemma sources_ne_nil {events : List InotifyEvent} (h : events ≠ []) : sources false events ≠ [] := by
  obtain ⟨event, events, rfl⟩ := List.exists_cons_of_ne_nil h
  simp [sources]

lemma exists_last {l events : List InotifyEvent} (h : Decodable decode events) (hsub : l ⊆ events) (hne : l ≠ []) :
    ∃ file, l.getLast?.bind (fileOf decode) = some file := by
  rw [List.getLast?_eq_some_getLast hne]
  exact Option.isSome_iff_exists.mp (h _ (hsub (List.getLast_mem hne)))

/-- The record of a descriptor that has events, from the beginning. -/
lemma record_start {wd : ℤ} {events : List InotifyEvent} {s' : EventList Name}
    (h : Readable t allKeys decode events)
    (hs' : s' wd = recordEvents decode (t.pathForDescriptor allKeys wd) {} (eventsOf wd events))
    (hne : eventsOf wd events ≠ []) : ∃ info path, s' wd = some info ∧ t.pathForDescriptor allKeys wd = some path ∧
      info.changedPath = some path ∧ info.changedFile = lastFile decode (eventsOf wd events) ∧
      info.changedFileTo = lastFileTo decode (eventsOf wd events) ∧
      (.rename ∈ info.operations ↔ targets false (eventsOf wd events) ≠ []) := by
  obtain ⟨path, hpath⟩ := path_of_eventsOf h hne
  obtain ⟨info, hrun, hr, hp, hf, ht⟩ := exists_recordEvents (eventsOf wd events) ({} : EventInfo Name)
    (decodable_eventsOf h wd)
  rw [hpath, hrun] at hs'
  have hstart : decide (FileOperation.movedFrom ∈ ({} : EventInfo Name).operations) = false := by simp
  rw [hstart] at hr hp hf ht
  refine ⟨info, path, hs', hpath, ?_, ?_, ?_, ?_⟩
  · rw [hp, if_neg (sources_ne_nil hne)]
  · rw [hf, lastFile, Option.or_none]
  · rw [ht, lastFileTo, Option.or_none]
  · rw [hr]
    simp

/-- A buffer is reported as it is exactly when it is reportable. -/
theorem reports_iff (events : List InotifyEvent) :
    Reports t allKeys decode events ↔ Reportable t allKeys decode events := by
  rw [Reports, Reportable, checkForEvents]
  split_ifs with hkeys
  · subst hkeys
    simp [pathForDescriptor]
  have hreadable : ∀ {s'}, events.foldlM (handleEvent t allKeys decode) (fun _ => none) = some s' →
      Readable t allKeys decode events := fun h => readable_of_handled (by simp) h
  simp only [hkeys, false_or]
  constructor
  · rintro ⟨s', hrun, hfiles, hrenames⟩
    have hok := hreadable hrun
    refine ⟨hok, fun wd => ?_⟩
    obtain ⟨s'', hrun', hs⟩ := handleEvents_records hok fun _ => none
    obtain rfl := Option.some.inj (hrun.symm.trans hrun')
    by_cases hne : eventsOf wd events = []
    · rw [hne]
      exact foldable_nil
    have hwd := hs wd
    rw [if_neg hne] at hwd
    obtain ⟨info, path, hinfo, hpath, -, hfile, hfileTo, hrename⟩ := record_start hok hwd hne
    constructor
    · intro event hevent
      obtain ⟨hmem, rfl, hsome⟩ := mem_eventsOf.mp hevent
      obtain ⟨name, hname⟩ := Option.isSome_iff_exists.mp hsome
      obtain ⟨info', hinfo', -, file, hdecode, hin⟩ := hfiles event hmem name hname path hpath
      obtain rfl := Option.some.inj (hinfo.symm.trans hinfo')
      have hof : fileOf decode event = some file := by rw [fileOf, hname]; exact hdecode
      rw [hof, ← hfile, ← hfileTo]
      exact hin.imp Eq.symm Eq.symm
    · intro htargets
      obtain ⟨f, hf⟩ : ∃ f, info.changedFile = some f := by
        rw [hfile, lastFile]
        exact exists_last (decodable_eventsOf hok wd) (sources_subset _ _) (sources_ne_nil hne)
      obtain ⟨g, hg⟩ : ∃ g, info.changedFileTo = some g := by
        rw [hfileTo, lastFileTo]
        exact exists_last (decodable_eventsOf hok wd) (targets_subset _ _) htargets
      obtain ⟨source, hsource, target, htarget, hws, hwt, hks, hkt, hcookie, hns, hnt⟩ :=
        hrenames wd info hinfo (hrename.mpr htargets) f hf g hg
      refine ⟨source, mem_eventsOf.mpr ⟨hsource, hws, ?_⟩, target, mem_eventsOf.mpr ⟨htarget, hwt, ?_⟩, hks, hkt,
        hcookie, ?_, ?_⟩
      · obtain ⟨name, hname, -⟩ := Option.bind_eq_some_iff.mp hns
        rw [hname]
        rfl
      · obtain ⟨name, hname, -⟩ := Option.bind_eq_some_iff.mp hnt
        rw [hname]
        rfl
      · rw [← hfile, hf]
        exact hns
      · rw [← hfileTo, hg]
        exact hnt
  · rintro ⟨hok, hfold⟩
    obtain ⟨s', hrun, hs⟩ := handleEvents_records hok fun _ => none
    refine ⟨s', hrun, ?_, ?_⟩
    · intro event hmem name hname path hpath
      have hin : event ∈ eventsOf event.wd events := mem_eventsOf.mpr ⟨hmem, rfl, by rw [hname]; rfl⟩
      have hne : eventsOf event.wd events ≠ [] := List.ne_nil_of_mem hin
      have hwd := hs event.wd
      rw [if_neg hne] at hwd
      obtain ⟨info, path', hinfo, hpath', hchanged, hfile, hfileTo, -⟩ := record_start hok hwd hne
      obtain rfl := Option.some.inj (hpath.symm.trans hpath')
      obtain ⟨file, hdecode⟩ := Option.isSome_iff_exists.mp (hok event hmem name hname).2
      have hof : fileOf decode event = some file := by rw [fileOf, hname]; exact hdecode
      refine ⟨info, hinfo, hchanged, file, hdecode, ?_⟩
      rw [hfile, hfileTo, ← hof]
      exact ((hfold event.wd).1 event hin).imp Eq.symm Eq.symm
    · intro wd info hinfo hrename file hfile fileTo hfileTo
      by_cases hne : eventsOf wd events = []
      · rw [hs, if_pos hne] at hinfo
        cases hinfo
      have hwd := hs wd
      rw [if_neg hne] at hwd
      obtain ⟨info', path, hinfo', -, -, hf, hft, hren⟩ := record_start hok hwd hne
      obtain rfl := Option.some.inj (hinfo.symm.trans hinfo')
      obtain ⟨source, hsource, target, htarget, hks, hkt, hcookie, hns, hnt⟩ := (hfold wd).2 (hren.mp hrename)
      obtain ⟨hsmem, hws, -⟩ := mem_eventsOf.mp hsource
      obtain ⟨htmem, hwt, -⟩ := mem_eventsOf.mp htarget
      refine ⟨source, hsmem, target, htmem, hws, hwt, hks, hkt, hcookie, ?_, ?_⟩
      · exact hns.trans (hf.symm.trans hfile)
      · exact hnt.trans (hft.symm.trans hfileTo)

/-- A thread that watches `/d` with the descriptor 1. -/
def watchingD : OSEFileSystemMonitorThread :=
  ⟨3, fun path => if path = ['/', 'd'] then some ⟨1, 1⟩ else none, true, false⟩

/-- Of two files created in one batch the first one is not reported. -/
theorem two_created_not_reported : ¬Reports watchingD [['/', 'd']] (some : List UInt8 → Option (List UInt8))
    [⟨1, .create, 0, some [97]⟩, ⟨1, .create, 0, some [98]⟩] := by
  rintro ⟨s, hrun, hfiles, -⟩
  obtain rfl := Option.some.inj hrun
  obtain ⟨info, hinfo, -, file, hfile, hin⟩ :=
    hfiles ⟨1, .create, 0, some [97]⟩ List.mem_cons_self [97] rfl ['/', 'd'] (by decide)
  obtain rfl := Option.some.inj hinfo
  obtain rfl := Option.some.inj hfile
  revert hin
  decide

end Reporting

end OSEFileSystemMonitorThread

end Xperimentum.SystemKit
