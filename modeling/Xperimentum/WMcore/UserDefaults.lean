import Xperimentum.Lib.Partial
import Xperimentum.WMcore.PropListDictionary

/-! The user defaults of one domain: local changes, its file, which other processes replace, and the
synchronisation of the two. The search list and the notifications are left out. -/

namespace Xperimentum.WMcore

open Lib.Partial

structure DomainFile where
  text : Text
  mtime : ℤ

structure UserDefaults where
  appDomain : PropList
  dirty : Bool
  timestamp : ℤ

/-- A C string. -/
abbrev CString := {str : Text // 0 ∉ str}

/-- A property list as the library's constructors make them. -/
abbrev WMPropList (caseSensitive : Bool) := {plist : PropList // plist.WellFormed caseSensitive}

/-- `changes` holds, for each key set or removed since the last synchronisation, its local value. -/
structure DefaultsSession where
  database : UserDefaults
  file : Option DomainFile
  changes : List (PLKey × Option PropList)

inductive DefaultsEvent (caseSensitive : Bool) where
  | setObjectForKey (object : WMPropList caseSensitive) (defaultName : CString)
  | removeObjectForKey (defaultName : CString)
  /-- Another process replaces the file, `later + 1` seconds after what the database and the file know of. -/
  | replaceFile (text : Text) (later : ℕ)
  | synchronize (clock : ℤ)

section Model

variable (caseSensitive : Bool)

def readPropListFromFile (text : Text) : Option PropList :=
  readWhole caseSensitive (text.length + 1) (text.takeWhile (· ≠ 0))

def propListFileText (plist : PropList) : Text := indentedDescription plist 0 ++ [10]

def PropList.entries : PropList → List (PLKey × PropList)
  | .dictionary dict => dict
  | _ => []

/-- An assertion keeps what is no dictionary as it is. -/
def putInDomain (domain : PropList) (key : PLKey) (value : PropList) : PropList :=
  match domain with
  | .dictionary dict => .dictionary (putInPLDictionary caseSensitive dict key value)
  | domain => domain

def removeFromDomain (domain : PropList) (key : PLKey) : PropList :=
  match domain with
  | .dictionary dict => .dictionary (removeFromPLDictionary caseSensitive dict key)
  | domain => domain

/-- NULL where one of the two is no dictionary. -/
def mergeDomains : PropList → PropList → Option PropList
  | .dictionary dest, .dictionary source => some (.dictionary (mergePLDictionaries caseSensitive dest source))
  | _, _ => none

def UserDefaults.setObjectForKey (database : UserDefaults) (object : PropList) (defaultName : Text) : UserDefaults :=
  { database with appDomain := putInDomain caseSensitive database.appDomain (.string defaultName) object, dirty := true }

def UserDefaults.removeObjectForKey (database : UserDefaults) (defaultName : Text) : UserDefaults :=
  { database with appDomain := removeFromDomain caseSensitive database.appDomain (.string defaultName), dirty := true }

def fileIsNewer (database : UserDefaults) (file : Option DomainFile) : Bool :=
  match file with
  | some file => database.timestamp < file.mtime
  | none => false

def UserDefaults.stamped (database : UserDefaults) (file : DomainFile) : UserDefaults × Option DomainFile :=
  ({ database with dirty := false, timestamp := file.mtime }, some file)

/-- `WMSynchronizeUserDefaults`; `none` where the NULL that the merge returned is dereferenced. `clock` is the
modification time of what is written. -/
def UserDefaults.synchronize (database : UserDefaults) (file : Option DomainFile) (clock : ℤ) :
    Option (UserDefaults × Option DomainFile) :=
  let written := database.stamped ⟨propListFileText database.appDomain, clock⟩
  match file, fileIsNewer database file with
  | some file, true =>
    match readPropListFromFile caseSensitive file.text with
    | none => some written
    | some plF =>
      if database.dirty then
        (mergeDomains caseSensitive plF database.appDomain).map fun merged =>
          UserDefaults.stamped { database with appDomain := merged } file
      else some (UserDefaults.stamped { database with appDomain := plF } file)
  | _, _ => if database.dirty then some written else some (database, file)

def latest (database : UserDefaults) : Option DomainFile → ℤ
  | some file => max database.timestamp file.mtime
  | none => database.timestamp

def DefaultsSession.step (s : DefaultsSession) : DefaultsEvent caseSensitive → Option DefaultsSession
  | .setObjectForKey object defaultName =>
    some { s with
      database := s.database.setObjectForKey caseSensitive object defaultName
      changes := putInPLDictionary caseSensitive s.changes (.string defaultName) (some object) }
  | .removeObjectForKey defaultName =>
    some { s with
      database := s.database.removeObjectForKey caseSensitive defaultName
      changes := putInPLDictionary caseSensitive s.changes (.string defaultName) none }
  | .replaceFile text later =>
    some { s with file := some ⟨text, latest s.database s.file + later + 1⟩ }
  | .synchronize clock =>
    (s.database.synchronize caseSensitive s.file clock).map fun synced => ⟨synced.1, synced.2, []⟩

/-- A database is made of what its file holds, and is empty where that cannot be read. -/
def openDefaults (file : Option DomainFile) : DefaultsSession :=
  let domain := (file.bind fun file => readPropListFromFile caseSensitive file.text).getD (.dictionary [])
  ⟨⟨domain, false, (file.map DomainFile.mtime).getD 0⟩, file, []⟩

/-- The file reads as a property list that is equal to the domain. -/
def FileHolds (file : Option DomainFile) (domain : PropList) : Prop :=
  ∃ f ∈ file, ∃ read ∈ readPropListFromFile caseSensitive f.text, isPropListEqualTo caseSensitive domain read = true

/-- The key has the value of the change, or none where the change removed it. -/
def HasChange (domain : PropList) (change : PLKey × Option PropList) : Prop :=
  match change.2 with
  | some value => ∃ found ∈ hashGet caseSensitive domain.entries change.1,
      isPropListEqualTo caseSensitive value found = true
  | none => hashGet caseSensitive domain.entries change.1 = none

/-- The state after a synchronisation, with the changes before it. -/
structure Synchronised (changes : List (PLKey × Option PropList)) (s : DefaultsSession) : Prop where
  holds : FileHolds caseSensitive s.file s.database.appDomain
  inDomain : ∀ change ∈ changes, HasChange caseSensitive s.database.appDomain change
  inFile : ∀ f ∈ s.file, ∀ read ∈ readPropListFromFile caseSensitive f.text,
    ∀ change ∈ changes, HasChange caseSensitive read change

/-- The newer file already has what the domain has, and nothing that was removed from it. -/
def Absorbs (plF domain : PropList) (changes : List (PLKey × Option PropList)) : Prop :=
  (∃ dest source, plF = .dictionary dest ∧ domain = .dictionary source) ∧
  (∀ e ∈ domain.entries, HasChange caseSensitive plF (e.1, some e.2)) ∧
  ∀ change ∈ changes, change.2 = none → hashGet caseSensitive plF.entries change.1 = none

/-- What is written can be read back. -/
def Storable (domain : PropList) : Prop := Leaves (¬Bare ·) domain ∧ Leaves (¬Emptied ·) domain

def StepKeeps (s : DefaultsSession) : DefaultsEvent caseSensitive → Prop
  | .setObjectForKey _ _ => ∃ dict, s.database.appDomain = .dictionary dict
  | .removeObjectForKey _ => True
  | .replaceFile _ _ => True
  | .synchronize _ =>
    match s.file.bind fun file => readPropListFromFile caseSensitive file.text, fileIsNewer s.database s.file with
    | some plF, true => s.database.dirty = true → Absorbs caseSensitive plF s.database.appDomain s.changes
    | none, true => Storable s.database.appDomain
    | read, false => if s.database.dirty then Storable s.database.appDomain else read.isSome = true

end Model

section Steps

variable {caseSensitive : Bool}

/-- What holds between the steps: `current` of the changes, `held` of the file that nothing is known to differ
from. -/
structure DefaultsInv (caseSensitive : Bool) (s : DefaultsSession) : Prop where
  wellFormed : s.database.appDomain.WellFormed caseSensitive
  distinct : Distinct caseSensitive (s.changes.map Prod.fst)
  values : ∀ change ∈ s.changes, ∀ value ∈ change.2, value.WellFormed caseSensitive
  current : ∀ change ∈ s.changes, hashGet caseSensitive s.database.appDomain.entries change.1 = change.2
  clean : s.database.dirty = false → s.changes = []
  held : s.database.dirty = false → fileIsNewer s.database s.file = false → ∀ f ∈ s.file,
    ∀ read ∈ readPropListFromFile caseSensitive f.text,
      isPropListEqualTo caseSensitive s.database.appDomain read = true

lemma readPropListFromFile_written {domain : PropList} (hw : domain.WellFormed caseSensitive) (hs : Storable domain) :
    readPropListFromFile caseSensitive (propListFileText domain) = some domain := by
  have hr := renders_indentedDescription domain 0
  have hblank : Blank [10] := by simp [Blank, isspace, inrange]
  have hnul : ∀ ch ∈ propListFileText domain, decide (ch ≠ 0) = true := fun ch hc => by
    rcases List.mem_append.mp hc with hc | hc
    · exact decide_eq_true fun h0 => renders_noNul domain _ hr (h0 ▸ hc)
    · rw [List.mem_singleton.mp hc]
      rfl
  have htake : (propListFileText domain ++ []).takeWhile (· ≠ 0) =
      propListFileText domain ++ [].takeWhile (· ≠ 0) := List.takeWhile_append_of_pos hnul
  rw [List.append_nil, List.takeWhile_nil, List.append_nil] at htake
  have hlen : (indentedDescription domain 0).length < (propListFileText domain).length + 1 := by
    simp only [propListFileText, List.length_append]
    omega
  have h := (@readWhole_renders caseSensitive domain _ [10] hr hblank hw.noNul _ hlen).1 hs.1
  rw [readPropListFromFile, htake, propListFileText]
  rw [propListFileText] at h
  rw [h, reread_eq domain hw.distinct hs.2]

lemma hasChange_of_hashGet {domain : PropList} {change : PLKey × Option PropList}
    (hv : ∀ value ∈ change.2, value.WellFormed caseSensitive)
    (h : hashGet caseSensitive domain.entries change.1 = change.2) : HasChange caseSensitive domain change := by
  rw [HasChange]
  split
  · next value hc =>
    rw [hc] at h
    exact ⟨value, h, isPropListEqualTo_refl value (hv value hc).distinct⟩
  · next hc => rw [h, hc]

lemma synchronised_written {s : DefaultsSession} (h : DefaultsInv caseSensitive s) (hs : Storable s.database.appDomain)
    (clock : ℤ) : Synchronised caseSensitive s.changes
      ⟨⟨s.database.appDomain, false, clock⟩, some ⟨propListFileText s.database.appDomain, clock⟩, []⟩ := by
  have hread := readPropListFromFile_written h.wellFormed hs
  have hchanges : ∀ change ∈ s.changes, HasChange caseSensitive s.database.appDomain change := fun change hc =>
    hasChange_of_hashGet (h.values change hc) (h.current change hc)
  refine ⟨⟨_, rfl, _, hread, isPropListEqualTo_refl _ h.wellFormed.distinct⟩, hchanges, fun f hf read hr => ?_⟩
  obtain rfl := Option.some.inj hf
  obtain rfl := Option.some.inj (hread.symm.trans hr)
  exact hchanges

lemma inv_written {s : DefaultsSession} (h : DefaultsInv caseSensitive s) (hs : Storable s.database.appDomain)
    (clock : ℤ) : DefaultsInv caseSensitive
      ⟨⟨s.database.appDomain, false, clock⟩, some ⟨propListFileText s.database.appDomain, clock⟩, []⟩ := by
  have hread := readPropListFromFile_written h.wellFormed hs
  refine ⟨h.wellFormed, List.Pairwise.nil, by simp, by simp, fun _ => rfl, fun _ _ f hf read hr => ?_⟩
  obtain rfl := Option.some.inj hf
  obtain rfl := Option.some.inj (hread.symm.trans hr)
  exact isPropListEqualTo_refl _ h.wellFormed.distinct

lemma inv_loaded {file : DomainFile} {read : PropList}
    (hr : readPropListFromFile caseSensitive file.text = some read) :
    DefaultsInv caseSensitive ⟨⟨read, false, file.mtime⟩, some file, []⟩ := by
  have hw := readWhole_wellFormed hr
  refine ⟨hw, List.Pairwise.nil, by simp, by simp, fun _ => rfl, fun _ _ f hf read' hr' => ?_⟩
  obtain rfl := Option.some.inj hf
  obtain rfl := Option.some.inj (hr.symm.trans hr')
  exact isPropListEqualTo_refl _ hw.distinct

lemma synchronised_loaded {file : DomainFile} {read : PropList}
    (hr : readPropListFromFile caseSensitive file.text = some read) :
    Synchronised caseSensitive [] ⟨⟨read, false, file.mtime⟩, some file, []⟩ :=
  ⟨⟨file, rfl, read, hr, isPropListEqualTo_refl _ (readWhole_wellFormed hr).distinct⟩, by simp, by simp⟩

lemma equal_merge {dest source : List (PLKey × PropList)} (hd : (PropList.dictionary dest).WellFormed caseSensitive)
    (h : ∀ e ∈ source, HasChange caseSensitive (.dictionary dest) (e.1, some e.2)) :
    isPropListEqualTo caseSensitive (.dictionary (mergePLDictionaries caseSensitive dest source))
      (.dictionary dest) = true := by
  obtain ⟨hdistinct, hvalues⟩ := wellFormed_dictionary.mp hd
  have hlen : (mergePLDictionaries caseSensitive dest source).length = dest.length := by
    refine length_merge hdistinct fun e he => ?_
    obtain ⟨found, hf, -⟩ := h e he
    exact Option.isSome_of_mem hf
  have hentries : ∀ e ∈ mergePLDictionaries caseSensitive dest source, ∃ found ∈ hashGet caseSensitive dest e.1,
      isPropListEqualTo caseSensitive e.2 found = true := by
    intro e he
    rcases mem_merge he with he | he
    · exact ⟨e.2, hashGet_of_mem hdistinct he, isPropListEqualTo_refl _ (hvalues e he).2.distinct⟩
    · exact h e he
  rw [isPropListEqualTo, hlen]
  simp only [decide_true, Bool.true_and]
  generalize mergePLDictionaries caseSensitive dest source = merged at hentries
  induction merged with
  | nil => rw [equalEntries]
  | cons e merged ih =>
    obtain ⟨key, val⟩ := e
    obtain ⟨found, hf, he⟩ := hentries (key, val) (by simp)
    rw [equalEntries, hf, ih fun d hd => hentries d (List.mem_cons_of_mem _ hd)]
    simp [he]

lemma merged_keeps {s : DefaultsSession} {file : DomainFile} {dest source : List (PLKey × PropList)}
    (h : DefaultsInv caseSensitive s) (hdomain : s.database.appDomain = .dictionary source)
    (hr : readPropListFromFile caseSensitive file.text = some (.dictionary dest))
    (habsorbs : Absorbs caseSensitive (.dictionary dest) s.database.appDomain s.changes) :
    let t : DefaultsSession :=
      ⟨⟨.dictionary (mergePLDictionaries caseSensitive dest source), false, file.mtime⟩, some file, []⟩
    DefaultsInv caseSensitive t ∧ Synchronised caseSensitive s.changes t := by
  obtain ⟨-, hentries, hremoved⟩ := habsorbs
  have hcurrent := h.current
  have hsource := h.wellFormed
  rw [hdomain] at hentries hcurrent hsource
  have hdest := readWhole_wellFormed hr
  obtain ⟨hdd, hdv⟩ := wellFormed_dictionary.mp hdest
  obtain ⟨hsd, hsv⟩ := wellFormed_dictionary.mp hsource
  have hequal := equal_merge hdest hentries
  have hmerged : (PropList.dictionary (mergePLDictionaries caseSensitive dest source)).WellFormed caseSensitive := by
    refine wellFormed_dictionary.mpr ⟨distinct_merge hdd source, fun e he => ?_⟩
    rcases mem_merge he with he | he
    · exact hdv e he
    · exact hsv e he
  have hread : ∀ f ∈ some file, ∀ read ∈ readPropListFromFile caseSensitive f.text, read = .dictionary dest := by
    intro f hf read hr'
    obtain rfl := Option.some.inj hf
    exact (Option.some.inj (hr.symm.trans hr')).symm
  refine ⟨⟨hmerged, List.Pairwise.nil, by simp, by simp, fun _ => rfl, fun _ _ f hf read hr' => ?_⟩,
    ⟨file, rfl, _, hr, hequal⟩, fun change hc => ?_, fun f hf read hr' change hc => ?_⟩
  · rw [hread f hf read hr']
    exact hequal
  · refine hasChange_of_hashGet (h.values change hc) ?_
    have hget := hcurrent change hc
    rw [PropList.entries] at hget ⊢
    rw [hashGet_merge hdd hsd, hget]
    cases hch : change.2 with
    | some value => rfl
    | none => exact hremoved change hc hch
  · rw [hread f hf read hr']
    have hget := hcurrent change hc
    rw [PropList.entries] at hget
    cases hch : change.2 with
    | none =>
      rw [HasChange, hch]
      exact hremoved change hc hch
    | some value =>
      rw [hch] at hget
      obtain ⟨e, he, hk, rfl⟩ := mem_of_hashGet hget
      have hfound := hentries e he
      rw [HasChange] at hfound ⊢
      simp only [hch, hashGet_congr hk]
      exact hfound

lemma synchronize_known {database : UserDefaults} {file : Option DomainFile} (hn : fileIsNewer database file = false)
    (clock : ℤ) : database.synchronize caseSensitive file clock =
      some (if database.dirty then database.stamped ⟨propListFileText database.appDomain, clock⟩
        else (database, file)) := by
  cases file with
  | none =>
    rw [UserDefaults.synchronize]
    · split <;> rfl
    · simp
  | some file =>
    simp only [UserDefaults.synchronize, hn]
    split <;> rfl

lemma synchronize_unreadable {database : UserDefaults} {file : DomainFile}
    (hn : fileIsNewer database (some file) = true) (hr : readPropListFromFile caseSensitive file.text = none)
    (clock : ℤ) : database.synchronize caseSensitive (some file) clock =
      some (database.stamped ⟨propListFileText database.appDomain, clock⟩) := by
  simp only [UserDefaults.synchronize, hn, hr]

lemma synchronize_newer {database : UserDefaults} {file : DomainFile} {plF : PropList}
    (hn : fileIsNewer database (some file) = true) (hr : readPropListFromFile caseSensitive file.text = some plF)
    (clock : ℤ) : database.synchronize caseSensitive (some file) clock =
      if database.dirty then
        (mergeDomains caseSensitive plF database.appDomain).map fun merged =>
          UserDefaults.stamped { database with appDomain := merged } file
      else some (UserDefaults.stamped { database with appDomain := plF } file) := by
  simp only [UserDefaults.synchronize, hn, hr]

lemma synchronize_spec {s : DefaultsSession} (h : DefaultsInv caseSensitive s) (clock : ℤ)
    (hk : StepKeeps caseSensitive s (.synchronize clock)) :
    Ensures (s.step caseSensitive (.synchronize clock)) fun t =>
      DefaultsInv caseSensitive t ∧ Synchronised caseSensitive s.changes t := by
  obtain ⟨⟨domain, dirty, timestamp⟩, file, changes⟩ := s
  rw [StepKeeps] at hk
  rw [DefaultsSession.step]
  cases hn : fileIsNewer ⟨domain, dirty, timestamp⟩ file with
  | true =>
    cases file with
    | none => cases hn
    | some file =>
      simp only [hn, Option.bind_some] at hk ⊢
      cases hr : readPropListFromFile caseSensitive file.text with
      | none =>
        rw [hr] at hk
        rw [synchronize_unreadable hn hr]
        exact ensures_some ⟨inv_written h hk clock, synchronised_written h hk clock⟩
      | some plF =>
        rw [hr] at hk
        rw [synchronize_newer hn hr]
        cases dirty with
        | false =>
          have hclean : changes = [] := h.clean rfl
          subst hclean
          exact ensures_some ⟨inv_loaded hr, synchronised_loaded hr⟩
        | true =>
          have habsorbs := hk rfl
          obtain ⟨⟨dest, source, rfl, rfl⟩, -⟩ := hk rfl
          exact ensures_some (merged_keeps h rfl hr habsorbs)
  | false =>
    simp only [hn] at hk
    rw [synchronize_known hn]
    cases dirty with
    | true =>
      have hk : Storable domain := hk
      exact ensures_some ⟨inv_written h hk clock, synchronised_written h hk clock⟩
    | false =>
      have hclean : changes = [] := h.clean rfl
      subst hclean
      cases file with
      | none => cases hk
      | some file =>
        obtain ⟨read, hr⟩ := Option.isSome_iff_exists.mp hk
        exact ensures_some ⟨h, ⟨file, rfl, read, hr, h.held rfl hn file rfl read hr⟩, by simp, by simp⟩

lemma inv_changed {s : DefaultsSession} (h : DefaultsInv caseSensitive s) {domain : PropList}
    (hw : domain.WellFormed caseSensitive) {key : PLKey} {value : Option PropList}
    (hv : ∀ v ∈ value, v.WellFormed caseSensitive)
    (hget : ∀ other, hashGet caseSensitive domain.entries other =
      if equalKeys caseSensitive other key = true then value
      else hashGet caseSensitive s.database.appDomain.entries other) :
    DefaultsInv caseSensitive { s with
      database := { s.database with appDomain := domain, dirty := true }
      changes := putInPLDictionary caseSensitive s.changes key value } := by
  refine ⟨hw, distinct_put h.distinct key value, fun change hc => ?_, fun change hc => ?_, by simp, by simp⟩
  · rcases mem_put hc with hc | rfl
    · exact h.values change hc
    · exact hv
  · rw [hget]
    rcases List.mem_append.mp hc with hc | hc
    · have hne := not_equalKeys_of_mem_remove h.distinct hc
      have hno : ¬equalKeys caseSensitive change.1 key = true := fun he => by
        rw [equalKeys_symm he] at hne
        cases hne
      rw [if_neg hno]
      exact h.current change (List.mem_of_mem_eraseP hc)
    · rw [List.mem_singleton.mp hc, if_pos (equalKeys_refl key)]

lemma step_inv (s : DefaultsSession) (e : DefaultsEvent caseSensitive) (h : DefaultsInv caseSensitive s)
    (hk : StepKeeps caseSensitive s e) : Ensures (s.step caseSensitive e) (DefaultsInv caseSensitive) := by
  cases e with
  | setObjectForKey object defaultName =>
    obtain ⟨dict, hd⟩ := hk
    have hw := h.wellFormed
    rw [hd] at hw
    refine ensures_some (inv_changed h ?_ (fun v hv => ?_) fun other => ?_)
    · rw [hd]
      exact wellFormed_put hw defaultName.2 object.2
    · obtain rfl := Option.some.inj hv
      exact object.2
    · rw [hd]
      exact hashGet_put (wellFormed_dictionary.mp hw).1 _ _ other
  | removeObjectForKey defaultName =>
    have hw := h.wellFormed
    refine ensures_some (inv_changed h ?_ (by simp) fun other => ?_)
    · cases hd : s.database.appDomain with
      | dictionary dict =>
        rw [hd] at hw
        obtain ⟨hdistinct, hv⟩ := wellFormed_dictionary.mp hw
        exact wellFormed_dictionary.mpr ⟨distinct_remove hdistinct _, fun e he => hv e (List.mem_of_mem_eraseP he)⟩
      | string str => rwa [hd] at hw
      | data data => rwa [hd] at hw
      | array array => rwa [hd] at hw
    · cases hd : s.database.appDomain with
      | dictionary dict =>
        rw [hd] at hw
        exact hashGet_remove (wellFormed_dictionary.mp hw).1 _ other
      | string str | data data | array array =>
        split <;> rfl
  | replaceFile text later =>
    refine ensures_some ⟨h.wellFormed, h.distinct, h.values, h.current, h.clean, fun _ hn => ?_⟩
    rw [fileIsNewer] at hn
    have hle : s.database.timestamp ≤ latest s.database s.file := by
      cases s.file with
      | none => exact le_refl _
      | some file => exact le_max_left _ _
    simp only [decide_eq_false_iff_not, not_lt] at hn
    omega
  | synchronize clock => exact (synchronize_spec h clock hk).imp fun t ht => ht.1

lemma openDefaults_inv (file : Option DomainFile) : DefaultsInv caseSensitive (openDefaults caseSensitive file) := by
  refine ⟨?_, List.Pairwise.nil, by simp [openDefaults], by simp [openDefaults], fun _ => rfl, fun _ _ f hf read hr => ?_⟩
  · cases hr : file.bind fun file => readPropListFromFile caseSensitive file.text with
    | none =>
      simp only [openDefaults, hr, Option.getD_none]
      exact wellFormed_dictionary.mpr ⟨List.Pairwise.nil, by simp⟩
    | some read =>
      simp only [openDefaults, hr, Option.getD_some]
      obtain ⟨f, -, hf⟩ := Option.bind_eq_some_iff.mp hr
      exact readWhole_wellFormed hf
  · have hfile : file = some f := hf
    subst hfile
    simp only [openDefaults, Option.bind_some, Option.mem_def.mp hr, Option.getD_some]
    exact isPropListEqualTo_refl _ (readWhole_wellFormed hr).distinct

end Steps

/-- Every synchronisation of a run, as the last step of one of its beginnings. -/
theorem synchronize_run (caseSensitive : Bool) (file : Option DomainFile) (es : List (DefaultsEvent caseSensitive))
    (clock : ℤ) (h : Admits (DefaultsSession.step caseSensitive) (StepKeeps caseSensitive)
      (openDefaults caseSensitive file) (es ++ [.synchronize clock])) :
    Ensures (tryRun (DefaultsSession.step caseSensitive) (openDefaults caseSensitive file) es) fun s =>
      Ensures (s.step caseSensitive (.synchronize clock)) (Synchronised caseSensitive s.changes) := by
  obtain ⟨s, hs, hinv, hk⟩ := tryRun_last step_inv (openDefaults_inv file) h
  exact ⟨s, hs, (synchronize_spec hinv clock hk).imp fun t ht => ht.2⟩

/-- The file of an empty domain, `{}` on a line. -/
def emptyFile : DomainFile := ⟨[123, 125, 10], 5⟩

def sampleKey : CString := ⟨[97], by decide⟩

def sampleValue : WMPropList true :=
  ⟨.string [98], by simp [Leaves, NoNul], by simp [DistinctKeys]⟩

theorem synchronize_run_set :
    Ensures (tryRun (DefaultsSession.step true) (openDefaults true (some emptyFile))
      [.setObjectForKey sampleValue sampleKey]) fun s =>
        Ensures (s.step true (.synchronize 9)) (Synchronised true s.changes) := by
  refine synchronize_run true (some emptyFile) [.setObjectForKey sampleValue sampleKey] 9 ⟨⟨[], rfl⟩, fun t ht => ?_⟩
  obtain rfl := Option.some.inj ht
  refine ⟨?_, fun _ _ => trivial⟩
  have hs : Storable (.dictionary [(.string [97], .string [98])]) := by
    simp [Storable, Leaves, EntriesLeaves, Bare, Emptied]
  exact hs

/-- A key is set, another process writes the file, and what is merged of the two is not written. -/
theorem merge_not_synchronised :
    ¬Ensures (tryRun (DefaultsSession.step true) (openDefaults true (some emptyFile))
      [.setObjectForKey sampleValue sampleKey, .replaceFile [123, 125, 10] 0]) fun s =>
        Ensures (s.step true (.synchronize 9)) (Synchronised true s.changes) := by
  rintro ⟨s, hs, t, ht, hsync⟩
  obtain rfl := Option.some.inj hs
  obtain rfl := Option.some.inj ht
  obtain ⟨f, hf, read, hr, he⟩ := hsync.holds
  obtain rfl := Option.some.inj hf
  obtain rfl := Option.some.inj hr
  exact absurd he (by decide)

end Xperimentum.WMcore
