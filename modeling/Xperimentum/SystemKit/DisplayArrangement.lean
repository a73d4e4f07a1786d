import Xperimentum.Lib.StableSort
import Xperimentum.SystemKit.Screen

/-! Frames of the displays behind an arranged layout. -/

namespace Xperimentum.SystemKit.OSEScreen

open Lib.StableSort

variable {e : Surroundings} {s t : OSEScreen} {layout : List Entry} {d : Entry} {name : String} {f g : String → Frame}

section Applied

/-- The display is switched off because the lid is closed. -/
abbrev lidded (e : Surroundings) (s : OSEScreen) (name : String) : Prop :=
  (s.display name).isBuiltin = true ∧ e.isLidClosed = true

lemma display_setDisplay_self (x : OSEDisplay) (v : Server) :
    ({ s.setDisplay name x with server := v } : OSEScreen).display name = x := Function.update_self ..

lemma display_applyEntry_ne {n : String} (h : n ≠ d.name) : (applyEntry e s d).display n = s.display n := by
  simp only [applyEntry]
  split
  · rfl
  · split
    · split
      · exact Function.update_of_ne h ..
      · exact Function.update_of_ne h ..
    · exact Function.update_of_ne h ..

/-- What an entry makes of the frames of its display. -/
structure Applied (e : Surroundings) (s t : OSEScreen) (d : Entry) : Prop where
  on : d.isActive = .yes → ¬lidded e s d.name →
    (t.display d.name).frame = d.frame ∧ (t.display d.name).hiddenFrame = (s.display d.name).hiddenFrame
  closed : d.isActive = .yes → lidded e s d.name → (t.display d.name).frame.width = 0
  off : d.isActive ≠ .yes → (t.display d.name).frame =
    ⟨(s.display d.name).hiddenFrame.x, (s.display d.name).hiddenFrame.y, 0, 0⟩ ∧
      (t.display d.name).hiddenFrame = (s.display d.name).hiddenFrame

lemma applied_applyEntry (hname : d.name ∈ s.outputs) : Applied e s (applyEntry e s d) d := by
  refine ⟨fun hactive hlid => ?_, fun hactive hlid => ?_, fun hactive => ?_⟩
  · have hlid' : ¬((s.display d.name).isBuiltin && e.isLidClosed) = true := by simpa using hlid
    simp only [applyEntry, if_neg (not_not.mpr hname), if_pos hactive, if_neg hlid']
    obtain ⟨hwidth, hheight⟩ :=
      (s.display d.name).resolutionWithWidth_size d.frame.width d.frame.height d.frameRate
    obtain ⟨l, hl⟩ := (s.display d.name).resolutionWithWidth_display d.frame.width d.frame.height d.frameRate
    rw [display_setDisplay_self]
    simp only [OSEDisplay.setResolution, hwidth, hheight, hl, and_self]
  · have hlid' : ((s.display d.name).isBuiltin && e.isLidClosed) = true := by simpa using hlid
    simp only [applyEntry, if_neg (not_not.mpr hname), if_pos hactive, if_pos hlid', disable]
    rw [display_setDisplay_self]
    rfl
  · simp only [applyEntry, if_neg (not_not.mpr hname), if_neg hactive, disable]
    rw [display_setDisplay_self]
    exact ⟨rfl, rfl⟩

lemma display_foldl_ne {n : String} (h : n ∉ layout.map (·.name)) :
    (layout.foldl (applyEntry e) s).display n = s.display n := by
  induction layout generalizing s with
  | nil => rfl
  | cons d layout ih =>
    rw [List.map_cons, List.mem_cons, not_or] at h
    rw [List.foldl_cons, ih h.2, display_applyEntry_ne h.1]

lemma applied_foldl (hnames : (layout.map (·.name)).Nodup) (hknown : ∀ d ∈ layout, d.name ∈ s.outputs)
    (hd : d ∈ layout) : Applied e s (layout.foldl (applyEntry e) s) d := by
  induction layout generalizing s with
  | nil => cases hd
  | cons a layout ih =>
    rw [List.map_cons, List.nodup_cons] at hnames
    rw [List.foldl_cons]
    rcases List.mem_cons.mp hd with rfl | hd
    · have h := applied_applyEntry (e := e) (hknown d List.mem_cons_self)
      have hsame : (layout.foldl (applyEntry e) (applyEntry e s d)).display d.name = (applyEntry e s d).display d.name :=
        display_foldl_ne hnames.1
      exact ⟨by rw [hsame]; exact h.on, by rw [hsame]; exact h.closed, by rw [hsame]; exact h.off⟩
    · have hne : d.name ≠ a.name := fun heq => hnames.1 (heq ▸ List.mem_map_of_mem hd)
      have hsame : (applyEntry e s a).display d.name = s.display d.name := display_applyEntry_ne hne
      have hknown' : ∀ d ∈ layout, d.name ∈ (applyEntry e s a).outputs := fun d' hd' =>
        (kin_applyEntry e s a).outputs.symm ▸ hknown d' (List.mem_cons_of_mem a hd')
      obtain ⟨hon, hclosed, hoff⟩ := ih hnames.2 hknown' hd
      simp only [lidded, hsame] at hon hclosed hoff
      exact ⟨hon, hclosed, hoff⟩

lemma display_applyDisplayLayout (hvalid : s.validateLayout e layout = true) :
    ∃ t : OSEScreen, t.outputs = s.outputs ∧ t.display = s.display ∧
      (s.applyDisplayLayout e layout).display = (layout.foldl (applyEntry e) t).display ∧
      (s.applyDisplayLayout e layout).outputs = (layout.foldl (applyEntry e) t).outputs := by
  simp only [applyDisplayLayout, if_pos hvalid]
  by_cases hgrows : (sizeInPixelsForLayout layout).1 > s.width ∧ (sizeInPixelsForLayout layout).2 > s.height
  · simp only [if_pos hgrows]
    refine ⟨s.setScreenSize (sizeInPixelsForLayout layout).1 (sizeInPixelsForLayout layout).2, rfl, rfl, ?_, ?_⟩ <;>
      split <;> rfl
  · simp only [if_neg hgrows]
    refine ⟨s, rfl, rfl, ?_, ?_⟩ <;> split <;> rfl

end Applied

section Arranging

/-- The displays of the list lie side by side from there. -/
def PackedFrom (f : String → Frame) : ℤ → List String → Prop
  | _, [] => True
  | x, n :: names => (f n).x = x ∧ PackedFrom f (x + (f n).width) names

lemma PackedFrom.shift {x c : ℤ} {names : List String} (h : PackedFrom f (x + c) names) (h' : PackedFrom g x names)
    (hwidth : ∀ n ∈ names, (f n).width = (g n).width) : ∀ n ∈ names, (g n).x = (f n).x - c := by
  induction names generalizing x with
  | nil => intro n hn; cases hn
  | cons a names ih =>
    intro n hn
    rcases List.mem_cons.mp hn with rfl | hn
    · rw [h.1, h'.1, add_sub_cancel_right]
    · have hrest := h.2
      rw [hwidth a List.mem_cons_self, add_right_comm] at hrest
      exact ih hrest h'.2 (fun m hm => hwidth m (List.mem_cons_of_mem a hm)) n hn

lemma PackedFrom.x_eq {x : ℤ} {names : List String} (h : PackedFrom f x names) (h' : PackedFrom g x names)
    (hwidth : ∀ n ∈ names, (f n).width = (g n).width) : ∀ n ∈ names, (g n).x = (f n).x := by
  intro n hn
  rw [← add_zero x] at h
  simpa using h.shift h' hwidth n hn

lemma PackedFrom.without {x : ℤ} {pre post : List String} (h : PackedFrom f x (pre ++ name :: post))
    (h' : PackedFrom g x (pre ++ post)) (hwidth : ∀ n ∈ pre ++ post, (f n).width = (g n).width) :
    (∀ n ∈ pre, (g n).x = (f n).x) ∧ ∀ n ∈ post, (g n).x = (f n).x - (f name).width := by
  induction pre generalizing x with
  | nil => exact ⟨fun n hn => (List.not_mem_nil hn).elim, h.2.shift h' hwidth⟩
  | cons a pre ih =>
    have hrest := h'.2
    rw [← hwidth a List.mem_cons_self] at hrest
    obtain ⟨hpre, hpost⟩ := ih h.2 hrest fun n hn => hwidth n (List.mem_cons_of_mem a hn)
    refine ⟨fun n hn => ?_, hpost⟩
    rcases List.mem_cons.mp hn with rfl | hn
    · rw [h.1, h'.1]
    · exact hpre n hn

lemma PackedFrom.le_x {x : ℤ} {names : List String} (h : PackedFrom f x names)
    (hwidth : ∀ n ∈ names, 0 < (f n).width) : ∀ n ∈ names, x ≤ (f n).x := by
  induction names generalizing x with
  | nil => intro n hn; cases hn
  | cons a names ih =>
    intro n hn
    rcases List.mem_cons.mp hn with rfl | hn
    · exact h.1.ge
    · have hle := ih h.2 (fun m hm => hwidth m (List.mem_cons_of_mem a hm)) n hn
      have hpos := hwidth a List.mem_cons_self
      omega

lemma PackedFrom.sorted {x : ℤ} {names : List String} (h : PackedFrom f x names)
    (hwidth : ∀ n ∈ names, 0 < (f n).width) : names.Pairwise fun m n => (f m).x + (f m).width ≤ (f n).x := by
  induction names generalizing x with
  | nil => exact .nil
  | cons a names ih =>
    have hrest : ∀ n ∈ names, 0 < (f n).width := fun m hm => hwidth m (List.mem_cons_of_mem a hm)
    refine List.pairwise_cons.mpr ⟨fun n hn => ?_, ih h.2 hrest⟩
    rw [h.1]
    exact h.2.le_x hrest n hn

lemma map_name_arrange (x : ℤ) (layout : List Entry) : (arrange x layout).map (·.name) = layout.map (·.name) := by
  induction layout generalizing x with
  | nil => rfl
  | cons d layout ih =>
    rw [arrange]
    split
    · rw [List.map_cons, ih, List.map_cons]
    · rw [List.map_cons, ih, List.map_cons]

/-- All but the position is as before. -/
structure Moved (d d' : Entry) : Prop where
  id : d'.id = d.id
  name : d'.name = d.name
  frame : d'.frame = { d.frame with x := d'.frame.x }
  isActive : d'.isActive = d.isActive
  hasGamma : d'.hasGamma = d.hasGamma

lemma exists_moved {x : ℤ} {d' : Entry} (h : d' ∈ arrange x layout) : ∃ d ∈ layout, Moved d d' := by
  induction layout generalizing x with
  | nil => cases h
  | cons d layout ih =>
    rw [arrange] at h
    split at h <;> rcases List.mem_cons.mp h with rfl | h
    · exact ⟨d', List.mem_cons_self, rfl, rfl, rfl, rfl, rfl⟩
    · obtain ⟨a, ha, hmoved⟩ := ih h
      exact ⟨a, List.mem_cons_of_mem d ha, hmoved⟩
    · exact ⟨d, List.mem_cons_self, rfl, rfl, rfl, rfl, rfl⟩
    · obtain ⟨a, ha, hmoved⟩ := ih h
      exact ⟨a, List.mem_cons_of_mem d ha, hmoved⟩

lemma packedFrom_arrange {x : ℤ} (h : ∀ d ∈ arrange x layout, d.isActive ≠ .no → f d.name = d.frame) :
    PackedFrom f x ((layout.filter fun d => d.isActive ≠ .no).map (·.name)) := by
  induction layout generalizing x with
  | nil => trivial
  | cons d layout ih =>
    rw [arrange] at h
    by_cases hno : d.isActive = .no
    · rw [if_pos hno] at h
      rw [List.filter_cons_of_neg (by simpa using hno)]
      exact ih fun a ha => h a (List.mem_cons_of_mem _ ha)
    · rw [if_neg hno] at h
      have hd := h _ List.mem_cons_self hno
      rw [List.filter_cons_of_pos (by simpa using hno), List.map_cons]
      refine ⟨congrArg Frame.x hd, ?_⟩
      rw [congrArg Frame.width hd]
      exact ih fun a ha => h a (List.mem_cons_of_mem _ ha)

end Arranging

section Arranged

variable (hsort : Sorts e.sortedArrayUsingFunction)

/-- Each connected display can be found by its identifier. -/
def Identified (e : Surroundings) (s : OSEScreen) : Prop :=
  ∀ name ∈ s.connectedDisplays, (s.displayWithID e (s.display name).uniqueID).isSome = true

lemma Kin.connectedDisplays (h : Kin s t) : t.connectedDisplays = s.connectedDisplays := by
  simp only [OSEScreen.connectedDisplays, h.outputs, h.isConnected]

lemma Kin.identified_iff (h : Kin s t) : Identified e t ↔ Identified e s := by
  simp only [Identified, h.connectedDisplays, displayWithID, h.outputs, h.uniqueID]

lemma nodup_connectedDisplays (s : OSEScreen) : s.connectedDisplays.Nodup := s.nodup.filter _

lemma map_name_currentLayout (s : OSEScreen) : s.currentLayout.map (·.name) = s.connectedDisplays := by
  rw [currentLayout, List.map_map]
  exact List.map_id _

lemma isActive_entry : (s.entry name).isActive = .yes ↔ (s.display name).isActive = true := by
  simp only [entry]
  split <;> simp_all

lemma isActive_entry_no : (s.entry name).isActive = .no ↔ (s.display name).isActive = false := by
  simp only [entry]
  split <;> simp_all

lemma isActive_iff {x : OSEDisplay} : x.isActive = true ↔ 0 < x.frame.width ∧ 0 < x.frame.height := by
  simp [OSEDisplay.isActive, Frame.isEmpty]

include hsort

lemma perm_arranged : (s.arrangedDisplayLayout e).map (·.name) |>.Perm s.connectedDisplays := by
  rw [arrangedDisplayLayout, map_name_arrange, ← map_name_currentLayout]
  exact (hsort.perm _ _).map _

lemma moved_of_arranged {d' : Entry} (h : d' ∈ s.arrangedDisplayLayout e) :
    d'.name ∈ s.connectedDisplays ∧ Moved (s.entry d'.name) d' := by
  obtain ⟨d, hd, hmoved⟩ := exists_moved h
  rw [(hsort.perm _ _).mem_iff, currentLayout] at hd
  obtain ⟨name, hname, rfl⟩ := List.mem_map.mp hd
  have hsame : d'.name = name := hmoved.name
  subst hsame
  exact ⟨hname, hmoved⟩

lemma validate_arranged : s.validateLayout e (s.arrangedDisplayLayout e) = true ↔ Identified e s := by
  rw [validateLayout, List.all_eq_true]
  refine ⟨fun h name hname => ?_, fun h d' hd' => ?_⟩
  · obtain ⟨d', hd', rfl⟩ := List.mem_map.mp ((perm_arranged hsort).mem_iff.mpr hname)
    have hvalid := h d' hd'
    rw [(moved_of_arranged hsort hd').2.id] at hvalid
    exact (Bool.and_eq_true_iff.mp (Bool.and_eq_true_iff.mp hvalid).1).1
  · obtain ⟨hname, hmoved⟩ := moved_of_arranged hsort hd'
    have hfound : (s.displayWithID e (s.entry d'.name).id).isSome = true := h _ hname
    have hsize : (s.entry d'.name).isActive = .yes → 0 < d'.frame.width ∧ 0 < d'.frame.height := by
      intro hactive
      rw [hmoved.frame]
      exact isActive_iff.mp (isActive_entry.mp hactive)
    rw [hmoved.id, hmoved.hasGamma, hfound, hmoved.isActive]
    by_cases hactive : (s.entry d'.name).isActive = .yes
    · obtain ⟨hw, hh⟩ := hsize hactive
      simp [hw, hh, entry]
    · rw [isActive_entry, Bool.not_eq_true] at hactive
      simp [entry, hactive]

/-- What applying the arranged layout does to the frames. -/
structure Arranged (e : Surroundings) (s t : OSEScreen) : Prop where
  kin : Kin s t
  same : ∀ name ∉ s.connectedDisplays, t.display name = s.display name
  on : ∀ name ∈ s.connectedDisplays, (s.display name).isActive = true → ¬lidded e s name →
    (t.display name).frame = { (s.display name).frame with x := (t.display name).frame.x } ∧
      (t.display name).hiddenFrame = (s.display name).hiddenFrame
  closed : ∀ name ∈ s.connectedDisplays, (s.display name).isActive = true → lidded e s name →
    (t.display name).frame.width = 0
  off : ∀ name ∈ s.connectedDisplays, (s.display name).isActive = false →
    (t.display name).frame = ⟨(s.display name).hiddenFrame.x, (s.display name).hiddenFrame.y, 0, 0⟩ ∧
      (t.display name).hiddenFrame = (s.display name).hiddenFrame
  packed : (∀ name ∈ s.connectedDisplays, (s.display name).isActive = true → ¬lidded e s name) →
    PackedFrom (fun name => (t.display name).frame) 0
      (((e.sortedArrayUsingFunction compareLayoutEntries s.currentLayout).filter fun d => d.isActive ≠ .no).map
        (·.name))

lemma arranged_applyDisplayLayout (hid : Identified e s) :
    Arranged e s (s.applyDisplayLayout e (s.arrangedDisplayLayout e)) := by
  obtain ⟨u, hout, hdisplay, hresult, hresultOut⟩ := display_applyDisplayLayout ((validate_arranged hsort).mpr hid)
  have hperm := perm_arranged hsort (s := s)
  have hnames : ((s.arrangedDisplayLayout e).map (·.name)).Nodup := hperm.nodup_iff.mpr (nodup_connectedDisplays s)
  have hknown : ∀ d ∈ s.arrangedDisplayLayout e, d.name ∈ u.outputs := by
    intro d hd
    rw [hout]
    exact List.mem_of_mem_filter (moved_of_arranged hsort hd).1
  have happlied : ∀ d ∈ s.arrangedDisplayLayout e,
      Applied e s (s.applyDisplayLayout e (s.arrangedDisplayLayout e)) d := by
    intro d hd
    have h := applied_foldl (e := e) hnames hknown hd
    obtain ⟨hon, hclosed, hoff⟩ := h
    simp only [lidded, hdisplay, ← hresult] at hon hclosed hoff
    exact ⟨hon, hclosed, hoff⟩
  have hentry : ∀ name ∈ s.connectedDisplays, ∃ d ∈ s.arrangedDisplayLayout e,
      d.name = name ∧ Moved (s.entry name) d := by
    intro name hname
    obtain ⟨d, hd, rfl⟩ := List.mem_map.mp (hperm.mem_iff.mpr hname)
    exact ⟨d, hd, rfl, (moved_of_arranged hsort hd).2⟩
  refine ⟨?_, fun name hname => ?_, fun name hname hactive hlid => ?_, fun name hname hactive hlid => ?_,
    fun name hname hactive => ?_, fun hlid => ?_⟩
  · have hkin := kin_foldl e u (s.arrangedDisplayLayout e)
    refine ⟨hresultOut.trans (hkin.outputs.trans hout), fun name => ?_⟩
    rw [hresult, hkin.fixed, hdisplay]
  · rw [hresult, display_foldl_ne fun hmem => hname (hperm.mem_iff.mp hmem), hdisplay]
  · obtain ⟨d, hd, rfl, hmoved⟩ := hentry name hname
    obtain ⟨hframe, hhidden⟩ := (happlied d hd).on (hmoved.isActive.trans (isActive_entry.mpr hactive)) hlid
    rw [hframe]
    exact ⟨hmoved.frame, hhidden⟩
  · obtain ⟨d, hd, rfl, hmoved⟩ := hentry name hname
    exact (happlied d hd).closed (hmoved.isActive.trans (isActive_entry.mpr hactive)) hlid
  · obtain ⟨d, hd, rfl, hmoved⟩ := hentry name hname
    refine (happlied d hd).off ?_
    rw [hmoved.isActive, isActive_entry_no.mpr hactive]
    decide
  · refine packedFrom_arrange fun d hd hno => ?_
    obtain ⟨hname, hmoved⟩ := moved_of_arranged hsort hd
    have hyes : (s.display d.name).isActive = true := by
      rw [hmoved.isActive, Ne, isActive_entry_no, Bool.not_eq_false] at hno
      exact hno
    exact ((happlied d hd).on (hmoved.isActive.trans (isActive_entry.mpr hyes)) (hlid _ hname hyes)).1

end Arranged

end Xperimentum.SystemKit.OSEScreen
