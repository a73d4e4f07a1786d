import Xperimentum.SystemKit.DisplayArrangement

/-! A display of a row is switched off and on again. -/

namespace Xperimentum.SystemKit

def Surroundings.withLid (e : Surroundings) (closed : Bool) : Surroundings := { e with isLidClosed := closed }

namespace OSEScreen

open Lib.StableSort

variable {e : Surroundings} {lid : Bool} {s : OSEScreen} {name : String} {order : List String}

def off (s : OSEScreen) (name : String) : OSEScreen := s.setDisplay name ((s.display name).setActive false)

def on (s : OSEScreen) (name : String) : OSEScreen := s.setDisplay name ((s.display name).setActive true)

abbrev frame (s : OSEScreen) (name : String) : Frame := (s.display name).frame

/-- The connected displays are on and lie from left to right without gaps, in that order. -/
structure SideBySide (s : OSEScreen) (order : List String) : Prop where
  active : ∀ n ∈ s.connectedDisplays, (s.display n).isActive = true
  perm : order.Perm s.connectedDisplays
  packed : PackedFrom s.frame 0 order

/-- Every display has its frame again; the lid may be moved in between. -/
def Neutral (e : Surroundings) (lid : Bool) (s : OSEScreen) (name : String) : Prop :=
  ∀ n, ((s.deactivateDisplay e name).activateDisplay (e.withLid lid) name).frame n = s.frame n

/-- No built-in display is lost to the lid, the sort lists the other displays from left to right while the display is
off, and the neighbour to the right does not come before the display among the connected ones. -/
structure Undisturbed (e : Surroundings) (lid : Bool) (s : OSEScreen) (name : String) : Prop where
  closedOff : e.isLidClosed = true → ∀ n ∈ s.connectedDisplays, n ≠ name → (s.display n).isBuiltin = false
  closedOn : lid = true → ∀ n ∈ s.connectedDisplays, (s.display n).isBuiltin = false
  remaining : ((e.sortedArrayUsingFunction compareLayoutEntries (s.off name).currentLayout).filter
    fun d => d.isActive ≠ .no).Pairwise fun a b => a.frame.x < b.frame.x
  neighbour : ∀ n ∈ s.connectedDisplays, s.connectedDisplays.idxOf n < s.connectedDisplays.idxOf name →
    (s.frame n).x ≠ (s.frame name).x + (s.frame name).width

section States

lemma fixed_setActive (x : OSEDisplay) (active : Bool) : (x.setActive active).fixed = x.fixed := by
  cases active with
  | false => rfl
  | true =>
    simp only [OSEDisplay.setActive, if_true]
    split <;> exact fixed_resolutionWithWidth ..

lemma frame_setActive {x : OSEDisplay} (h : x.hiddenFrame.isEmpty = false) : (x.setActive true).frame = x.hiddenFrame := by
  have hnot : ¬x.hiddenFrame.isEmpty = true := by simp [h]
  simp only [OSEDisplay.setActive, if_true, if_pos hnot]
  obtain ⟨l, hl⟩ := OSEDisplay.resolutionWithWidth_display { x with frame := x.hiddenFrame, hiddenFrame := .zero }
    x.hiddenFrame.width x.hiddenFrame.height 0
  rw [hl]

lemma kin_off (s : OSEScreen) (name : String) : Kin s (s.off name) :=
  kin_setDisplay (fixed_setActive (s.display name) false) s.server

lemma kin_on (s : OSEScreen) (name : String) : Kin s (s.on name) :=
  kin_setDisplay (fixed_setActive (s.display name) true) s.server

lemma display_off_self : (s.off name).display name = (s.display name).setActive false := Function.update_self ..

lemma display_off_ne {n : String} (h : n ≠ name) : (s.off name).display n = s.display n := Function.update_of_ne h ..

lemma display_on_self : (s.on name).display name = (s.display name).setActive true := Function.update_self ..

lemma display_on_ne {n : String} (h : n ≠ name) : (s.on name).display n = s.display n := Function.update_of_ne h ..

end States

section Unidentified

lemma neutral_of_unidentified (hsort : Sorts e.sortedArrayUsingFunction) (hactive : (s.display name).isActive = true)
    (h : ¬Identified e s) : Neutral e lid s name := by
  have hoff : s.deactivateDisplay e name = s.off name := by
    rw [deactivateDisplay, applyDisplayLayout]
    refine if_neg fun hvalid => h ?_
    exact (kin_off s name).identified_iff.mp ((validate_arranged hsort).mp hvalid)
  have hon : (s.off name).activateDisplay (e.withLid lid) name = (s.off name).on name := by
    rw [activateDisplay, applyDisplayLayout]
    refine if_neg fun hvalid => h ?_
    have hid := (validate_arranged (e := e.withLid lid) hsort).mp hvalid
    exact (kin_off s name).identified_iff.mp ((kin_on (s.off name) name).identified_iff.mp hid)
  intro n
  rw [hoff, hon]
  by_cases hn : n = name
  · subst hn
    have hempty : ((s.off n).display n).hiddenFrame.isEmpty = false := by
      rw [display_off_self]
      change (s.display n).frame.isEmpty = false
      simpa [OSEDisplay.isActive] using hactive
    rw [frame, display_on_self, frame_setActive hempty, display_off_self]
    rfl
  · rw [frame, display_on_ne hn, display_off_ne hn]

end Unidentified

section Steps

variable (hsort : Sorts e.sortedArrayUsingFunction) (hid : Identified e s) (hrow : SideBySide s order)
  (hname : name ∈ s.connectedDisplays)

include hsort hid in
lemma arranged_deactivateDisplay (name : String) : Arranged e (s.off name) (s.deactivateDisplay e name) :=
  arranged_applyDisplayLayout hsort ((kin_off s name).identified_iff.mpr hid)

include hsort hid in
lemma arranged_activateDisplay (lid : Bool) (name : String) : Arranged (e.withLid lid) ((s.deactivateDisplay e name).on name)
    ((s.deactivateDisplay e name).activateDisplay (e.withLid lid) name) := by
  have hkin := ((kin_off s name).trans (arranged_deactivateDisplay hsort hid name).kin).trans
    (kin_on (s.deactivateDisplay e name) name)
  exact arranged_applyDisplayLayout hsort (hkin.identified_iff.mpr hid)

include hsort hid in
lemma kin_deactivateDisplay (name : String) : Kin s (s.deactivateDisplay e name) :=
  (kin_off s name).trans (arranged_deactivateDisplay hsort hid name).kin

include hsort hid in
lemma kin_on_deactivateDisplay (name : String) : Kin s ((s.deactivateDisplay e name).on name) :=
  (kin_deactivateDisplay hsort hid name).trans (kin_on _ name)

include hrow in
lemma width_pos {n : String} (hn : n ∈ s.connectedDisplays) : 0 < (s.frame n).width :=
  (isActive_iff.mp (hrow.active n hn)).1

include hsort hid hrow hname

lemma frame_on_self : ((s.deactivateDisplay e name).on name).frame name = s.frame name := by
  have harr := arranged_deactivateDisplay hsort hid name
  have hoff : ((s.off name).display name).isActive = false := by
    rw [display_off_self]
    rfl
  have hhidden : ((s.deactivateDisplay e name).display name).hiddenFrame = s.frame name := by
    rw [(harr.off name ((kin_off s name).connectedDisplays.symm ▸ hname) hoff).2, display_off_self]
    rfl
  have hempty : ((s.deactivateDisplay e name).display name).hiddenFrame.isEmpty = false := by
    rw [hhidden]
    simpa [OSEDisplay.isActive] using hrow.active name hname
  rw [frame, display_on_self, frame_setActive hempty, hhidden]

lemma frame_on_ne {n : String} (hn : n ∈ s.connectedDisplays) (hne : n ≠ name) (hlid : ¬lidded e s n) :
    ((s.deactivateDisplay e name).on name).frame n =
      { s.frame n with x := ((s.deactivateDisplay e name).on name).frame n |>.x } := by
  have harr := arranged_deactivateDisplay hsort hid name
  have hactive : ((s.off name).display n).isActive = true := by
    rw [display_off_ne hne]
    exact hrow.active n hn
  have hlid' : ¬lidded e (s.off name) n := by rwa [lidded, display_off_ne hne]
  have hframe := (harr.on n ((kin_off s name).connectedDisplays.symm ▸ hn) hactive hlid').1
  rw [display_off_ne hne] at hframe
  rw [frame, display_on_ne hne]
  exact hframe

lemma not_neutral_of_closedOff {n : String} (hn : n ∈ s.connectedDisplays) (hne : n ≠ name) (hlid : lidded e s n) :
    ¬Neutral e lid s name := by
  intro h
  have harr := arranged_deactivateDisplay hsort hid name
  have hactive : ((s.off name).display n).isActive = true := by
    rw [display_off_ne hne]
    exact hrow.active n hn
  have hlid' : lidded e (s.off name) n := by rwa [lidded, display_off_ne hne]
  have hwidth := harr.closed n ((kin_off s name).connectedDisplays.symm ▸ hn) hactive hlid'
  have hoff : (((s.deactivateDisplay e name).on name).display n).isActive = false := by
    rw [display_on_ne hne, OSEDisplay.isActive, Frame.isEmpty, hwidth]
    rfl
  have hmem := (kin_on_deactivateDisplay hsort hid name).connectedDisplays.symm ▸ hn
  have hlost := ((arranged_activateDisplay hsort hid lid name).off n hmem hoff).1
  have hpos := width_pos hrow hn
  rw [← h n, frame, hlost] at hpos
  exact lt_irrefl 0 hpos

lemma isActive_on {n : String} (hn : n ∈ s.connectedDisplays) (hlid : n ≠ name → ¬lidded e s n) :
    (((s.deactivateDisplay e name).on name).display n).isActive = true := by
  have hactive := isActive_iff.mp (hrow.active n hn)
  rw [isActive_iff]
  by_cases hne : n = name
  · subst hne
    rw [show (((s.deactivateDisplay e n).on n).display n).frame = s.frame n from frame_on_self hsort hid hrow hname]
    exact hactive
  · rw [show (((s.deactivateDisplay e name).on name).display n).frame = _ from
      frame_on_ne hsort hid hrow hname hn hne (hlid hne)]
    exact hactive

lemma not_neutral_of_closedOn {n : String} (hn : n ∈ s.connectedDisplays) (hlid : n ≠ name → ¬lidded e s n)
    (hclosed : lidded (e.withLid lid) s n) : ¬Neutral e lid s name := by
  intro h
  have hkin := kin_on_deactivateDisplay hsort hid name
  have hclosed' : lidded (e.withLid lid) ((s.deactivateDisplay e name).on name) n :=
    ⟨(hkin.isBuiltin n).trans hclosed.1, hclosed.2⟩
  have hwidth := (arranged_activateDisplay hsort hid lid name).closed n (hkin.connectedDisplays.symm ▸ hn)
    (isActive_on hsort hid hrow hname hn hlid) hclosed'
  have hpos := width_pos hrow hn
  rw [← h n, frame, hwidth] at hpos
  exact lt_irrefl 0 hpos

end Steps

section Rows

variable {f g : String → Frame} {connected first pre post : List String}

lemma PackedFrom.congr {x : ℤ} {names : List String} (h : PackedFrom f x names) (hfg : ∀ n ∈ names, f n = g n) :
    PackedFrom g x names := by
  induction names generalizing x with
  | nil => trivial
  | cons a names ih =>
    have ha := hfg a List.mem_cons_self
    refine ⟨ha ▸ h.1, ?_⟩
    rw [← ha]
    exact ih h.2 fun n hn => hfg n (List.mem_cons_of_mem a hn)

lemma eq_of_lt {key : String → ℤ} {l₁ l₂ : List String} (hperm : l₁.Perm l₂)
    (h₁ : l₁.Pairwise fun m n => key m < key n) (h₂ : l₂.Pairwise fun m n => key m < key n) : l₁ = l₂ :=
  hperm.eq_of_pairwise (fun _ _ _ _ hab hba => (lt_asymm hab hba).elim) h₁ h₂

lemma row_sorted_iff (hf : PackedFrom f 0 (pre ++ name :: post)) (hg : PackedFrom g 0 first)
    (hfirst : first.Perm (pre ++ post)) (hself : (g name).x = (f name).x)
    (hwidth : ∀ n ∈ pre ++ name :: post, (g n).width = (f n).width)
    (hpos : ∀ n ∈ pre ++ name :: post, 0 < (f n).width) (hconnected : (pre ++ name :: post).Perm connected) :
    (pre ++ name :: post).Pairwise (Before (fun n => (g n).x) connected) ↔
      first.Pairwise (fun m n => (f m).x < (f n).x) ∧
        ∀ n ∈ connected, connected.idxOf n < connected.idxOf name → (f n).x ≠ (f name).x + (f name).width := by
  have hsub : (pre ++ post).Sublist (pre ++ name :: post) := (List.Sublist.refl pre).append (List.sublist_cons_self _ _)
  have hfirstSub : ∀ n ∈ first, n ∈ pre ++ name :: post := fun n hn => hsub.subset (hfirst.subset hn)
  have hsorted : (pre ++ name :: post).Pairwise fun m n => (f m).x < (f n).x := by
    refine (hf.sorted hpos).imp_of_mem fun hm _ hle => ?_
    have hw := hpos _ hm
    omega
  have hgfirst : first.Pairwise fun m n => (g m).x < (g n).x := by
    have hposg : ∀ n ∈ first, 0 < (g n).width := fun n hn => by
      rw [hwidth n (hfirstSub n hn)]
      exact hpos n (hfirstSub n hn)
    refine (hg.sorted hposg).imp_of_mem fun hm _ hle => ?_
    have hw := hposg _ hm
    omega
  -- once the others are in their old order, `g` is known
  have hplaces (heq : first = pre ++ post) :
      (∀ n ∈ pre, (g n).x = (f n).x) ∧ ∀ n ∈ post, (g n).x = (f n).x - (f name).width := by
    subst heq
    exact hf.without hg fun n hn => (hwidth n (hfirstSub n hn)).symm
  refine ⟨fun h => ?_, fun ⟨hremaining, hneighbour⟩ => ?_⟩
  · have heq : first = pre ++ post := by
      refine eq_of_before hfirst (fun n hn => hconnected.subset (hfirstSub n hn)) ?_ (h.sublist hsub)
      exact hgfirst.imp fun hlt => Or.inl hlt
    refine ⟨heq ▸ hsorted.sublist hsub, fun n hn hidx hx => ?_⟩
    have hafter : ∀ m ∈ post, Before (fun n => (g n).x) connected name m :=
      (List.pairwise_cons.mp (List.pairwise_append.mp h).2.1).1
    have hmem := hconnected.mem_iff.mpr hn
    have hw := hpos name (List.mem_append_right pre List.mem_cons_self)
    rcases List.mem_append.mp hmem with hpre | hpost
    · have hlt := (List.pairwise_append.mp hsorted).2.2 n hpre name List.mem_cons_self
      omega
    · rcases List.mem_cons.mp hpost with rfl | hpost
      · exact lt_irrefl _ hidx
      · have hg' := (hplaces heq).2 n hpost
        rcases hafter n hpost with hlt | ⟨_, hle⟩
        · simp only [hself] at hlt
          omega
        · omega
  · have heq : first = pre ++ post := eq_of_lt hfirst hremaining (hsorted.sublist hsub)
    obtain ⟨hpre, hpost⟩ := hplaces heq
    have hfsorted := hf.sorted hpos
    rw [List.pairwise_append, List.pairwise_cons] at hfsorted ⊢
    obtain ⟨hinPre, ⟨hnamePost, hinPost⟩, hacross⟩ := hfsorted
    have hw := hpos name (List.mem_append_right pre List.mem_cons_self)
    refine ⟨?_, ⟨fun n hn => ?_, ?_⟩, fun m hm n hn => ?_⟩
    · refine hinPre.imp_of_mem fun {m n} hm hn hle => Or.inl ?_
      have hwm := hpos m (List.mem_append_left _ hm)
      simp only [hpre m hm, hpre n hn]
      omega
    · have hle := hnamePost n hn
      rcases hle.lt_or_eq with hlt | hx
      · refine Or.inl ?_
        simp only [hself, hpost n hn]
        omega
      · refine Or.inr ⟨?_, ?_⟩
        · simp only [hself, hpost n hn]
          omega
        · by_contra hidx
          have hmem : n ∈ connected := hconnected.subset (List.mem_append_right pre (List.mem_cons_of_mem name hn))
          exact hneighbour n hmem (not_le.mp hidx) hx.symm
    · refine hinPost.imp_of_mem fun {m n} hm hn hle => Or.inl ?_
      have hwm := hpos m (List.mem_append_right pre (List.mem_cons_of_mem name hm))
      simp only [hpost m hm, hpost n hn]
      omega
    · have hwm := hpos m (List.mem_append_left _ hm)
      have hle := hacross m hm name List.mem_cons_self
      refine Or.inl ?_
      rcases List.mem_cons.mp hn with rfl | hn
      · simp only [hpre m hm, hself]
        omega
      · have hle' := hnamePost n hn
        simp only [hpre m hm, hpost n hn]
        omega

end Rows

section Toggling

variable (hsort : Sorts e.sortedArrayUsingFunction) (hid : Identified e s) (hrow : SideBySide s order)
  (hname : name ∈ s.connectedDisplays) (hopen : ∀ n ∈ s.connectedDisplays, n ≠ name → ¬lidded e s n)
  (hopen' : ∀ n ∈ s.connectedDisplays, ¬lidded (e.withLid lid) s n)

/-- The displays that are on, in the order the sort gives them while `name` is off. -/
def remainingRow (e : Surroundings) (s : OSEScreen) (name : String) : List String :=
  ((e.sortedArrayUsingFunction compareLayoutEntries (s.off name).currentLayout).filter
    fun d => d.isActive ≠ .no).map (·.name)

def toggledRow (e : Surroundings) (s : OSEScreen) (name : String) : List String :=
  (e.sortedArrayUsingFunction compareLayoutEntries ((s.deactivateDisplay e name).on name).currentLayout).map (·.name)

lemma entry_injective (s : OSEScreen) : Function.Injective s.entry := fun _ _ h => congrArg Entry.name h

lemma idxOf_map {l : List String} (s : OSEScreen) (n : String) : (l.map s.entry).idxOf (s.entry n) = l.idxOf n := by
  induction l with
  | nil => rfl
  | cons a l ih =>
    rw [List.map_cons, List.idxOf_cons, List.idxOf_cons, ih]
    by_cases h : a = n
    · rw [h, beq_self_eq_true, beq_self_eq_true]
    · rw [beq_eq_false_iff_ne.mpr h, beq_eq_false_iff_ne.mpr fun he => h (entry_injective s he)]

lemma isActive_off (hrow : SideBySide s order) {n : String} (hn : n ∈ s.connectedDisplays) :
    ((s.off name).entry n).isActive ≠ .no ↔ n ≠ name := by
  rw [Ne, isActive_entry_no, Bool.not_eq_false]
  by_cases h : n = name
  · subst h
    rw [display_off_self]
    simp [OSEDisplay.setActive, OSEDisplay.isActive, Frame.isEmpty, Frame.zero]
  · rw [display_off_ne h]
    simp [h, hrow.active n hn]

include hsort hrow in
lemma perm_remainingRow : (remainingRow e s name).Perm (s.connectedDisplays.filter (· ≠ name)) := by
  have hperm := ((hsort.perm compareLayoutEntries (s.off name).currentLayout).filter
    fun d => d.isActive ≠ .no).map (·.name)
  refine hperm.trans (List.Perm.of_eq ?_)
  rw [currentLayout, (kin_off s name).connectedDisplays, List.filter_map, List.map_map]
  have hfilter : s.connectedDisplays.filter ((fun d : Entry => decide (d.isActive ≠ .no)) ∘ (s.off name).entry) =
      s.connectedDisplays.filter (· ≠ name) := by
    refine List.filter_congr fun n hn => ?_
    simp only [Function.comp_apply, decide_eq_decide]
    exact isActive_off hrow hn
  rw [hfilter]
  exact List.map_id _

include hsort hrow in
lemma remaining_iff : ((e.sortedArrayUsingFunction compareLayoutEntries (s.off name).currentLayout).filter
      fun d => d.isActive ≠ .no).Pairwise (fun a b => a.frame.x < b.frame.x) ↔
    (remainingRow e s name).Pairwise fun m n => (s.frame m).x < (s.frame n).x := by
  rw [remainingRow, List.pairwise_map]
  have hframe : ∀ d ∈ (e.sortedArrayUsingFunction compareLayoutEntries (s.off name).currentLayout).filter
      (fun d => d.isActive ≠ .no), d.frame = s.frame d.name := by
    intro d hd
    obtain ⟨hmem, hactive⟩ := List.mem_filter.mp hd
    rw [(hsort.perm _ _).mem_iff, currentLayout, (kin_off s name).connectedDisplays] at hmem
    obtain ⟨n, hn, rfl⟩ := List.mem_map.mp hmem
    have hne : n ≠ name := (isActive_off hrow hn).mp (by simpa using hactive)
    exact congrArg OSEDisplay.frame (display_off_ne hne)
  exact List.Pairwise.iff_of_mem fun ha hb => by rw [hframe _ ha, hframe _ hb]

include hsort hid hrow hopen in
lemma packed_remainingRow :
    PackedFrom ((s.deactivateDisplay e name).on name).frame 0 (remainingRow e s name) := by
  have harr := arranged_deactivateDisplay hsort hid name
  have hpacked := harr.packed fun n hn hactive => ?_
  · refine PackedFrom.congr hpacked fun n hn => ?_
    have hne : n ≠ name := by simpa using (List.mem_filter.mp ((perm_remainingRow hsort hrow).subset hn)).2
    rw [frame, display_on_ne hne]
  · rw [(kin_off s name).connectedDisplays] at hn
    have hne : n ≠ name := by
      rintro rfl
      rw [display_off_self] at hactive
      simp [OSEDisplay.setActive, OSEDisplay.isActive, Frame.isEmpty, Frame.zero] at hactive
    rw [lidded, display_off_ne hne]
    exact hopen n hn hne

include hsort hid hrow hname hopen in
lemma width_on {n : String} (hn : n ∈ s.connectedDisplays) :
    (((s.deactivateDisplay e name).on name).frame n).width = (s.frame n).width := by
  by_cases hne : n = name
  · rw [hne, frame_on_self hsort hid hrow hname]
  · rw [frame_on_ne hsort hid hrow hname hn hne (hopen n hn hne)]

include hsort hid in
lemma perm_toggledRow (name : String) : (toggledRow e s name).Perm s.connectedDisplays := by
  rw [toggledRow, ← (kin_on_deactivateDisplay hsort hid name).connectedDisplays, ← map_name_currentLayout]
  exact (hsort.perm _ _).map _

include hsort hid hrow hname hopen in
lemma sorted_toggledRow : (toggledRow e s name).Pairwise
    (Before (fun n => (((s.deactivateDisplay e name).on name).frame n).x) s.connectedDisplays) := by
  set t := (s.deactivateDisplay e name).on name with ht
  have hkin : Kin s t := kin_on_deactivateDisplay hsort hid name
  have hactive : ∀ d ∈ t.currentLayout, d.isActive = .yes := by
    intro d hd
    obtain ⟨n, hn, rfl⟩ := List.mem_map.mp hd
    rw [hkin.connectedDisplays] at hn
    exact isActive_entry.mpr (isActive_on hsort hid hrow hname hn (hopen n hn))
  have hnodup : t.currentLayout.Nodup := (nodup_connectedDisplays t).map (entry_injective t)
  have hstable := hsort.stable (fun d => d.frame.x) compareLayoutEntries t.currentLayout hnodup fun a _ b hb => by
    simp only [compareLayoutEntries, hactive b hb, and_true, compare, compareOfLessAndEq]
    split
    · rfl
    · split <;> split <;> first | rfl | omega
  rw [toggledRow, List.pairwise_map]
  refine hstable.imp_of_mem fun {a b} ha hb h => ?_
  rw [(hsort.perm _ _).mem_iff] at ha hb
  obtain ⟨m, hm, rfl⟩ := List.mem_map.mp ha
  obtain ⟨n, hn, rfl⟩ := List.mem_map.mp hb
  rcases h with hlt | ⟨heq, hle⟩
  · exact Or.inl hlt
  · rw [currentLayout, idxOf_map, idxOf_map, hkin.connectedDisplays] at hle
    exact Or.inr ⟨heq, hle⟩

include hsort hid hrow hname hopen hopen' in
lemma neutral_iff_row : Neutral e lid s name ↔ toggledRow e s name = order := by
  set t := (s.deactivateDisplay e name).on name with ht
  set u := (s.deactivateDisplay e name).activateDisplay (e.withLid lid) name with hu
  have hkin : Kin s t := kin_on_deactivateDisplay hsort hid name
  have harr : Arranged (e.withLid lid) t u := arranged_activateDisplay hsort hid lid name
  have hactive : ∀ n ∈ s.connectedDisplays, (t.display n).isActive = true := fun n hn =>
    isActive_on hsort hid hrow hname hn (hopen n hn)
  have hlid : ∀ n ∈ s.connectedDisplays, ¬lidded (e.withLid lid) t n := fun n hn h =>
    hopen' n hn ⟨(hkin.isBuiltin n).symm.trans h.1, h.2⟩
  have hframe : ∀ n ∈ s.connectedDisplays, u.frame n = { s.frame n with x := (u.frame n).x } := by
    intro n hn
    rw [frame, (harr.on n (hkin.connectedDisplays.symm ▸ hn) (hactive n hn) (hlid n hn)).1]
    by_cases hne : n = name
    · rw [hne, show (t.display name).frame = s.frame name from frame_on_self hsort hid hrow hname]
    · rw [show (t.display n).frame = _ from frame_on_ne hsort hid hrow hname hn hne (hopen n hn hne)]
  have hpacked : PackedFrom u.frame 0 (toggledRow e s name) := by
    have h := harr.packed fun n hn _ => hlid n (hkin.connectedDisplays ▸ hn)
    rw [List.filter_eq_self.mpr] at h
    · exact h
    · intro d hd
      have hmem : d ∈ t.currentLayout := (hsort.perm _ _).mem_iff.mp hd
      obtain ⟨n, hn, rfl⟩ := List.mem_map.mp hmem
      simp [isActive_entry.mpr (hactive n (hkin.connectedDisplays ▸ hn))]
  have hperm : (toggledRow e s name).Perm order := (perm_toggledRow hsort hid name).trans hrow.perm.symm
  have hmem : ∀ n ∈ order, n ∈ s.connectedDisplays := fun n hn => hrow.perm.subset hn
  have hpos : ∀ n ∈ order, 0 < (s.frame n).width := fun n hn => width_pos hrow (hmem n hn)
  have hwidth : ∀ n ∈ order, (u.frame n).width = (s.frame n).width := fun n hn => by rw [hframe n (hmem n hn)]
  refine ⟨fun h => ?_, fun h n => ?_⟩
  · have hsame : u.frame = s.frame := funext h
    have hsorted : ∀ {names : List String}, PackedFrom s.frame 0 names → (∀ n ∈ names, n ∈ order) →
        names.Pairwise fun m n => (s.frame m).x < (s.frame n).x := fun hp hsub => by
      refine (hp.sorted fun n hn => hpos n (hsub n hn)).imp_of_mem fun hm _ hle => ?_
      have hw := hpos _ (hsub _ hm)
      omega
    exact eq_of_lt hperm (hsorted (hsame ▸ hpacked) fun n hn => hperm.subset hn) (hsorted hrow.packed fun n hn => hn)
  · by_cases hn : n ∈ s.connectedDisplays
    · have hx := hrow.packed.x_eq (h ▸ hpacked) (fun m hm => (hwidth m hm).symm) n (hrow.perm.mem_iff.mpr hn)
      change u.frame n = s.frame n
      rw [hframe n hn, hx]
    · have hne : n ≠ name := fun heq => hn (heq ▸ hname)
      change (u.display n).frame = _
      rw [harr.same n fun h => hn (hkin.connectedDisplays ▸ h), display_on_ne hne,
        (arranged_deactivateDisplay hsort hid name).same n fun h => hn ((kin_off s name).connectedDisplays ▸ h),
        display_off_ne hne]

include hsort hid hrow hname hopen hopen' in
lemma neutral_iff_sorted : Neutral e lid s name ↔
    (remainingRow e s name).Pairwise (fun m n => (s.frame m).x < (s.frame n).x) ∧
      ∀ n ∈ s.connectedDisplays, s.connectedDisplays.idxOf n < s.connectedDisplays.idxOf name →
        (s.frame n).x ≠ (s.frame name).x + (s.frame name).width := by
  rw [neutral_iff_row hsort hid hrow hname hopen hopen']
  have hsorted := sorted_toggledRow hsort hid hrow hname hopen
  have hperm := (perm_toggledRow hsort hid name).trans hrow.perm.symm
  have hrow' : toggledRow e s name = order ↔ order.Pairwise
      (Before (fun n => (((s.deactivateDisplay e name).on name).frame n).x) s.connectedDisplays) := by
    refine ⟨fun h => h ▸ hsorted, fun h => ?_⟩
    exact eq_of_before hperm (fun n hn => (perm_toggledRow hsort hid name).subset hn) hsorted h
  obtain ⟨pre, post, hsplit⟩ := List.append_of_mem (hrow.perm.mem_iff.mpr hname)
  have hmem : ∀ n ∈ pre ++ name :: post, n ∈ s.connectedDisplays := fun n hn => hrow.perm.subset (hsplit ▸ hn)
  have hfirst : (remainingRow e s name).Perm (pre ++ post) := by
    have hnodup : (pre ++ name :: post).Nodup := hsplit ▸ hrow.perm.nodup_iff.mpr (nodup_connectedDisplays s)
    have hnot : name ∉ pre ++ post := (List.nodup_cons.mp (List.nodup_middle.mp hnodup)).1
    refine (perm_remainingRow hsort hrow).trans ((hrow.perm.symm.filter _).trans (List.Perm.of_eq ?_))
    rw [hsplit, List.filter_append, List.filter_cons_of_neg (by simp), ← List.filter_append, List.filter_eq_self]
    intro n hn
    simpa using fun heq : n = name => hnot (heq ▸ hn)
  rw [hrow', hsplit]
  refine row_sorted_iff (hsplit ▸ hrow.packed) (packed_remainingRow hsort hid hrow hopen) hfirst ?_ ?_ ?_
    (hsplit ▸ hrow.perm)
  · rw [frame_on_self hsort hid hrow hname]
  · exact fun n hn => width_on hsort hid hrow hname hopen (hmem n hn)
  · exact fun n hn => width_pos hrow (hmem n hn)

end Toggling

section Examples

def panel (id : UniqueID) (frame : Frame) : OSEDisplay :=
  ⟨some id, true, false, [⟨1, 1280, 1024⟩], [⟨1280, 1024, 60⟩], frame, .zero, ⟨1280, 1024, 60⟩⟩

def office : Surroundings := ⟨fun id => id.elim 0 List.length, insertionSort, false⟩

def threePanels : OSEScreen where
  outputs := ["DP-1", "DP-2", "DP-3"]
  nodup := by decide
  display := fun name =>
    if name = "DP-1" then panel [1] ⟨0, 0, 1280, 1024⟩
    else if name = "DP-2" then panel [1, 2] ⟨1280, 0, 1280, 1024⟩
    else panel [1, 2, 3] ⟨2560, 0, 1280, 1024⟩
  width := 3840
  height := 1024
  server := ⟨3840, 1024, [], []⟩

lemma sideBySide_threePanels : threePanels.SideBySide ["DP-1", "DP-2", "DP-3"] :=
  ⟨by decide, by decide, by decide, by decide, by decide, trivial⟩

/-- The first connected panel is the right one. -/
def swappedPanels : OSEScreen where
  outputs := ["DP-1", "DP-2"]
  nodup := by decide
  display := fun name =>
    if name = "DP-1" then panel [1] ⟨1280, 0, 1280, 1024⟩ else panel [1, 2] ⟨0, 0, 1280, 1024⟩
  width := 2560
  height := 1024
  server := ⟨2560, 1024, [], []⟩

end Examples

end OSEScreen

end Xperimentum.SystemKit
