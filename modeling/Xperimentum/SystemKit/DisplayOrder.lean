import Xperimentum.SystemKit.DisplayToggling

/-! The order of the active displays in the layout that `arrangedDisplayLayout` returns. -/

namespace Xperimentum.SystemKit

open Lib.StableSort

namespace OSEScreen

def activeEntries (layout : List Entry) : List Entry := layout.filter fun d => d.isActive ≠ .no

/-- Each frame begins where those in front of it end. -/
def Tiled (frames : List Frame) : Prop :=
  ∀ pre f post, frames = pre ++ f :: post → f.x = (pre.map Frame.width).sum

/-- The active displays keep their order and tile the interval from 0; nothing but their positions is changed. -/
structure InOrder (s : OSEScreen) (layout : List Entry) : Prop where
  names : (layout.map (·.name)).Perm s.connectedDisplays
  moved : ∀ d ∈ layout, Moved (s.entry d.name) d
  kept : ∀ d ∈ layout, d.isActive = .no → d.frame = s.frame d.name
  order : (activeEntries layout).Pairwise fun a b => (s.frame a.name).x ≤ (s.frame b.name).x
  tiled : Tiled ((activeEntries layout).map (·.frame))

section Arranging

variable {e : Surroundings} {s : OSEScreen} {layout : List Entry} {d : Entry} {m n : String} {x : ℤ}

lemma kept_arrange (h : d ∈ arrange x layout) (hno : d.isActive = .no) : d ∈ layout := by
  induction layout generalizing x with
  | nil => exact h
  | cons a layout ih =>
    rw [arrange] at h
    split_ifs at h with ha
    · rcases List.mem_cons.mp h with rfl | h
      · exact List.mem_cons_self
      · exact List.mem_cons_of_mem a (ih h)
    · rcases List.mem_cons.mp h with rfl | h
      · exact absurd hno ha
      · exact List.mem_cons_of_mem a (ih h)

lemma names_activeEntries (x : ℤ) (layout : List Entry) :
    (activeEntries (arrange x layout)).map (·.name) = (activeEntries layout).map (·.name) := by
  induction layout generalizing x with
  | nil => rfl
  | cons a layout ih =>
    rw [arrange]
    split_ifs with ha
    · rw [activeEntries, List.filter_cons_of_neg (by simpa using ha), activeEntries, List.filter_cons_of_neg (by simpa using ha)]
      exact ih x
    · rw [activeEntries, List.filter_cons_of_pos (by simpa using ha), activeEntries, List.filter_cons_of_pos (by simpa using ha),
        List.map_cons, List.map_cons]
      exact congrArg (a.name :: ·) (ih _)

lemma frames_arrange {pre post : List Frame} {f : Frame}
    (h : (activeEntries (arrange x layout)).map (·.frame) = pre ++ f :: post) : f.x = x + (pre.map Frame.width).sum := by
  induction layout generalizing x pre with
  | nil => exact absurd h.symm (List.append_ne_nil_of_right_ne_nil pre (List.cons_ne_nil f post))
  | cons a layout ih =>
    rw [arrange] at h
    split_ifs at h with ha
    · rw [activeEntries, List.filter_cons_of_neg (by simpa using ha)] at h
      exact ih h
    · rw [activeEntries, List.filter_cons_of_pos (by simpa using ha), List.map_cons] at h
      cases pre with
      | nil =>
        rw [← (List.cons.inj h).1, List.map_nil, List.sum_nil, add_zero]
      | cons g pre =>
        obtain ⟨rfl, hrest⟩ := List.cons.inj h
        rw [ih hrest, List.map_cons, List.sum_cons, add_assoc]

lemma pairwise_names {R : String → String → Prop} {l : List Entry} :
    (l.Pairwise fun a b => R a.name b.name) ↔ (l.map (·.name)).Pairwise R :=
  List.pairwise_map.symm

lemma mem_currentLayout : d ∈ s.currentLayout ↔ ∃ n ∈ s.connectedDisplays, s.entry n = d := List.mem_map

end Arranging

section Order

variable {e : Surroundings} {s : OSEScreen}

/-- Everything but the order holds whatever the sort makes of the comparison. -/
lemma inOrder_iff_order (hsort : Sorts e.sortedArrayUsingFunction) : InOrder s (s.arrangedDisplayLayout e) ↔
    (activeEntries (e.sortedArrayUsingFunction compareLayoutEntries s.currentLayout)).Pairwise
      fun a b => (s.frame a.name).x ≤ (s.frame b.name).x := by
  rw [pairwise_names (R := fun m n => (s.frame m).x ≤ (s.frame n).x), ← names_activeEntries 0,
    ← pairwise_names (R := fun m n => (s.frame m).x ≤ (s.frame n).x)]
  refine ⟨InOrder.order, fun h => ⟨perm_arranged hsort, fun d hd => (moved_of_arranged hsort hd).2, fun d hd hno => ?_, h, ?_⟩⟩
  · have hmem := (hsort.perm _ _).mem_iff.mp (kept_arrange hd hno)
    obtain ⟨n, -, rfl⟩ := mem_currentLayout.mp hmem
    rfl
  · intro pre f post heq
    rw [frames_arrange heq, zero_add]

/-- All displays are on, or those that are have one position. -/
def Comparable (s : OSEScreen) : Prop :=
  (∀ n ∈ s.connectedDisplays, (s.display n).isActive = true) ∨
    ∀ m ∈ s.connectedDisplays, ∀ n ∈ s.connectedDisplays, (s.display m).isActive = true →
      (s.display n).isActive = true → (s.frame m).x = (s.frame n).x

lemma order_of_comparable (hsort : Sorts e.sortedArrayUsingFunction) (h : Comparable s) :
    (activeEntries (e.sortedArrayUsingFunction compareLayoutEntries s.currentLayout)).Pairwise
      fun a b => (s.frame a.name).x ≤ (s.frame b.name).x := by
  rcases h with hactive | hsame
  · have hyes : ∀ b ∈ s.currentLayout, b.isActive = .yes := fun b hb => by
      obtain ⟨n, hn, rfl⟩ := mem_currentLayout.mp hb
      exact isActive_entry.mpr (hactive n hn)
    have hnodup : s.currentLayout.Nodup := (nodup_connectedDisplays s).map (entry_injective s)
    have hstable := hsort.stable (fun d => d.frame.x) compareLayoutEntries s.currentLayout hnodup fun a _ b hb => by
      simp only [compareLayoutEntries, hyes b hb, and_true, compare, compareOfLessAndEq]
      split
      · rfl
      · split <;> split <;> first | rfl | omega
    refine (hstable.filter _).imp_of_mem fun {a b} ha hb h => ?_
    obtain ⟨m, -, rfl⟩ := mem_currentLayout.mp ((hsort.perm _ _).mem_iff.mp (List.mem_of_mem_filter ha))
    obtain ⟨n, -, rfl⟩ := mem_currentLayout.mp ((hsort.perm _ _).mem_iff.mp (List.mem_of_mem_filter hb))
    exact h.elim le_of_lt fun h => h.1.le
  · refine List.pairwise_of_forall_mem_list fun a ha b hb => le_of_eq ?_
    obtain ⟨ha, hano⟩ := List.mem_filter.mp ha
    obtain ⟨hb, hbno⟩ := List.mem_filter.mp hb
    obtain ⟨m, hm, rfl⟩ := mem_currentLayout.mp ((hsort.perm _ _).mem_iff.mp ha)
    obtain ⟨n, hn, rfl⟩ := mem_currentLayout.mp ((hsort.perm _ _).mem_iff.mp hb)
    refine hsame m hm n hn (by_contra fun hoff => ?_) (by_contra fun hoff => ?_)
    · exact of_decide_eq_true hano (isActive_entry_no.mpr (Bool.not_eq_true _ ▸ hoff))
    · exact of_decide_eq_true hbno (isActive_entry_no.mpr (Bool.not_eq_true _ ▸ hoff))

/-- With an inactive display among them, a key gives one position to all. -/
lemma not_byKey {i m n : String} (hi : i ∈ s.connectedDisplays) (hoff : ¬(s.display i).isActive = true)
    (hm : m ∈ s.connectedDisplays) (hn : n ∈ s.connectedDisplays) (hactive : (s.display n).isActive = true)
    (hlt : (s.frame n).x < (s.frame m).x) :
    ¬∃ key : Entry → ℤ, ∀ a ∈ s.currentLayout, ∀ b ∈ s.currentLayout,
      compareLayoutEntries a b = compare (key a) (key b) := by
  rintro ⟨key, hkey⟩
  have hmem : ∀ {k : String}, k ∈ s.connectedDisplays → s.entry k ∈ s.currentLayout := fun hk => List.mem_map_of_mem hk
  have hno : (s.entry i).isActive ≠ .yes := fun h => hoff (isActive_entry.mp h)
  have hequal : ∀ {k : String}, k ∈ s.connectedDisplays → key (s.entry k) = key (s.entry i) := fun hk => by
    have h := hkey _ (hmem hk) _ (hmem hi)
    rw [compareLayoutEntries, if_neg fun h => hno h.2, if_neg fun h => hno h.2] at h
    exact compare_eq_iff_eq.mp h.symm
  have h := hkey _ (hmem hm) _ (hmem hn)
  rw [hequal hm, hequal hn, compare_eq_iff_eq.mpr rfl, compareLayoutEntries, if_neg fun h => lt_asymm hlt h.1,
    if_pos ⟨hlt, isActive_entry.mpr hactive⟩] at h
  cases h

/-- A sort that puts the right one of two displays in front. -/
lemma exists_disorder {i m n : String} (hi : i ∈ s.connectedDisplays) (hoff : ¬(s.display i).isActive = true)
    (hm : m ∈ s.connectedDisplays) (hon : (s.display m).isActive = true) (hn : n ∈ s.connectedDisplays)
    (hactive : (s.display n).isActive = true) (hlt : (s.frame n).x < (s.frame m).x) :
    ∃ e : Surroundings, Sorts e.sortedArrayUsingFunction ∧ ¬InOrder s (s.arrangedDisplayLayout e) := by
  have hmem : s.entry m ∈ s.currentLayout := List.mem_map_of_mem hm
  obtain ⟨sort, hsort, hresult⟩ := exists_sorts (List.perm_cons_erase hmem).symm (not_byKey hi hoff hm hn hactive hlt)
  refine ⟨⟨fun _ => 0, sort, false⟩, hsort, fun h => ?_⟩
  have horder := (inOrder_iff_order hsort).mp h
  simp only [hresult] at horder
  have hyes : ∀ {k : String}, (s.display k).isActive = true → (fun d : Entry => decide (d.isActive ≠ .no)) (s.entry k) = true :=
    fun hk => by
      rw [decide_eq_true_eq, isActive_entry.mpr hk]
      exact Flag.noConfusion
  rw [activeEntries, List.filter_cons_of_pos (p := fun d : Entry => decide (d.isActive ≠ .no)) (hyes hon)] at horder
  have hne : s.entry n ≠ s.entry m := fun heq => by
    rw [entry_injective s heq] at hlt
    exact lt_irrefl _ hlt
  have hrest : s.entry n ∈ (s.currentLayout.erase (s.entry m)).filter fun d => decide (d.isActive ≠ .no) :=
    List.mem_filter.mpr ⟨(List.mem_erase_of_ne hne).mpr (List.mem_map_of_mem hn), hyes hactive⟩
  exact not_le.mpr hlt ((List.pairwise_cons.mp horder).1 _ hrest)

end Order

/-- Two active panels, the right one first, and two panels without a height between them. -/
def fourPanels : OSEScreen where
  outputs := ["DP-1", "DP-2", "DP-3", "DP-4"]
  nodup := by decide
  display := fun name =>
    if name = "DP-1" then panel [1] ⟨1280, 0, 1280, 1024⟩
    else if name = "DP-2" then panel [1, 2] ⟨1280, 0, 0, 0⟩
    else if name = "DP-3" then panel [1, 2, 3] .zero
    else panel [1, 2, 3, 4] ⟨0, 0, 1280, 1024⟩
  width := 2560
  height := 1024
  server := ⟨2560, 1024, [], []⟩

end OSEScreen

end Xperimentum.SystemKit
