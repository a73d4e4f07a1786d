import Mathlib.Tactic

/-! Lines of a text that is cut at separators, and how they change when the text is continued. -/

namespace Xperimentum.Lib.Lines

variable {α β : Type*} (isEnd : α → Bool)

def parts (s : List α) : List (List α) := s.splitOnP isEnd

def lines (s : List α) : List (List α) := (parts isEnd s).filter (· ≠ [])

variable {isEnd} {s t : List α} {x : α}

@[simp] lemma parts_nil : parts isEnd [] = [[]] := by simp [parts]

@[simp] lemma lines_nil : lines isEnd ([] : List α) = [] := by simp [lines]

lemma parts_ne_nil (isEnd : α → Bool) (s : List α) : parts isEnd s ≠ [] := List.splitOnP_ne_nil isEnd s

lemma parts_append_cons (h : isEnd x) : parts isEnd (s ++ x :: t) = parts isEnd s ++ parts isEnd t :=
  List.splitOnP_append_cons s t h

lemma parts_cons (x : α) (s : List α) :
    parts isEnd (x :: s) = if isEnd x then [] :: parts isEnd s else (parts isEnd s).modifyHead (x :: ·) :=
  List.splitOnP_cons_eq_if_modifyHead x s

lemma parts_map {isEnd : β → Bool} (f : α → β) (s : List α) :
    parts isEnd (s.map f) = (parts (fun x => isEnd (f x)) s).map (List.map f) := by
  induction s with
  | nil => simp
  | cons x s ih =>
    obtain ⟨part, rest, hs⟩ := List.exists_cons_of_ne_nil (parts_ne_nil (fun x => isEnd (f x)) s)
    by_cases hx : isEnd (f x)
    · simp [parts_cons, hx, ih]
    · simp [parts_cons, hx, ih, hs]

lemma mem_parts (s : List α) (y : α) : (∃ part ∈ parts isEnd s, y ∈ part) ↔ y ∈ s ∧ ¬ isEnd y := by
  induction s with
  | nil => simp
  | cons x s ih =>
    obtain ⟨part, rest, hs⟩ := List.exists_cons_of_ne_nil (parts_ne_nil isEnd s)
    by_cases hx : isEnd x
    · simp only [parts_cons, hx, if_true, List.mem_cons, exists_eq_or_imp, List.not_mem_nil, false_or, ih]
      constructor
      · exact fun h => ⟨.inr h.1, h.2⟩
      · rintro ⟨rfl | h, hy⟩
        · exact absurd hx hy
        · exact ⟨h, hy⟩
    · rw [hs] at ih
      simp only [parts_cons, hx, hs, Bool.false_eq_true, if_false, List.modifyHead_cons, List.mem_cons,
        exists_eq_or_imp] at ih ⊢
      constructor
      · rintro ((rfl | h) | h)
        · exact ⟨.inl rfl, hx⟩
        · exact ⟨.inr (ih.mp (.inl h)).1, (ih.mp (.inl h)).2⟩
        · exact ⟨.inr (ih.mp (.inr h)).1, (ih.mp (.inr h)).2⟩
      · rintro ⟨rfl | h, hy⟩
        · exact .inl (.inl rfl)
        · rcases ih.mpr ⟨h, hy⟩ with h | h
          · exact .inl (.inr h)
          · exact .inr h

lemma mem_lines (s : List α) (y : α) : (∃ line ∈ lines isEnd s, y ∈ line) ↔ y ∈ s ∧ ¬ isEnd y := by
  rw [← mem_parts]
  constructor
  · rintro ⟨line, hline, hy⟩
    exact ⟨line, (List.mem_filter.mp hline).1, hy⟩
  · rintro ⟨line, hline, hy⟩
    exact ⟨line, List.mem_filter.mpr ⟨hline, by simpa using List.ne_nil_of_mem hy⟩, hy⟩

lemma lines_append_of_end (h : isEnd x) :
    lines isEnd (s ++ [x] ++ t) = lines isEnd (s ++ [x]) ++ lines isEnd t := by
  have hs := parts_append_cons (s := s) (t := t) h
  have he := parts_append_cons (s := s) (t := []) h
  simp only [lines, List.append_assoc, List.singleton_append, hs, he, parts_nil, List.filter_append]
  simp

lemma lines_append_of_start (h : isEnd x) :
    lines isEnd (s ++ x :: t) = lines isEnd s ++ lines isEnd (x :: t) := by
  have hx : parts isEnd (x :: t) = [] :: parts isEnd t := by simp [parts_cons, h]
  simp only [lines, parts_append_cons h, hx, List.filter_append]
  simp

lemma parts_append (isEnd : α → Bool) (s : List α) : ∃ init last, parts isEnd s = init ++ [last] ∧
    (last = [] → s ≠ [] → ∃ front y, s = front ++ [y] ∧ isEnd y) ∧
    ∀ t part rest, parts isEnd t = part :: rest → parts isEnd (s ++ t) = init ++ (last ++ part) :: rest := by
  induction s with
  | nil => exact ⟨[], [], by simp, by simp, by simp⟩
  | cons x s ih =>
    obtain ⟨init, last, hs, hend, happ⟩ := ih
    have hlonger : s ≠ [] → last = [] → ∃ front y, x :: s = front ++ [y] ∧ isEnd y := by
      intro hne hlast
      obtain ⟨front, y, hy, he⟩ := hend hlast hne
      exact ⟨x :: front, y, by simp [hy], he⟩
    by_cases hx : isEnd x
    · refine ⟨[] :: init, last, by simp [parts_cons, hx, hs], ?_, ?_⟩
      · intro hlast _
        by_cases hne : s = []
        · exact ⟨[], x, by simp [hne], hx⟩
        · exact hlonger hne hlast
      · intro t part rest ht
        simp [parts_cons, hx, happ t part rest ht]
    · cases init with
      | nil =>
        refine ⟨[], x :: last, by simp [parts_cons, hx, hs], by simp, ?_⟩
        intro t part rest ht
        simp [parts_cons, hx, happ t part rest ht]
      | cons first init =>
        refine ⟨(x :: first) :: init, last, by simp [parts_cons, hx, hs], ?_, ?_⟩
        · intro hlast _
          refine hlonger ?_ hlast
          rintro rfl
          simp at hs
        · intro t part rest ht
          simp [parts_cons, hx, happ t part rest ht]

lemma parts_eq_nil_cons {rest : List (List α)} (h : parts isEnd t = [] :: rest) (ht : t ≠ []) :
    ∃ x u, t = x :: u ∧ isEnd x := by
  cases t with
  | nil => exact absurd rfl ht
  | cons x u =>
    refine ⟨x, u, rfl, ?_⟩
    by_contra hx
    obtain ⟨part, more, hu⟩ := List.exists_cons_of_ne_nil (parts_ne_nil isEnd u)
    simp [parts_cons, hx, hu] at h

end Xperimentum.Lib.Lines
