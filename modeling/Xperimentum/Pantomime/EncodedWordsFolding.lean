import Xperimentum.Pantomime.EncodedWordsDecoding

/-! Where a string is folded, and what is left over behind its last word. -/

namespace Xperimentum.Pantomime.EncodedWords

section Scanner

variable {F : Foundation}

/-- No white space is behind the last character that is not skipped. -/
def EndsInWord (F : Foundation) (w : Str) : Prop :=
  ∃ a c b, w = a ++ c :: b ∧ F.skipped c = false ∧ ∀ x ∈ b, F.whitespace x = false

lemma endsInWord_cons {c : UInt16} {w : Str} : EndsInWord F (c :: w) ↔
    (F.skipped c = false ∧ ∀ x ∈ w, F.whitespace x = false) ∨ EndsInWord F w := by
  refine ⟨?_, ?_⟩
  · rintro ⟨a, d, b, heq, hd, hb⟩
    cases a with
    | nil =>
      obtain ⟨rfl, rfl⟩ := List.cons.inj heq
      exact Or.inl ⟨hd, hb⟩
    | cons x a => exact Or.inr ⟨a, d, b, (List.cons.inj heq).2, hd, hb⟩
  · rintro (⟨hc, hw⟩ | ⟨a, d, b, rfl, hd, hb⟩)
    · exact ⟨[], c, w, rfl, hc, hw⟩
    · exact ⟨c :: a, d, b, rfl, hd, hb⟩

lemma not_endsInWord_nil : ¬EndsInWord F [] := by
  rintro ⟨a, c, b, h, -⟩
  simp at h

lemma words_flatten (hskipped : ∀ c, F.whitespace c = true → F.skipped c = true) (inWord : Bool) (aString w : Str) :
    (words F inWord aString w).flatten = aString ++ w ↔
      aString ++ w = [] ∨ (inWord = true ∧ ∀ x ∈ w, F.whitespace x = false) ∨ EndsInWord F w := by
  induction w generalizing inWord aString with
  | nil => cases inWord <;> cases aString <;> simp [words, not_endsInWord_nil]
  | cons c w ih =>
    have hne : ¬aString ++ c :: w = [] := by simp
    have hnext : ∀ b, (words F b (aString ++ [c]) w).flatten = aString ++ c :: w ↔
        (b = true ∧ ∀ x ∈ w, F.whitespace x = false) ∨ EndsInWord F w := by
      intro b
      have h := ih b (aString ++ [c])
      rw [List.append_assoc, List.singleton_append] at h
      simpa only [hne, false_or] using h
    rw [words]
    split_ifs with hword hspace
    · have hblank := hskipped c hspace
      have h := ih false [c]
      rw [List.singleton_append] at h
      rw [List.flatten_cons, List.append_right_inj, h, endsInWord_cons]
      simp [hspace, hblank]
    · rw [hnext, endsInWord_cons]
      simp only [List.forall_mem_cons, Bool.not_eq_true] at hspace ⊢
      simp only [hne, hword, hspace, true_and]
      tauto
    · rw [hnext, endsInWord_cons]
      simp [hword]

lemma words_visible (hskipped : ∀ c, F.whitespace c = true → F.skipped c = true) {inWord : Bool} {aString w : Str}
    (h : inWord = true → ∃ c ∈ aString, F.skipped c = false) :
    ∀ s ∈ words F inWord aString w, ∃ c ∈ s, F.skipped c = false := by
  induction w generalizing inWord aString with
  | nil =>
    intro s hs
    rw [words] at hs
    split_ifs at hs with hword
    · rw [List.mem_singleton.mp hs]
      exact h hword
    · cases hs
  | cons c w ih =>
    intro s hs
    rw [words] at hs
    split_ifs at hs with hword hspace
    · rcases List.mem_cons.mp hs with rfl | hs
      · exact h hword
      · exact ih (fun hfalse => absurd hfalse (by decide)) s hs
    · obtain ⟨d, hd, hvisible⟩ := h hword
      exact ih (fun _ => ⟨d, List.mem_append_left _ hd, hvisible⟩) s hs
    · refine ih (fun hc => ⟨c, by simp, ?_⟩) s hs
      simpa using hc

end Scanner

section Folding

variable {F : Foundation} {charset : Bytes} {p : ℕ}

lemma addWord_plain (f : Folding) (aString : Str) :
    addWord F false charset p f aString =
      if 75 < f.current.length + aString.length + (if f.lines = [] then p else 0)
      then ⟨f.lines ++ [f.current], aString⟩ else ⟨f.lines, f.current ++ aString⟩ := by
  simp only [addWord, Bool.false_eq_true, if_false]
  by_cases h : f.lines = [] <;> simp [h]

lemma addWord_cases (must : Bool) (f : Folding) (s : Str) :
    addWord F must charset p f s = ⟨f.lines ++ [f.current], s⟩ ∨
      addWord F must charset p f s = ⟨f.lines, f.current ++ s⟩ := ite_eq_or_eq _ _ _

lemma foldl_addWord_unfolded {ws : List Str} {f : Folding} (hf : f.lines = [])
    (h : p + f.current.length + ws.flatten.length ≤ 75) : (ws.foldl (addWord F false charset p) f).lines = [] := by
  induction ws generalizing f with
  | nil => exact hf
  | cons s ws ih =>
    rw [List.flatten_cons, List.length_append] at h
    rw [List.foldl_cons, addWord_plain, if_neg (by rw [if_pos hf]; omega)]
    refine ih hf ?_
    rw [List.length_append]
    omega

lemma foldl_addWord_fits {ws : List Str} {f : Folding}
    (hf : f.lines = [] → f.current = [] ∨ p + f.current.length ≤ 75)
    (h : (ws.foldl (addWord F false charset p) f).lines = []) :
    (ws.foldl (addWord F false charset p) f).current = [] ∨
      p + (ws.foldl (addWord F false charset p) f).current.length ≤ 75 := by
  induction ws generalizing f with
  | nil => exact hf h
  | cons s ws ih =>
    rw [List.foldl_cons] at h ⊢
    refine ih ?_ h
    rw [addWord_plain]
    split_ifs with hlines hlong hlong
    · intro hnil
      simp at hnil
    · intro hnil
      rw [List.length_append]
      omega
    · intro hnil
      simp at hnil
    · exact fun hnil => absurd hnil hlines

lemma foldl_addWord_tail {P : Str → Prop} (hP : ∀ s t, P s → P (t ++ s)) {must : Bool} {ws : List Str} {f : Folding}
    (hws : ∀ s ∈ ws, P s) (hf : (∀ l ∈ f.lines.tail, P l) ∧ (f.lines ≠ [] → P f.current)) :
    (∀ l ∈ (ws.foldl (addWord F must charset p) f).lines.tail, P l) ∧
      ((ws.foldl (addWord F must charset p) f).lines ≠ [] → P (ws.foldl (addWord F must charset p) f).current) := by
  induction ws generalizing f with
  | nil => exact hf
  | cons s ws ih =>
    obtain ⟨htail, hcurrent⟩ := hf
    have hs := hws s List.mem_cons_self
    refine ih (fun t ht => hws t (List.mem_cons_of_mem _ ht)) ?_
    rcases addWord_cases must f s with h | h <;> rw [h]
    · refine ⟨?_, fun _ => hs⟩
      cases hlines : f.lines with
      | nil => simp
      | cons l ls =>
        rw [hlines] at htail hcurrent
        intro k hk
        rcases List.mem_append.mp hk with hk | hk
        · exact htail k hk
        · rw [List.mem_singleton.mp hk]
          exact hcurrent (List.cons_ne_nil _ _)
    · exact ⟨htail, fun _ => hP s _ hs⟩

end Folding

end Xperimentum.Pantomime.EncodedWords
