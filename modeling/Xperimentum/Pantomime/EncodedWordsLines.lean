import Xperimentum.Pantomime.EncodedWordsRoundTrip

/-! How long the lines of a folded string are. -/

namespace Xperimentum.Pantomime.EncodedWords

open Lib.Byte Lib.Lines

section Greedy

variable {fits : Bool → Str → Prop} {ws : List Str} {first : Bool} {line a : Str}

/-- Words are put on a line as long as they fit: whether the line that is filled is the first one, and what it holds. -/
inductive Filled (fits : Bool → Str → Prop) : List Str → Bool → Str → Prop
  | start : Filled fits [] true []
  | add {ws : List Str} {first : Bool} {line a : Str} (h : Filled fits ws first line) (hfits : fits first (line ++ a)) :
      Filled fits (ws ++ [a]) first (line ++ a)
  | turn {ws : List Str} {first : Bool} {line a : Str} (h : Filled fits ws first line) (hfull : ¬fits first (line ++ a)) :
      Filled fits (ws ++ [a]) false a

/-- The word behind a line that is full does not fit it. -/
def Full (fits : Bool → Str → Prop) (ws : List Str) (first : Bool) (line : Str) : Prop :=
  ∃ before a after, ws = before ++ a :: after ∧ Filled fits before first line ∧ ¬fits first (line ++ a)

def IsLine (fits : Bool → Str → Prop) (ws : List Str) (first : Bool) (line : Str) : Prop :=
  Full fits ws first line ∨ Filled fits ws first line

lemma Filled.fits_of_first (h : Filled fits ws first line) (hfirst : first = true) : line = [] ∨ fits true line := by
  cases h with
  | start => exact .inl rfl
  | add _ hfits =>
    rw [hfirst] at hfits
    exact .inr hfits
  | turn => cases hfirst

lemma IsLine.fits_of_first (h : IsLine fits ws true line) : line = [] ∨ fits true line := by
  rcases h with ⟨before, a, after, -, h, -⟩ | h
  · exact h.fits_of_first rfl
  · exact h.fits_of_first rfl

lemma not_full_nil : ¬Full fits [] first line := by
  rintro ⟨before, a, after, h, -⟩
  exact absurd (congrArg List.length h) (by simp)

lemma full_snoc : Full fits (ws ++ [a]) first line ↔
    Full fits ws first line ∨ Filled fits ws first line ∧ ¬fits first (line ++ a) := by
  constructor
  · rintro ⟨before, b, after, heq, hfilled, hfull⟩
    induction after using List.reverseRecOn with
    | nil =>
      obtain ⟨rfl, hb⟩ := List.append_inj' heq rfl
      obtain rfl := List.singleton_inj.mp hb
      exact .inr ⟨hfilled, hfull⟩
    | append_singleton after c _ =>
      rw [← List.cons_append, ← List.append_assoc] at heq
      obtain ⟨rfl, -⟩ := List.append_inj' heq rfl
      exact .inl ⟨before, b, after, rfl, hfilled, hfull⟩
  · rintro (⟨before, b, after, rfl, hfilled, hfull⟩ | ⟨hfilled, hfull⟩)
    · exact ⟨before, b, after ++ [a], by simp, hfilled, hfull⟩
    · exact ⟨ws, a, [], rfl, hfilled, hfull⟩

end Greedy

section Folds

variable {F : Foundation} {must : Bool} {charset : Bytes} {p : ℕ} {ws : List Str} {first : Bool} {line : Str}

/-- The estimate for a line, with what goes in front of the first one. -/
def Fits (F : Foundation) (must : Bool) (charset : Bytes) (p : ℕ) (first : Bool) (line : Str) : Prop :=
  (if must = true then 18 + (encodeHeader F charset line).length else line.length) + (if first = true then p else 0) ≤ 75

instance : Decidable (Fits F must charset p first line) := inferInstanceAs (Decidable (_ ≤ 75))

lemma addWord_eq (f : Folding) (a : Str) : addWord F must charset p f a =
    if Fits F must charset p (decide (f.lines = [])) (f.current ++ a) then ⟨f.lines, f.current ++ a⟩
    else ⟨f.lines ++ [f.current], a⟩ := by
  rw [addWord, List.length_append.symm]
  by_cases hlines : f.lines = []
  · simp only [Fits, hlines, if_true, decide_true]
    split_ifs <;> first | rfl | omega
  · simp only [Fits, hlines, if_false, decide_false, Bool.false_eq_true, add_zero]
    split_ifs <;> first | rfl | omega

def folding (F : Foundation) (must : Bool) (charset : Bytes) (p : ℕ) (ws : List Str) : Folding :=
  ws.foldl (addWord F must charset p) {}

lemma folding_snoc (a : Str) : folding F must charset p (ws ++ [a]) =
    addWord F must charset p (folding F must charset p ws) a := List.foldl_append

/-- What is filled is what the loop has in its hands. -/
lemma filled_iff : Filled (Fits F must charset p) ws first line ↔
    first = decide ((folding F must charset p ws).lines = []) ∧ line = (folding F must charset p ws).current := by
  constructor
  · intro h
    induction h with
    | start => exact ⟨rfl, rfl⟩
    | @add ws first line a _ hfits ih =>
      obtain ⟨rfl, rfl⟩ := ih
      rw [folding_snoc, addWord_eq, if_pos hfits]
      exact ⟨rfl, rfl⟩
    | @turn ws first line a _ hfull ih =>
      obtain ⟨rfl, rfl⟩ := ih
      rw [folding_snoc, addWord_eq, if_neg hfull]
      exact ⟨by simp, rfl⟩
  · rintro ⟨rfl, rfl⟩
    induction ws using List.reverseRecOn with
    | nil => exact .start
    | append_singleton ws a ih =>
      rw [folding_snoc, addWord_eq]
      split_ifs with hfits
      · exact ih.add hfits
      · have hturn := ih.turn hfits
        have hlines : decide ((folding F must charset p ws).lines ++ [(folding F must charset p ws).current] = []) = false := by
          simp
        rw [hlines]
        exact hturn

lemma full_iff : Full (Fits F must charset p) ws first line ↔
    (first = true ∧ (folding F must charset p ws).lines.head? = some line) ∨
      (first = false ∧ line ∈ (folding F must charset p ws).lines.tail) := by
  induction ws using List.reverseRecOn with
  | nil =>
    refine iff_of_false not_full_nil ?_
    rintro (⟨-, h⟩ | ⟨-, h⟩) <;> cases h
  | append_singleton ws a ih =>
    rw [full_snoc, ih, filled_iff, folding_snoc, addWord_eq]
    by_cases hfits : Fits F must charset p (decide ((folding F must charset p ws).lines = []))
        ((folding F must charset p ws).current ++ a)
    · rw [if_pos hfits]
      refine or_iff_left ?_
      rintro ⟨⟨rfl, rfl⟩, hfull⟩
      exact hfull hfits
    · rw [if_neg hfits]
      cases hlines : (folding F must charset p ws).lines with
      | nil =>
        rw [hlines] at hfits
        constructor
        · rintro ((⟨-, h⟩ | ⟨-, h⟩) | ⟨⟨rfl, rfl⟩, -⟩)
          · cases h
          · cases h
          · exact .inl ⟨rfl, rfl⟩
        · rintro (⟨rfl, h⟩ | ⟨-, h⟩)
          · cases h
            exact .inr ⟨⟨rfl, rfl⟩, hfits⟩
          · cases h
      | cons l lines =>
        rw [hlines] at hfits
        have hmem : line ∈ (l :: lines ++ [(folding F must charset p ws).current]).tail ↔
            line ∈ lines ∨ line = (folding F must charset p ws).current := by
          simp
        rw [hmem]
        constructor
        · rintro ((⟨rfl, h⟩ | ⟨rfl, h⟩) | ⟨⟨rfl, rfl⟩, -⟩)
          · exact .inl ⟨rfl, h⟩
          · exact .inr ⟨rfl, .inl h⟩
          · exact .inr ⟨rfl, .inr rfl⟩
        · rintro (⟨rfl, h⟩ | ⟨rfl, h | rfl⟩)
          · exact .inl (.inl ⟨rfl, h⟩)
          · exact .inl (.inr ⟨rfl, h⟩)
          · exact .inr ⟨⟨rfl, rfl⟩, hfits⟩

lemma isLine_first : IsLine (Fits F must charset p) ws true line ↔
    ((folding F must charset p ws).lines ++ [(folding F must charset p ws).current]).head? = some line := by
  rw [IsLine, full_iff, filled_iff]
  cases hlines : (folding F must charset p ws).lines with
  | nil => simp [eq_comm]
  | cons l lines => simp

lemma isLine_later : IsLine (Fits F must charset p) ws false line ↔
    line ∈ ((folding F must charset p ws).lines ++ [(folding F must charset p ws).current]).tail := by
  rw [IsLine, full_iff, filled_iff]
  cases hlines : (folding F must charset p ws).lines with
  | nil => simp
  | cons l lines => simp

end Folds

section Lengths

variable {F : Foundation} {w : Str} {p : ℕ}

/-- No line has more than 75 bytes. -/
def Within (b : Bytes) : Prop := ∀ l ∈ parts isLineFeed b, l.length ≤ 75

lemma within_append (front rest : Bytes) : Within (front ++ 10 :: rest) ↔ Within front ∧ Within rest := by
  rw [Within, parts_append_cons rfl, List.forall_mem_append]
  rfl

lemma within_intercalate (front q : Bytes) (qs : List Bytes) :
    Within (front ++ [10, 32].intercalate (q :: qs)) ↔ Within (front ++ q) ∧ ∀ r ∈ qs, Within (32 :: r) := by
  induction qs generalizing front q with
  | nil => simp
  | cons r qs ih =>
    have hsplit : front ++ [10, 32].intercalate (q :: r :: qs) = (front ++ q) ++ 10 :: ([32] ++ [10, 32].intercalate (r :: qs)) := by
      rw [List.intercalate_cons_cons]
      simp
    rw [hsplit, within_append, ih, List.forall_mem_cons]
    rfl

lemma parts_length {b l : Bytes} (h : l ∈ parts isLineFeed b) : l.length ≤ b.length := by
  induction b generalizing l with
  | nil =>
    rw [parts_nil, List.mem_singleton] at h
    exact (congrArg List.length h).le
  | cons c b ih =>
    rw [parts_cons] at h
    split_ifs at h with hc
    · rcases List.mem_cons.mp h with rfl | h
      · exact Nat.zero_le _
      · exact (ih h).trans (Nat.le_succ _)
    · obtain ⟨part, rest, hb⟩ := List.exists_cons_of_ne_nil (parts_ne_nil isLineFeed b)
      rw [hb, List.modifyHead_cons] at h
      rcases List.mem_cons.mp h with rfl | h
      · exact Nat.succ_le_succ (ih (by rw [hb]; exact List.mem_cons_self))
      · exact (ih (by rw [hb]; exact List.mem_cons_of_mem _ h)).trans (Nat.le_succ _)

lemma within_of_length {b : Bytes} (h : b.length ≤ 75) : Within b := fun _ hl => (parts_length hl).trans h

/-- The words of the text, line by line as they fit by the estimate. -/
def TextLine (F : Foundation) (w : Str) (p : ℕ) (first : Bool) (line : Str) : Prop :=
  IsLine (Fits F (!is7bitSafe w) (F.charset w) p) (words F false [] w) first line

/-- There is room for each line as it is written: for a later one with the blank in front of it, and for the first one of an
encoded text with what goes in front of it. -/
structure Roomy (F : Foundation) (w : Str) (p : ℕ) : Prop where
  later : ∀ line, TextLine F w p false line → Within (32 :: encodeLine F (!is7bitSafe w) (F.charset w) line)
  first : is7bitSafe w = false → ∀ line, TextLine F w p true line →
    Within (List.replicate p 32 ++ encodeLine F true (F.charset w) line)

lemma plain_first (hw : is7bitSafe w = true) (hp : p < 75) {line : Str} (h : TextLine F w p true line) :
    Within (List.replicate p 32 ++ encodeLine F false (F.charset w) line) := by
  apply within_of_length
  have hfits := h.fits_of_first
  rw [Fits, hw] at hfits
  rw [List.length_append, List.length_replicate, encodeLine, if_neg Bool.false_ne_true, List.length_map]
  rcases hfits with rfl | hfits
  · exact hp.le
  · simp only [Bool.not_true, Bool.false_eq_true, if_false, if_true] at hfits
    omega

end Lengths

end Xperimentum.Pantomime.EncodedWords
