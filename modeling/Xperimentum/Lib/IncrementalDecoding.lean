import Mathlib.Tactic

/-! Decoders that take their input in pieces: what the front of a buffer holds in a given state of the decoder. -/

namespace Xperimentum.Lib.IncrementalDecoding

variable {β γ σ : Type*}

/-- A character, the beginning of one, or an input in error, with the number of inputs that are done with and
the state after them. -/
inductive Piece (γ σ : Type*)
  | complete (n : ℕ) (u : γ) (s : σ)
  | incomplete (n : ℕ) (s : σ)
  | invalid (n : ℕ) (s : σ)

structure Decoder (β γ σ : Type*) where
  piece : σ → List β → Piece γ σ
  complete_le : ∀ {s bs n u s'}, piece s bs = .complete n u s' → 1 ≤ n ∧ n ≤ bs.length
  incomplete_le : ∀ {s bs n s'}, piece s bs = .incomplete n s' → n ≤ bs.length
  invalid_lt : ∀ {s bs n s'}, piece s bs = .invalid n s' → n < bs.length
  determined : ∀ {s bs cs n u s'}, piece s (bs ++ cs) = .complete n u s' → n ≤ bs.length →
    piece s bs = .complete n u s'
  resumes : ∀ {s bs n s'}, piece s bs = .incomplete n s' → ∃ m s'', piece s' (bs.drop n) = .incomplete m s''

/-- There is a character at the front, or behind inputs in error. -/
def Decoder.Deliverable (d : Decoder β γ σ) (s : σ) (bs : List β) : Prop :=
  match _h : d.piece s bs with
  | .complete _ _ _ => True
  | .incomplete _ _ => False
  | .invalid n s' => d.Deliverable s' (bs.drop (n + 1))
termination_by bs.length
decreasing_by
  have hlt := d.invalid_lt _h
  rw [List.length_drop]
  omega

variable (d : Decoder β γ σ) {s s' : σ} {bs : List β} {n : ℕ}

lemma deliverable_complete {u : γ} (h : d.piece s bs = .complete n u s') : d.Deliverable s bs := by
  rw [Decoder.Deliverable]
  split <;> simp_all

lemma not_deliverable_incomplete (h : d.piece s bs = .incomplete n s') : ¬d.Deliverable s bs := by
  rw [Decoder.Deliverable]
  split <;> simp_all

lemma deliverable_invalid (h : d.piece s bs = .invalid n s') :
    d.Deliverable s bs ↔ d.Deliverable s' (bs.drop (n + 1)) := by
  rw [Decoder.Deliverable]
  split <;> simp_all

lemma not_deliverable_nil (s : σ) : ¬d.Deliverable s [] := by
  cases h : d.piece s [] with
  | complete n u s' =>
    have hle := d.complete_le h
    rw [List.length_nil] at hle
    omega
  | incomplete n s' => exact not_deliverable_incomplete d h
  | invalid n s' => exact absurd (d.invalid_lt h) (Nat.not_lt_zero n)

lemma not_deliverable_resumed (h : d.piece s bs = .incomplete n s') : ¬d.Deliverable s' (bs.drop n) := by
  obtain ⟨m, s'', hrest⟩ := d.resumes h
  exact not_deliverable_incomplete d hrest

lemma complete_all {b : β} {u : γ} (hbs : ¬d.Deliverable s bs) (h : d.piece s (bs ++ [b]) = .complete n u s') :
    n = (bs ++ [b]).length := by
  have hle := (d.complete_le h).2
  have hlt : bs.length < n := by
    by_contra hn
    exact hbs (deliverable_complete d (d.determined h (not_lt.mp hn)))
  rw [List.length_append, List.length_singleton] at hle ⊢
  omega

instance decidableDeliverable (s : σ) (bs : List β) : Decidable (d.Deliverable s bs) :=
  match h : d.piece s bs with
  | .complete _ _ _ => isTrue (deliverable_complete d h)
  | .incomplete _ _ => isFalse (not_deliverable_incomplete d h)
  | .invalid n s' =>
    have : Decidable (d.Deliverable s' (bs.drop (n + 1))) := decidableDeliverable s' (bs.drop (n + 1))
    decidable_of_iff _ (deliverable_invalid d h).symm
termination_by bs.length
decreasing_by
  have hlt := d.invalid_lt h
  rw [List.length_drop]
  omega

end Xperimentum.Lib.IncrementalDecoding
