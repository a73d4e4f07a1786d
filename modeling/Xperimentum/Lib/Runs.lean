import Mathlib.Tactic

/-! Runs of a deterministic step function, and the rule that carries an invariant along a run whose
steps all meet a condition. -/

namespace Xperimentum.Lib.Runs

variable {S E : Type*} {step : S → E → S} {P Q : S → E → Prop} {Inv : S → Prop}

def run (step : S → E → S) (s : S) (es : List E) : S := es.foldl step s

def Along (step : S → E → S) (P : S → E → Prop) : S → List E → Prop
  | _, [] => True
  | s, e :: es => P s e ∧ Along step P (step s e) es

instance decidableAlong [∀ s e, Decidable (P s e)] (s : S) (es : List E) : Decidable (Along step P s es) :=
  match es with
  | [] => inferInstanceAs (Decidable True)
  | e :: es => @instDecidableAnd _ _ _ (decidableAlong (step s e) es)

@[simp] lemma run_nil (s : S) : run step s [] = s := rfl

@[simp] lemma run_cons (s : S) (e : E) (es : List E) :
    run step s (e :: es) = run step (step s e) es := rfl

lemma run_append (s : S) (es fs : List E) :
    run step s (es ++ fs) = run step (run step s es) fs := List.foldl_append

@[simp] lemma along_nil (s : S) : Along step P s [] := trivial

@[simp] lemma along_cons (s : S) (e : E) (es : List E) :
    Along step P s (e :: es) ↔ P s e ∧ Along step P (step s e) es := Iff.rfl

lemma along_append (s : S) (es fs : List E) :
    Along step P s (es ++ fs) ↔ Along step P s es ∧ Along step P (run step s es) fs := by
  induction es generalizing s with
  | nil => simp
  | cons e es ih => simp [ih, and_assoc]

lemma Along.imp (h : ∀ s e, P s e → Q s e) {s : S} {es : List E} (hs : Along step P s es) :
    Along step Q s es := by
  induction es generalizing s with
  | nil => trivial
  | cons e es ih => exact ⟨h s e hs.1, ih hs.2⟩

lemma run_invariant (hstep : ∀ s e, Inv s → P s e → Inv (step s e)) {s : S} (hs : Inv s) {es : List E}
    (h : Along step P s es) : Inv (run step s es) := by
  induction es generalizing s with
  | nil => exact hs
  | cons e es ih => exact ih (hstep s e hs h.1) h.2

lemma Along.take {s : S} {es : List E} (h : Along step P s es) (n : ℕ) : Along step P s (es.take n) := by
  rw [← es.take_append_drop n, along_append] at h
  exact h.1

lemma run_along (hstep : ∀ s e, Inv s → P s e → Inv (step s e)) {s : S} (hs : Inv s) {es : List E}
    (h : Along step P s es) : Along step (fun s e => Inv s ∧ P s e) s es := by
  induction es generalizing s with
  | nil => trivial
  | cons e es ih => exact ⟨⟨hs, h.1⟩, ih (hstep s e hs h.1) h.2⟩

lemma run_iff (hstep : ∀ s e, Inv s → P s e → (Inv (step s e) ↔ Q s e)) {s : S} (hs : Inv s) {es : List E}
    (h : Along step P s es) : (∀ n, Inv (run step s (es.take n))) ↔ Along step Q s es := by
  induction es generalizing s with
  | nil =>
    refine iff_of_true (fun n => ?_) trivial
    rw [List.take_nil]
    exact hs
  | cons e es ih =>
    have hfirst := hstep s e hs h.1
    constructor
    · intro hall
      have hnext : Inv (step s e) := hall 1
      exact ⟨hfirst.mp hnext, (ih hnext h.2).mp fun n => hall (n + 1)⟩
    · rintro ⟨hq, hrest⟩ n
      cases n with
      | zero => exact hs
      | succ n => exact (ih (hfirst.mpr hq) h.2).mpr hrest n

end Xperimentum.Lib.Runs
