import Mathlib.Data.List.DropRight
import Xperimentum.Lib.Partial

/-! What the steps of a partial run emit, one after the other, and the rule for a store that takes it in. -/

namespace Xperimentum.Lib.Emission

open Xperimentum.Lib.Partial

variable {S E R H : Type} {step : S → E → Option S} {out : S → E → List R} {P : S → Prop}

def emitted (step : S → E → Option S) (out : S → E → List R) : S → List E → List R
  | _, [] => []
  | s, e :: es =>
    out s e ++
      match step s e with
      | some t => emitted step out t es
      | none => []

lemma emitted_cons {s t : S} {e : E} (h : step s e = some t) (es : List E) :
    emitted step out s (e :: es) = out s e ++ emitted step out t es := by
  rw [emitted, h]

lemma emitted_absorbed {f : S → H} {absorb : H → List R → H}
    (hnil : ∀ s, P s → absorb (f s) [] = f s)
    (happend : ∀ x k l, absorb (absorb x k) l = absorb x (k ++ l)) (es : List E) {s : S}
    (hstep : ∀ s, P s → ∀ e ∈ es, Allows (step s e) fun t => P t ∧ f t = absorb (f s) (out s e))
    (hs : P s) :
    Allows (es.foldlM step s) fun t => P t ∧ f t = absorb (f s) (emitted step out s es) := by
  induction es generalizing s with
  | nil => exact allows_pure ⟨hs, (hnil s hs).symm⟩
  | cons e es ih =>
    intro u hu
    rw [List.foldlM_cons] at hu
    obtain ⟨t, ht, hrun⟩ := Option.bind_eq_some_iff.mp hu
    obtain ⟨hp, hh⟩ := hstep s hs e List.mem_cons_self t ht
    obtain ⟨hq, hk⟩ := ih (fun a ha f hf => hstep a ha f (List.mem_cons_of_mem e hf)) hp u hrun
    refine ⟨hq, ?_⟩
    rw [emitted_cons ht, ← happend, ← hh, hk]

section LastOnes

/-- A bounded history: the newest `n` of everything that has come in. -/
def remember (n : ℕ) (held incoming : List R) : List R := (held ++ incoming).rtake n

lemma rtake_append_rtake (n : ℕ) (l k : List R) : (l.rtake n ++ k).rtake n = (l ++ k).rtake n := by
  simp only [List.rtake_eq_reverse_take_reverse, List.reverse_append, List.reverse_reverse, List.take_append,
    List.take_take]
  rw [min_eq_left (Nat.sub_le n _)]

lemma remember_append (n : ℕ) (l j k : List R) :
    remember n (remember n l j) k = remember n l (j ++ k) := by
  simp only [remember, rtake_append_rtake, List.append_assoc]

lemma remember_nil {n : ℕ} {l : List R} (h : l.length ≤ n) : remember n l [] = l := by
  rw [remember, List.append_nil, List.rtake, Nat.sub_eq_zero_of_le h, List.drop_zero]

end LastOnes

end Xperimentum.Lib.Emission
