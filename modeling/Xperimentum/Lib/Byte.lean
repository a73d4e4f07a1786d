import Mathlib.Tactic

/-! A statement about every byte is checked byte by byte, and one about the bytes of a list along the list. -/

namespace Xperimentum.Lib.Byte

lemma forall_byte {P : UInt8 → Prop} (h : ∀ high low : Fin 16, P (UInt8.ofNat (16 * high + low))) (c : UInt8) : P c := by
  have hlt := c.toNat_lt
  have hc := h ⟨c.toNat / 16, by omega⟩ ⟨c.toNat % 16, by omega⟩
  rwa [Nat.div_add_mod, UInt8.ofNat_toNat] at hc

lemma forall_mem_of_all {α : Type} {P : α → Prop} [DecidablePred P] {l : List α} (h : l.all (fun u => decide (P u)) = true) :
    ∀ u ∈ l, P u :=
  fun u hu => of_decide_eq_true (List.all_eq_true.mp h u hu)

end Xperimentum.Lib.Byte
