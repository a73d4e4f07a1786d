import Xperimentum.Lib.Buffers
import Xperimentum.Lib.Partial

/-! A heap of blocks that are allocated, moved and freed. A cell whose content is indeterminate is `none`, and so is
an access outside of a block or to one that has been freed. -/

namespace Xperimentum.Lib.Blocks

open Buffers Partial

/-- The block at 0 has no cells. -/
structure Heap (α : Type) where
  block : ℕ → Option (List (Option α))
  next : ℕ

namespace Heap

variable {α : Type} {m m' m'' : Heap α} {a p q r start n : ℕ} {x y z b cells : List (Option α)}

def empty : Heap α := ⟨fun a => if a = 0 then some [] else none, 1⟩

def fresh (cells : List (Option α)) (m : Heap α) : ℕ × Heap α :=
  (m.next, ⟨Function.update m.block m.next (some cells), m.next + 1⟩)

def free (a : ℕ) (m : Heap α) : Option (Heap α) :=
  (m.block a).map fun _ => { m with block := Function.update m.block a none }

/-- The block moves; what it gains is indeterminate. -/
def realloc (a n : ℕ) (m : Heap α) : Option (ℕ × Heap α) := do
  let cells ← m.block a
  let m ← m.free a
  pure (m.fresh ((cells ++ List.replicate n none).take n))

def load (a start n : ℕ) (m : Heap α) : Option (List (Option α)) := do
  let cells ← m.block a
  if start + n ≤ cells.length then some ((cells.drop start).take n) else none

def store (a start : ℕ) (b : List (Option α)) (m : Heap α) : Option (Heap α) := do
  let cells ← m.block a
  let cells ← put cells start b
  pure { m with block := Function.update m.block a (some cells) }

lemma load_eq (h : m.block a = some (x ++ (y ++ z))) (hx : x.length = start) (hy : y.length = n) :
    m.load a start n = some y := by
  subst hx hy
  have hle : x.length + y.length ≤ (x ++ (y ++ z)).length := by
    simp only [List.length_append]
    omega
  rw [load, h, Option.bind_eq_bind, Option.bind_some, if_pos hle, List.drop_left, List.take_left]

lemma load_of_freed (h : m.block a = none) : m.load a start n = none := by rw [load, h]; rfl

lemma store_eq (h : m.block a = some (x ++ (y ++ z))) (hx : x.length = start) (hy : y.length = b.length) :
    m.store a start b = some { m with block := Function.update m.block a (some (x ++ (b ++ z))) } := by
  rw [store, h, Option.bind_eq_bind, Option.bind_some, put_append hx hy]
  rfl

/-! What an operation leaves alone that may change the block at `p`, and finds its cells at `q` then. -/

structure Sound (m : Heap α) : Prop where
  null : m.block 0 = some []
  next : 0 < m.next

lemma sound_empty : Sound (empty : Heap α) := ⟨rfl, Nat.one_pos⟩

structure Moves (p q : ℕ) (m m' : Heap α) : Prop where
  kept : ∀ a < m.next, a = 0 ∨ a ≠ p → m'.block a = m.block a
  next : m.next ≤ m'.next
  place : q = p ∨ q = 0 ∨ m.next ≤ q

lemma Moves.refl (p : ℕ) (m : Heap α) : Moves p p m m := ⟨fun _ _ _ => rfl, le_rfl, .inl rfl⟩

lemma Moves.trans (h : Moves p q m m') (h' : Moves q r m' m'') : Moves p r m m'' := by
  refine ⟨fun a ha hp => ?_, h.next.trans h'.next, ?_⟩
  · rw [h'.kept a (ha.trans_le h.next), h.kept a ha hp]
    rcases h.place with rfl | rfl | hq
    · exact hp
    · exact Decidable.em _
    · exact .inr (ha.trans_le hq).ne
  · rcases h'.place with rfl | hr | hr
    · exact h.place
    · exact .inr (.inl hr)
    · exact .inr (.inr (h.next.trans hr))

lemma Moves.sound (h : Moves p q m m') (hm : Sound m) : Sound m' :=
  ⟨(h.kept 0 hm.next (.inl rfl)).trans hm.null, hm.next.trans_le h.next⟩

lemma fresh_moves (p : ℕ) (cells : List (Option α)) (m : Heap α) : Moves p (m.fresh cells).1 m (m.fresh cells).2 :=
  ⟨fun _ ha _ => Function.update_of_ne ha.ne _ _, Nat.le_succ _, .inr (.inr le_rfl)⟩

lemma fresh_block (cells : List (Option α)) (m : Heap α) : (m.fresh cells).2.block (m.fresh cells).1 = some cells :=
  Function.update_self _ _ _

lemma free_ensures (h : m.block a = some cells) (h0 : a ≠ 0) :
    Ensures (m.free a) fun m' => Moves a 0 m m' ∧ m'.block a = none ∧ m'.next = m.next := by
  rw [free, h]
  refine ensures_some
    ⟨⟨fun b _ hb => Function.update_of_ne ?_ _ _, le_rfl, .inr (.inl rfl)⟩, Function.update_self _ _ _, rfl⟩
  rcases hb with rfl | hb
  · exact h0.symm
  · exact hb

/-- A block that has moved is no longer where it was. -/
lemma realloc_ensures (h : m.block a = some cells) (h0 : a ≠ 0) (ha : a < m.next) (n : ℕ) :
    Ensures (m.realloc a n) fun made => Moves a made.1 m made.2 ∧ made.1 = m.next ∧ made.2.next = m.next + 1 ∧
      made.2.block made.1 = some ((cells ++ List.replicate n none).take n) ∧ made.2.block a = none := by
  obtain ⟨m', hm', hmoves, hfreed, hnext⟩ := free_ensures h h0
  rw [realloc, h, Option.bind_eq_bind, Option.bind_some, hm', Option.bind_eq_bind, Option.bind_some]
  refine ensures_pure ⟨hmoves.trans (fresh_moves 0 _ m'), hnext, congrArg (· + 1) hnext, fresh_block _ _, ?_⟩
  rw [← hfreed]
  exact Function.update_of_ne (hnext ▸ ha.ne) _ _

lemma store_ensures (hm : Sound m) (h : m.block a = some (x ++ (y ++ z))) (hx : x.length = start)
    (hy : y.length = b.length) : Ensures (m.store a start b) fun m' =>
      Moves a a m m' ∧ m'.next = m.next ∧ m'.block a = some (x ++ (b ++ z)) := by
  rw [store_eq h hx hy]
  refine ensures_some ⟨⟨fun c _ hc => ?_, le_rfl, .inl rfl⟩, rfl, Function.update_self _ _ _⟩
  by_cases hca : c = a
  · -- Only the block at 0 is kept although it is stored to, and it has no cells.
    subst hca
    obtain rfl : c = 0 := hc.resolve_right fun h => h rfl
    have hnil : x ++ (y ++ z) = [] := Option.some.inj (h.symm.trans hm.null)
    obtain ⟨rfl, hyz⟩ := List.append_eq_nil_iff.mp hnil
    obtain ⟨rfl, rfl⟩ := List.append_eq_nil_iff.mp hyz
    obtain rfl : b = [] := List.length_eq_zero_iff.mp hy.symm
    have hself : Function.update m.block 0 (some []) 0 = some [] := Function.update_self _ _ _
    exact hself.trans hm.null.symm
  · exact Function.update_of_ne hca _ _

end Heap

end Xperimentum.Lib.Blocks
