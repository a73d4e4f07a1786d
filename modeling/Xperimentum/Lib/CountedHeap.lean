import Mathlib.Algebra.BigOperators.Group.Finset.Basic
import Mathlib.Tactic
import Xperimentum.Lib.Partial

/-! Heaps of objects that are counted by those who hold them, a reference from a container being worth as many
holders as the container has. -/

namespace Xperimentum.Lib.CountedHeap

open Lib.Partial Relation

structure Cell (γ : Type) where
  content : γ
  count : ℤ

structure Heap (γ : Type) where
  cells : ℕ → Option (Cell γ)
  next : ℕ

namespace Heap

variable {γ : Type}

def empty : Heap γ := ⟨fun _ => none, 0⟩

def put (h : Heap γ) (r : ℕ) (cell : Option (Cell γ)) : Heap γ :=
  { h with cells := Function.update h.cells r cell }

def alloc (h : Heap γ) (content : γ) : Heap γ := { h.put h.next (some ⟨content, 1⟩) with next := h.next + 1 }

def Live (h : Heap γ) (r : ℕ) : Prop := h.cells r ≠ none

def count (h : Heap γ) (r : ℕ) : ℤ := ((h.cells r).map Cell.count).getD 0

def refs (children : γ → List ℕ) (h : Heap γ) (r : ℕ) : List ℕ :=
  ((h.cells r).map fun cell => children cell.content).getD []

/-- The holders of an object among the containers. -/
def inflow (children : γ → List ℕ) (h : Heap γ) (x : ℕ) : ℤ :=
  ∑ r ∈ Finset.range h.next, ((h.refs children r).count x : ℤ) * h.count r

end Heap

section Counting

variable {γ : Type} (children : γ → List ℕ)

/-- An object and all that it holds, as often as it holds it, get `n` holders more. -/
def retainByCount : ℕ → Heap γ → ℕ → ℤ → Option (Heap γ)
  | 0, _, _, _ => none
  | depth + 1, h, r, n =>
    (h.cells r).bind fun cell =>
      (children cell.content).foldlM (fun h x => retainByCount depth h x n)
        (h.put r (some { cell with count := cell.count + n }))

/-- An object and all that it holds get `n` holders less; what has none left is freed. -/
def releaseByCount : ℕ → Heap γ → ℕ → ℤ → Option (Heap γ)
  | 0, _, _, _ => none
  | depth + 1, h, r, n =>
    (h.cells r).bind fun cell =>
      ((children cell.content).foldlM (fun h x => releaseByCount depth h x n)
        (h.put r (some { cell with count := cell.count - n }))).bind fun h =>
        (h.cells r).map fun cell => if cell.count < 1 then h.put r none else h

/-- No chain of references is longer than there are objects, unless an object holds itself. -/
def retain (h : Heap γ) (r : ℕ) (n : ℤ) : Option (Heap γ) := retainByCount children (h.next + 1) h r n

def release (h : Heap γ) (r : ℕ) (n : ℤ) : Option (Heap γ) := releaseByCount children (h.next + 1) h r n

end Counting

variable {γ : Type} {children : γ → List ℕ} {h h' : Heap γ} {D : ℕ → ℤ} {r x : ℕ} {cell : Cell γ}

/-! One cell. -/

lemma cells_put (h : Heap γ) (r : ℕ) (cell : Option (Cell γ)) (x : ℕ) :
    (h.put r cell).cells x = if x = r then cell else h.cells x := by
  rw [Heap.put]
  exact Function.update_apply _ _ _ _

lemma count_of (hr : h.cells r = some cell) : h.count r = cell.count := by
  rw [Heap.count, hr]
  rfl

lemma refs_of (hr : h.cells r = some cell) : h.refs children r = children cell.content := by
  rw [Heap.refs, hr]
  rfl

lemma count_put (h : Heap γ) (r : ℕ) (cell : Option (Cell γ)) (x : ℕ) :
    (h.put r cell).count x = if x = r then (cell.map Cell.count).getD 0 else h.count x := by
  rw [Heap.count, cells_put]
  split
  · rfl
  · rfl

lemma refs_put (h : Heap γ) (r : ℕ) (cell : Option (Cell γ)) (x : ℕ) :
    (h.put r cell).refs children x =
      if x = r then (cell.map fun cell => children cell.content).getD [] else h.refs children x := by
  rw [Heap.refs, cells_put]
  split
  · rfl
  · rfl

lemma inflow_put (hr : r < h.next) (cell : Option (Cell γ)) (x : ℕ) :
    (h.put r cell).inflow children x = h.inflow children x - ((h.refs children r).count x : ℤ) * h.count r +
      (((cell.map fun cell => children cell.content).getD []).count x : ℤ) * (cell.map Cell.count).getD 0 := by
  have hmem : r ∈ Finset.range h.next := Finset.mem_range.mpr hr
  have hrest : ∑ a ∈ (Finset.range h.next).erase r,
        (((h.put r cell).refs children a).count x : ℤ) * (h.put r cell).count a =
      ∑ a ∈ (Finset.range h.next).erase r, ((h.refs children a).count x : ℤ) * h.count a := by
    refine Finset.sum_congr rfl fun a ha => ?_
    rw [refs_put, count_put, if_neg (Finset.ne_of_mem_erase ha), if_neg (Finset.ne_of_mem_erase ha)]
  rw [Heap.inflow, Heap.inflow]
  change ∑ a ∈ Finset.range h.next, _ = _
  rw [← Finset.add_sum_erase _ _ hmem, ← Finset.add_sum_erase (Finset.range h.next) _ hmem, hrest, refs_put, count_put,
    if_pos rfl, if_pos rfl]
  ring

/-! The balance of a heap. -/

/-- Every object has as many holders as there are among the containers, and `D` others. -/
def Owed (children : γ → List ℕ) (h : Heap γ) (D : ℕ → ℤ) : Prop := ∀ x, h.count x = D x + h.inflow children x

/-- What no container can reach lies above it. -/
def Ranked (children : γ → List ℕ) (h : Heap γ) (rank : ℕ → ℕ) : Prop :=
  ∀ r x, x ∈ h.refs children r → rank x < rank r

def Closed (children : γ → List ℕ) (h : Heap γ) : Prop := ∀ r x, x ∈ h.refs children r → h.Live x

def Fresh (h : Heap γ) : Prop := ∀ r, h.next ≤ r → h.cells r = none

lemma Fresh.lt (hf : Fresh h) (hr : h.Live r) : r < h.next := by
  by_contra hle
  exact hr (hf r (not_lt.mp hle))

/-- The same objects with the same contents, whatever their counts. -/
structure SameContents (h h' : Heap γ) : Prop where
  next : h'.next = h.next
  contents : ∀ r, (h'.cells r).map Cell.content = (h.cells r).map Cell.content

lemma SameContents.refl (h : Heap γ) : SameContents h h := ⟨rfl, fun _ => rfl⟩

lemma SameContents.trans {h'' : Heap γ} (s : SameContents h h') (s' : SameContents h' h'') : SameContents h h'' :=
  ⟨s'.next.trans s.next, fun r => (s'.contents r).trans (s.contents r)⟩

lemma refs_eq (h : Heap γ) (r : ℕ) : h.refs children r = (((h.cells r).map Cell.content).map children).getD [] := by
  rw [Heap.refs, Option.map_map]
  rfl

lemma SameContents.refs (s : SameContents h h') (r : ℕ) : h'.refs children r = h.refs children r := by
  rw [refs_eq, s.contents, refs_eq]

lemma SameContents.live (s : SameContents h h') (r : ℕ) : h'.Live r ↔ h.Live r := by
  have hmap := s.contents r
  rw [Heap.Live, Heap.Live, ne_eq, ne_eq, ← Option.map_eq_none_iff (f := Cell.content), hmap, Option.map_eq_none_iff]

lemma SameContents.fresh (s : SameContents h h') (hf : Fresh h) : Fresh h' := by
  intro r hr
  rw [s.next] at hr
  have hmap := s.contents r
  rw [hf r hr] at hmap
  exact Option.map_eq_none_iff.mp hmap

lemma SameContents.ranked (s : SameContents h h') {rank : ℕ → ℕ} (hr : Ranked children h rank) :
    Ranked children h' rank := by
  intro r x hx
  rw [s.refs] at hx
  exact hr r x hx

lemma SameContents.closed (s : SameContents h h') (hc : Closed children h) : Closed children h' := by
  intro r x hx
  rw [s.refs] at hx
  exact (s.live x).mpr (hc r x hx)

lemma sameContents_put (hr : h.cells r = some cell) (n : ℤ) :
    SameContents h (h.put r (some { cell with count := n })) := by
  refine ⟨rfl, fun x => ?_⟩
  rw [cells_put]
  split
  · next hx => rw [hx, hr]; rfl
  · rfl

lemma Owed.setCount (hD : Owed children h D) (hf : Fresh h) (hr : h.cells r = some cell) (n : ℤ) :
    Owed children (h.put r (some { cell with count := cell.count + n }))
      fun x => D x + (if x = r then n else 0) - n * (children cell.content).count x := by
  have hlt : r < h.next := hf.lt (by rw [Heap.Live, hr]; exact Option.some_ne_none _)
  intro x
  rw [count_put, inflow_put hlt, refs_of hr, count_of hr]
  simp only [Option.map_some, Option.getD_some]
  have hx := hD x
  split
  · next hxr =>
    subst hxr
    rw [count_of hr] at hx
    rw [hx]
    ring
  · rw [hx]
    ring

lemma Owed.congr {D' : ℕ → ℤ} (hD : Owed children h D) (heq : ∀ x, D x = D' x) : Owed children h D' := by
  intro x
  rw [← heq]
  exact hD x

/-! More holders. -/

/-- What retaining does: the counts grow, and nothing else changes. -/
structure Retained (children : γ → List ℕ) (h h' : Heap γ) (D : ℕ → ℤ) (rank : ℕ → ℕ) (bound : ℕ) : Prop where
  same : SameContents h h'
  owed : Owed children h' D
  grown : ∀ x, h.count x ≤ h'.count x
  frame : ∀ x, bound ≤ rank x → h'.cells x = h.cells x

section Retain

variable {rank : ℕ → ℕ} {depth : ℕ} {n : ℤ}

lemma Retained.mono {bound bound' : ℕ} (hle : bound ≤ bound') (hr : Retained children h h' D rank bound) :
    Retained children h h' D rank bound' :=
  ⟨hr.same, hr.owed, hr.grown, fun x hx => hr.frame x (hle.trans hx)⟩

lemma ensures_retainAll {bound : ℕ} {xs : List ℕ}
    (hstep : ∀ h D, ∀ x ∈ xs, Ranked children h rank → Closed children h → Fresh h → Owed children h D → h.Live x →
      Ensures (retainByCount children depth h x n) fun h' =>
        Retained children h h' (fun y => D y + if y = x then n else 0) rank bound)
    (hr : Ranked children h rank) (hc : Closed children h) (hf : Fresh h) (hD : Owed children h D)
    (hlive : ∀ x ∈ xs, h.Live x) :
    Ensures (xs.foldlM (fun h x => retainByCount children depth h x n) h) fun h' =>
      Retained children h h' (fun y => D y + n * xs.count y) rank bound := by
  induction xs generalizing h D with
  | nil =>
    refine ensures_pure ⟨SameContents.refl h, hD.congr fun y => ?_, fun y => le_refl _, fun _ _ => rfl⟩
    rw [List.count_nil, Nat.cast_zero, mul_zero, add_zero]
  | cons x xs ih =>
    rw [List.foldlM_cons]
    rw [List.forall_mem_cons] at hlive
    refine Ensures.bind (hstep h D x List.mem_cons_self hr hc hf hD hlive.1) fun u hu => ?_
    refine (ih (fun h D y hy => hstep h D y (List.mem_cons_of_mem x hy)) (hu.same.ranked hr) (hu.same.closed hc)
      (hu.same.fresh hf) hu.owed fun y hy => (hu.same.live y).mpr (hlive.2 y hy)).imp fun v hv => ?_
    refine ⟨hu.same.trans hv.same, hv.owed.congr fun y => ?_, fun y => (hu.grown y).trans (hv.grown y),
      fun y hy => (hv.frame y hy).trans (hu.frame y hy)⟩
    rw [List.count_cons]
    by_cases hyx : y = x
    · subst hyx
      simp only [if_true, beq_self_eq_true]
      push_cast
      ring
    · have hxy : ¬(x == y) = true := fun heq => hyx (eq_of_beq heq).symm
      rw [if_neg hyx, if_neg hxy]
      push_cast
      ring

lemma ensures_retain (hn : 0 ≤ n) (hdepth : rank r < depth) (hr : Ranked children h rank) (hc : Closed children h)
    (hf : Fresh h) (hD : Owed children h D) (hlive : h.Live r) :
    Ensures (retainByCount children depth h r n) fun h' =>
      Retained children h h' (fun y => D y + if y = r then n else 0) rank (rank r + 1) := by
  induction depth generalizing h D r with
  | zero => omega
  | succ depth ih =>
    obtain ⟨cell, hcell⟩ := Option.ne_none_iff_exists'.mp hlive
    have hput := sameContents_put hcell (cell.count + n)
    have hrefs : ∀ x ∈ children cell.content, rank x < rank r ∧ h.Live x := by
      intro x hx
      have hmem : x ∈ h.refs children r := by
        rw [refs_of hcell]
        exact hx
      exact ⟨hr r x hmem, hc r x hmem⟩
    rw [retainByCount, hcell]
    have hstep : ∀ h D, ∀ x ∈ children cell.content, Ranked children h rank → Closed children h → Fresh h →
        Owed children h D → h.Live x → Ensures (retainByCount children depth h x n) fun h' =>
          Retained children h h' (fun y => D y + if y = x then n else 0) rank (rank r) := by
      intro h D x hx hr hc hf hD hlive
      have hlt := (hrefs x hx).1
      exact (ih (by omega) hr hc hf hD hlive).imp fun h' hh => hh.mono hlt
    refine (ensures_retainAll hstep (hput.ranked hr) (hput.closed hc) (hput.fresh hf) (hD.setCount hf hcell n)
      fun x hx => (hput.live x).mpr (hrefs x hx).2).imp fun v hv => ?_
    · refine ⟨hput.trans hv.same, hv.owed.congr fun y => ?_, fun y => le_trans ?_ (hv.grown y), fun y hy => ?_⟩
      · ring
      · rw [count_put]
        split
        · next hy =>
          rw [hy, count_of hcell, Option.map_some, Option.getD_some]
          exact le_add_of_nonneg_right hn
        · exact le_refl _
      · rw [hv.frame y (by omega), cells_put, if_neg]
        rintro rfl
        omega

end Retain

/-! Fewer holders. -/

/-- The objects that are left have the contents that they had. -/
structure Shrunk (h h' : Heap γ) : Prop where
  next : h'.next = h.next
  contents : ∀ r, h'.Live r → (h'.cells r).map Cell.content = (h.cells r).map Cell.content

lemma Shrunk.refl (h : Heap γ) : Shrunk h h := ⟨rfl, fun _ _ => rfl⟩

lemma Shrunk.live (s : Shrunk h h') (hr : h'.Live r) : h.Live r := by
  have hmap := s.contents r hr
  intro hnone
  rw [hnone] at hmap
  exact hr (Option.map_eq_none_iff.mp hmap)

lemma Shrunk.trans {h'' : Heap γ} (s : Shrunk h h') (s' : Shrunk h' h'') : Shrunk h h'' :=
  ⟨s'.next.trans s.next, fun r hr => (s'.contents r hr).trans (s.contents r (s'.live hr))⟩

lemma SameContents.shrunk (s : SameContents h h') : Shrunk h h' := ⟨s.next, fun r _ => s.contents r⟩

lemma Shrunk.refs (s : Shrunk h h') (hr : h'.Live r) : h'.refs children r = h.refs children r := by
  rw [refs_eq, s.contents r hr, refs_eq]

lemma refs_dead (hr : ¬h.Live r) : h.refs children r = [] := by
  rw [Heap.refs, not_not.mp hr]
  rfl

lemma Shrunk.ranked (s : Shrunk h h') {rank : ℕ → ℕ} (hr : Ranked children h rank) : Ranked children h' rank := by
  intro r x hx
  by_cases hlive : h'.Live r
  · rw [s.refs hlive] at hx
    exact hr r x hx
  · rw [refs_dead hlive] at hx
    cases hx

lemma Shrunk.fresh (s : Shrunk h h') (hf : Fresh h) : Fresh h' := by
  intro r hr
  rw [s.next] at hr
  by_contra hlive
  exact s.live hlive (hf r hr)

/-- Every object but those that are being released has a holder. -/
structure Held (children : γ → List ℕ) (h : Heap γ) (D : ℕ → ℤ) (rank : ℕ → ℕ) (S : ℕ → Prop) : Prop where
  owed : Owed children h D
  ranked : Ranked children h rank
  fresh : Fresh h
  nonneg : ∀ x, 0 ≤ h.count x
  pos : ∀ x, h.Live x → ¬S x → 1 ≤ h.count x

section Release

variable {rank : ℕ → ℕ} {depth : ℕ} {n : ℤ} {S : ℕ → Prop}

lemma inflow_nonneg (children : γ → List ℕ) (hnonneg : ∀ x, 0 ≤ h.count x) (x : ℕ) : 0 ≤ h.inflow children x :=
  Finset.sum_nonneg fun r _ => mul_nonneg (Int.natCast_nonneg _) (hnonneg r)

lemma live_of_count (hr : 1 ≤ h.count r) : h.Live r := by
  intro hnone
  rw [Heap.count, hnone] at hr
  simp at hr

lemma Held.live (hh : Held children h D rank S) (hr : 1 ≤ D r) : h.Live r := by
  apply live_of_count
  rw [hh.owed r]
  have hin := inflow_nonneg children hh.nonneg r
  omega

/-- What releasing does: the rest has the holders that it should have, and what is not below the object stays. -/
structure Released (children : γ → List ℕ) (h h' : Heap γ) (D : ℕ → ℤ) (rank : ℕ → ℕ) (S : ℕ → Prop) (bound : ℕ) :
    Prop where
  held : Held children h' D rank S
  shrunk : Shrunk h h'
  frame : ∀ x, bound ≤ rank x → h'.cells x = h.cells x

lemma ensures_releaseAll {bound : ℕ} {xs : List ℕ} (hn : 1 ≤ n)
    (hstep : ∀ h D, ∀ x ∈ xs, (∀ y, 0 ≤ D y) → Held children h (fun y => D y + if y = x then n else 0) rank S →
      Ensures (releaseByCount children depth h x n) fun h' => Released children h h' D rank S bound)
    (hD : ∀ y, 0 ≤ D y) (hh : Held children h (fun y => D y + n * xs.count y) rank S) :
    Ensures (xs.foldlM (fun h x => releaseByCount children depth h x n) h) fun h' =>
      Released children h h' D rank S bound := by
  induction xs generalizing h with
  | nil =>
    refine ensures_pure ⟨⟨hh.owed.congr fun y => ?_, hh.ranked, hh.fresh, hh.nonneg, hh.pos⟩, Shrunk.refl h,
      fun _ _ => rfl⟩
    rw [List.count_nil, Nat.cast_zero, mul_zero, add_zero]
  | cons x xs ih =>
    rw [List.foldlM_cons]
    have hsplit : ∀ y, D y + n * (x :: xs).count y = D y + n * xs.count y + if y = x then n else 0 := by
      intro y
      rw [List.count_cons]
      by_cases hyx : y = x
      · subst hyx
        simp only [if_true, beq_self_eq_true]
        push_cast
        ring
      · have hxy : ¬(x == y) = true := fun heq => hyx (eq_of_beq heq).symm
        rw [if_neg hyx, if_neg hxy]
        push_cast
        ring
    have hfirst : Held children h (fun y => D y + n * xs.count y + if y = x then n else 0) rank S :=
      ⟨hh.owed.congr hsplit, hh.ranked, hh.fresh, hh.nonneg, hh.pos⟩
    have hnonneg : ∀ y, 0 ≤ D y + n * xs.count y := by
      intro y
      have hy := hD y
      have hmul : 0 ≤ n * (xs.count y : ℤ) := mul_nonneg (by omega) (Int.natCast_nonneg _)
      omega
    refine Ensures.bind (hstep h _ x List.mem_cons_self hnonneg hfirst) fun u hu => ?_
    refine (ih (fun h D y hy => hstep h D y (List.mem_cons_of_mem x hy)) hu.held).imp fun v hv => ?_
    exact ⟨hv.held, hu.shrunk.trans hv.shrunk, fun y hy => (hv.frame y hy).trans (hu.frame y hy)⟩

lemma Released.mono {bound bound' : ℕ} (hle : bound ≤ bound') (h₁ : Released children h h' D rank S bound) :
    Released children h h' D rank S bound' :=
  ⟨h₁.held, h₁.shrunk, fun x hx => h₁.frame x (hle.trans hx)⟩

lemma shrunk_free (h : Heap γ) (r : ℕ) : Shrunk h (h.put r none) := by
  refine ⟨rfl, fun x hx => ?_⟩
  rw [Heap.Live, cells_put] at hx
  rw [cells_put]
  split at hx
  · exact absurd rfl hx
  · next hne => rw [if_neg hne]

lemma Held.free {S' : ℕ → Prop} (hh : Held children h D rank S') (hS : ∀ x, x ≠ r → S' x → S x) (hr : h.Live r)
    (hcount : h.count r = 0) : Held children (h.put r none) D rank S := by
  refine ⟨fun x => ?_, (shrunk_free h r).ranked hh.ranked, (shrunk_free h r).fresh hh.fresh, fun x => ?_,
    fun x hx hSx => ?_⟩
  · have hx := hh.owed x
    rw [inflow_put (hh.fresh.lt hr), hcount, count_put]
    simp only [Option.map_none, Option.getD_none, mul_zero, sub_zero, add_zero]
    split
    · next hxr => rw [← hx, hxr, hcount]
    · exact hx
  · rw [count_put]
    split
    · exact le_refl _
    · exact hh.nonneg x
  · rw [Heap.Live, cells_put] at hx
    split at hx
    · exact absurd rfl hx
    · next hne =>
      rw [count_put, if_neg hne]
      exact hh.pos x hx fun hS' => hSx (hS x hne hS')

lemma ensures_release (hn : 1 ≤ n) (hdepth : rank r < depth) (hD : ∀ y, 0 ≤ D y)
    (hh : Held children h (fun y => D y + if y = r then n else 0) rank S) :
    Ensures (releaseByCount children depth h r n) fun h' => Released children h h' D rank S (rank r + 1) := by
  induction depth generalizing h D r S with
  | zero => omega
  | succ depth ih =>
    have hcount : n ≤ h.count r := by
      have hr := hh.owed r
      have hin := inflow_nonneg children hh.nonneg r
      have hDr := hD r
      rw [if_pos rfl] at hr
      omega
    obtain ⟨cell, hcell⟩ := Option.ne_none_iff_exists'.mp (live_of_count (hn.trans hcount))
    have hput := sameContents_put hcell (cell.count - n)
    have hcell' : cell.count = h.count r := (count_of hcell).symm
    rw [releaseByCount, hcell, Option.bind_some]
    -- While its own references are being released the object may be without holders.
    have hdone : Held children (h.put r (some { cell with count := cell.count - n }))
        (fun y => D y + n * (children cell.content).count y) rank fun x => S x ∨ x = r := by
      refine ⟨(hh.owed.setCount hh.fresh hcell (-n)).congr fun y => ?_, hput.ranked hh.ranked, hput.fresh hh.fresh,
        fun x => ?_, fun x hx hSx => ?_⟩
      · split
        · ring
        · ring
      · rw [count_put]
        split
        · change 0 ≤ cell.count - n
          omega
        · exact hh.nonneg x
      · rw [not_or] at hSx
        rw [count_put, if_neg hSx.2]
        exact hh.pos x ((hput.live x).mp hx) hSx.1
    have hrefs : ∀ x ∈ children cell.content, rank x + 1 ≤ rank r := by
      intro x hx
      refine hh.ranked r x ?_
      rw [refs_of hcell]
      exact hx
    refine Ensures.bind (ensures_releaseAll hn (fun h D x hx hD hh =>
      (ih (Nat.lt_of_lt_of_le (hrefs x hx) (by omega)) hD hh).imp fun h' hr => hr.mono (hrefs x hx)) hD hdone)
      fun u hu => ?_
    have hur : u.cells r = some { cell with count := cell.count - n } := by
      rw [hu.frame r (le_refl _), cells_put, if_pos rfl]
    have hucount : u.count r = cell.count - n := count_of hur
    have hframe : ∀ x, rank r + 1 ≤ rank x → u.cells x = h.cells x := by
      intro x hx
      rw [hu.frame x (by omega), cells_put, if_neg]
      rintro rfl
      omega
    rw [hur, Option.map_some]
    apply ensures_some
    split
    · next hlt =>
      have hlive : u.Live r := by
        rw [Heap.Live, hur]
        exact Option.some_ne_none _
      have hnonneg := hu.held.nonneg r
      refine ⟨hu.held.free (fun x hne hx => hx.resolve_right hne) hlive ?_,
        (hput.shrunk.trans hu.shrunk).trans (shrunk_free u r), fun x hx => ?_⟩
      · rw [hucount] at hnonneg ⊢
        dsimp only at hlt
        omega
      · rw [cells_put, if_neg]
        · exact hframe x hx
        · rintro rfl
          omega
    · next hge =>
      refine ⟨⟨hu.held.owed, hu.held.ranked, hu.held.fresh, hu.held.nonneg, fun x hx hSx => ?_⟩,
        hput.shrunk.trans hu.shrunk, hframe⟩
      by_cases hxr : x = r
      · rw [hxr, hucount]
        dsimp only at hge
        omega
      · exact hu.held.pos x hx fun h => h.elim hSx hxr

end Release

/-! Sound heaps. -/

/-- Every object has a holder, the holders of each are its owners and the containers that hold it, and no container
holds itself. -/
structure Sound (children : γ → List ℕ) (h : Heap γ) (own : ℕ → ℤ) : Prop where
  owed : Owed children h own
  owned : ∀ x, 0 ≤ own x
  fresh : Fresh h
  nonneg : ∀ x, 0 ≤ h.count x
  pos : ∀ x, h.Live x → 1 ≤ h.count x
  acyclic : ∃ rank, Ranked children h rank

def Edge (children : γ → List ℕ) (h : Heap γ) (r x : ℕ) : Prop := x ∈ h.refs children r

def Reaches (children : γ → List ℕ) (h : Heap γ) : ℕ → ℕ → Prop := ReflTransGen (Edge children h)

section Sound

variable {own : ℕ → ℤ} {rank : ℕ → ℕ}

lemma live_of_refs (hx : x ∈ h.refs children r) : h.Live r := by
  by_contra hr
  rw [refs_dead hr] at hx
  cases hx

lemma le_inflow (children : γ → List ℕ) (hf : Fresh h) (hnonneg : ∀ x, 0 ≤ h.count x) (hr : h.Live r) (x : ℕ) :
    ((h.refs children r).count x : ℤ) * h.count r ≤ h.inflow children x := by
  refine Finset.single_le_sum (f := fun r => ((h.refs children r).count x : ℤ) * h.count r) (fun a _ => ?_)
    (Finset.mem_range.mpr (hf.lt hr))
  exact mul_nonneg (Int.natCast_nonneg _) (hnonneg a)

lemma Sound.covered (hs : Sound children h own) (r x : ℕ) : ((h.refs children r).count x : ℤ) * h.count r ≤ h.count x := by
  have hx := hs.owed x
  have hown := hs.owned x
  by_cases hr : h.Live r
  · have hle := le_inflow children hs.fresh hs.nonneg hr x
    omega
  · rw [refs_dead hr, List.count_nil, Nat.cast_zero, zero_mul]
    exact hs.nonneg x

lemma Sound.closed (hs : Sound children h own) : Closed children h := by
  intro r x hx
  have hcover := hs.covered r x
  have hpos := hs.pos r (live_of_refs hx)
  have hcount : 1 ≤ ((h.refs children r).count x : ℤ) := by
    have := List.count_pos_iff.mpr hx
    omega
  exact live_of_count (hpos.trans ((le_mul_of_one_le_left (by omega) hcount).trans hcover))

lemma Sound.held (hs : Sound children h own) (hrank : Ranked children h rank) :
    Held children h own rank fun _ => False :=
  ⟨hs.owed, hrank, hs.fresh, hs.nonneg, fun x hx _ => hs.pos x hx⟩

lemma Held.sound (hh : Held children h own rank fun _ => False) (hown : ∀ x, 0 ≤ own x) : Sound children h own :=
  ⟨hh.owed, hown, hh.fresh, hh.nonneg, fun x hx => hh.pos x hx id, rank, hh.ranked⟩

/-! Owners. -/

lemma Sound.retain {n : ℤ} (hs : Sound children h own) (hn : 0 ≤ n) (hrank : Ranked children h rank)
    (hle : rank r ≤ h.next) (hr : h.Live r) :
    Ensures (CountedHeap.retain children h r n) fun h' =>
      Sound children h' (fun x => own x + if x = r then n else 0) ∧ SameContents h h' ∧
        ∀ x, rank r < rank x → h'.cells x = h.cells x := by
  refine (ensures_retain hn (Nat.lt_succ_of_le hle) hrank hs.closed hs.fresh hs.owed hr).imp fun h' hh => ?_
  refine ⟨⟨hh.owed, fun x => ?_, hh.same.fresh hs.fresh, fun x => (hs.nonneg x).trans (hh.grown x), fun x hx => ?_,
    rank, hh.same.ranked hrank⟩, hh.same, hh.frame⟩
  · have hx := hs.owned x
    split
    · omega
    · omega
  · exact (hs.pos x ((hh.same.live x).mp hx)).trans (hh.grown x)

lemma Held.release {n : ℤ} (hh : Held children h (fun x => own x + if x = r then n else 0) rank fun _ => False)
    (hown : ∀ x, 0 ≤ own x) (hn : 1 ≤ n) (hle : rank r ≤ h.next) :
    Ensures (CountedHeap.release children h r n) fun h' =>
      Held children h' own rank (fun _ => False) ∧ Shrunk h h' ∧ ∀ x, rank r < rank x → h'.cells x = h.cells x :=
  (ensures_release hn (Nat.lt_succ_of_le hle) hown hh).imp fun _ hr => ⟨hr.held, hr.shrunk, hr.frame⟩

/-! Other contents. -/

lemma Owed.setContent (hD : Owed children h D) (hf : Fresh h) (hr : h.cells r = some cell) (content : γ) :
    Owed children (h.put r (some { cell with content := content })) fun x =>
      D x + cell.count * ((children cell.content).count x - (children content).count x) := by
  have hlt : r < h.next := hf.lt (by rw [Heap.Live, hr]; exact Option.some_ne_none _)
  intro x
  rw [count_put, inflow_put hlt, refs_of hr, count_of hr]
  simp only [Option.map_some, Option.getD_some]
  have hx := hD x
  split
  · next hxr =>
    subst hxr
    rw [count_of hr] at hx
    rw [hx]
    ring
  · rw [hx]
    ring

lemma fresh_put (hf : Fresh h) (hr : h.Live r) (cell : Option (Cell γ)) : Fresh (h.put r cell) := by
  intro x hx
  rw [cells_put, if_neg]
  · exact hf x hx
  · rintro rfl
    exact hr (hf x hx)

lemma count_setContent (hr : h.cells r = some cell) (content : γ) (x : ℕ) :
    (h.put r (some { cell with content := content })).count x = h.count x := by
  rw [count_put]
  split
  · next hx => rw [hx, count_of hr, Option.map_some, Option.getD_some]
  · rfl

lemma live_setContent (hr : h.cells r = some cell) (content : γ) (x : ℕ) :
    (h.put r (some { cell with content := content })).Live x ↔ h.Live x := by
  rw [Heap.Live, cells_put, Heap.Live]
  split
  · next hx =>
    rw [hx, hr]
    exact iff_of_true (Option.some_ne_none _) (Option.some_ne_none _)
  · rfl

lemma Ranked.setContent (hrank : Ranked children h rank) (content : γ)
    (hchildren : ∀ x ∈ children content, rank x < rank r) (count : ℤ) :
    Ranked children (h.put r (some ⟨content, count⟩)) rank := by
  intro c x hx
  rw [refs_put] at hx
  split at hx
  · next hc =>
    rw [hc]
    exact hchildren x hx
  · exact hrank c x hx

lemma Held.setContent (hh : Held children h D rank fun _ => False) (hr : h.cells r = some cell) (content : γ)
    (hchildren : ∀ x ∈ children content, rank x < rank r) :
    Held children (h.put r (some { cell with content := content }))
      (fun x => D x + cell.count * ((children cell.content).count x - (children content).count x)) rank
      fun _ => False := by
  have hlive : h.Live r := by
    rw [Heap.Live, hr]
    exact Option.some_ne_none _
  refine ⟨hh.owed.setContent hh.fresh hr content, hh.ranked.setContent content hchildren _, fresh_put hh.fresh hlive _,
    fun x => ?_, fun x hx hS => ?_⟩
  · rw [count_setContent hr]
    exact hh.nonneg x
  · rw [count_setContent hr]
    exact hh.pos x ((live_setContent hr content x).mp hx) hS

/-! A new object. -/

lemma cells_alloc (h : Heap γ) (content : γ) (x : ℕ) :
    (h.alloc content).cells x = if x = h.next then some ⟨content, 1⟩ else h.cells x := by
  rw [Heap.alloc]
  exact cells_put h h.next _ x

lemma refs_alloc (h : Heap γ) (content : γ) (x : ℕ) :
    (h.alloc content).refs children x = if x = h.next then children content else h.refs children x := by
  rw [Heap.refs, cells_alloc]
  split
  · rfl
  · rfl

lemma count_alloc (h : Heap γ) (content : γ) (x : ℕ) :
    (h.alloc content).count x = if x = h.next then 1 else h.count x := by
  rw [Heap.count, cells_alloc]
  split
  · rfl
  · rfl

lemma inflow_alloc (h : Heap γ) (content : γ) (x : ℕ) :
    (h.alloc content).inflow children x = h.inflow children x + (children content).count x := by
  rw [Heap.inflow]
  change ∑ r ∈ Finset.range (h.next + 1), _ = _
  rw [Finset.sum_range_succ, refs_alloc, count_alloc, if_pos rfl, if_pos rfl, mul_one, Heap.inflow]
  refine congrArg (· + _) (Finset.sum_congr rfl fun r hr => ?_)
  have hne : r ≠ h.next := (Finset.mem_range.mp hr).ne
  rw [refs_alloc, count_alloc, if_neg hne, if_neg hne]

lemma Owed.alloc (hD : Owed children h D) (hf : Fresh h) (content : γ) :
    Owed children (h.alloc content) fun x => D x + (if x = h.next then 1 else 0) - (children content).count x := by
  intro x
  have hx := hD x
  rw [count_alloc, inflow_alloc]
  dsimp only
  by_cases hxn : x = h.next
  · have hzero : h.count x = 0 := by
      rw [Heap.count, hf x (le_of_eq hxn.symm)]
      rfl
    rw [hzero] at hx
    rw [if_pos hxn, if_pos hxn]
    omega
  · rw [if_neg hxn, if_neg hxn, hx]
    ring

end Sound

end Xperimentum.Lib.CountedHeap
