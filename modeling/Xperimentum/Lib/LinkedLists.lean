import Mathlib.Tactic

/-! Linked lists as the addresses in the order in which links in a memory lead from one to the next. -/

namespace Xperimentum.Lib.LinkedLists

variable {A : Type*} {next prev next' prev' : A → Option A} {p q : Option A} {l m : List A} {a : A}

/-- A doubly linked list between the neighbours `p` and `q`. -/
@[grind =] def Segment (next prev : A → Option A) : Option A → List A → Option A → Prop
  | _, [], _ => True
  | p, a :: l, q => prev a = p ∧ next a = l.head?.or q ∧ Segment next prev (some a) l q

/-- A singly linked list in front of `q`. -/
@[grind =] def Chain (next : A → Option A) : List A → Option A → Prop
  | [], _ => True
  | a :: l, q => next a = l.head?.or q ∧ Chain next l q

lemma segment_append : Segment next prev p (l ++ m) q ↔
    Segment next prev p l (m.head?.or q) ∧ Segment next prev (l.getLast?.or p) m q := by
  induction l generalizing p with
  | nil => simp [Segment]
  | cons a l ih =>
    have hlast : ((a :: l).getLast?).or p = l.getLast?.or (some a) := by
      rw [List.getLast?_cons]
      cases l.getLast? <;> simp
    rw [List.cons_append, Segment, Segment, ih, hlast, List.head?_append, Option.or_assoc]
    tauto

lemma Segment.congr (h : Segment next prev p l q) (hnext : ∀ a ∈ l, next' a = next a)
    (hprev : ∀ a ∈ l, prev' a = prev a) : Segment next' prev' p l q := by
  induction l generalizing p with
  | nil => trivial
  | cons a l ih =>
    refine ⟨(hprev a List.mem_cons_self).trans h.1, (hnext a List.mem_cons_self).trans h.2.1, ?_⟩
    exact ih h.2.2 (fun b hb => hnext b (List.mem_cons_of_mem a hb)) fun b hb => hprev b (List.mem_cons_of_mem a hb)

lemma Segment.next_mem (h : Segment next prev p l none) (ha : a ∈ l) {b : A} (hb : next a = some b) : b ∈ l := by
  induction l generalizing p with
  | nil => cases ha
  | cons c l ih =>
    rcases List.mem_cons.mp ha with rfl | ha
    · rw [h.2.1, Option.or_none] at hb
      exact List.mem_cons_of_mem _ (List.mem_of_head? hb)
    · exact List.mem_cons_of_mem _ (ih h.2.2 ha)

lemma Segment.prev_mem (h : Segment next prev none l q) (ha : a ∈ l) {b : A} (hb : prev a = some b) : b ∈ l := by
  obtain ⟨front, back, rfl⟩ := List.append_of_mem ha
  have hback := (segment_append.mp h).2.1
  rw [hb, Option.or_none] at hback
  exact List.mem_append_left _ (List.mem_of_getLast? hback.symm)

lemma Chain.congr (h : Chain next l q) (hnext : ∀ a ∈ l, next' a = next a) : Chain next' l q := by
  induction l with
  | nil => trivial
  | cons a l ih =>
    refine ⟨(hnext a List.mem_cons_self).trans h.1, ih h.2 fun b hb => hnext b (List.mem_cons_of_mem a hb)⟩

lemma chain_append : Chain next (l ++ m) q ↔ Chain next l (m.head?.or q) ∧ Chain next m q := by
  induction l with
  | nil => simp [Chain]
  | cons a l ih => rw [List.cons_append, Chain, Chain, ih, List.head?_append, Option.or_assoc, and_assoc]

variable [DecidableEq A]

/-- The link of a neighbour, if there is one, is changed. -/
def relink (link : A → Option A) (neighbour target : Option A) (x : A) : Option A :=
  if neighbour = some x then target else link x

lemma relink_none (link : A → Option A) (target : Option A) : relink link none target = link := by
  funext x
  simp [relink]

lemma relink_of_ne {link : A → Option A} {target : Option A} {x : A} (h : p ≠ some x) : relink link p target x = link x :=
  if_neg h

lemma Segment.relink_next (h : Segment next prev p l q) (hn : l.Nodup) (target : Option A) :
    Segment (relink next l.getLast? target) prev p l target := by
  induction l using List.reverseRecOn generalizing q with
  | nil => trivial
  | append_singleton l a _ =>
    obtain ⟨hl, ha, -, -⟩ := segment_append.mp h
    have hnot : a ∉ l := fun hm => (List.nodup_append'.mp hn).2.2 hm List.mem_cons_self
    rw [List.getLast?_concat, segment_append]
    refine ⟨hl.congr (fun b hb => relink_of_ne ?_) fun _ _ => rfl, ha, by simp [relink], trivial⟩
    rintro heq
    exact hnot (Option.some.inj heq ▸ hb)

lemma Segment.relink_prev (h : Segment next prev p l q) (hn : l.Nodup) (target : Option A) :
    Segment next (relink prev l.head? target) target l q := by
  cases l with
  | nil => trivial
  | cons a l =>
    refine ⟨by simp [relink], h.2.1, h.2.2.congr (fun _ _ => rfl) fun b hb => relink_of_ne ?_⟩
    rintro heq
    exact (List.nodup_cons.mp hn).1 (Option.some.inj heq ▸ hb)

lemma Chain.relink (h : Chain next l q) (hn : l.Nodup) (target : Option A) :
    Chain (relink next l.getLast? target) l target := by
  induction l using List.reverseRecOn generalizing q with
  | nil => trivial
  | append_singleton l a _ =>
    obtain ⟨hl, ha⟩ := chain_append.mp h
    have hnot : a ∉ l := fun hm => (List.nodup_append'.mp hn).2.2 hm List.mem_cons_self
    rw [List.getLast?_concat, chain_append]
    refine ⟨hl.congr fun b hb => relink_of_ne ?_, by simp [LinkedLists.relink], trivial⟩
    intro heq
    exact hnot (Option.some.inj heq ▸ hb)

/-- An element is put at the end. -/
theorem Chain.concat (h : Chain next l none) (hn : l.Nodup) (ha : a ∉ l) (hend : next a = none) :
    Chain (LinkedLists.relink next l.getLast? (some a)) (l ++ [a]) none := by
  refine chain_append.mpr ⟨h.relink hn (some a), ?_, trivial⟩
  rw [relink_of_ne fun heq => ha (List.mem_of_getLast? heq), hend]
  rfl

/-- An element is taken out by its two neighbours' links. -/
theorem Segment.unlink (h : Segment next prev none (l ++ a :: m) none) (hn : (l ++ a :: m).Nodup) :
    Segment (relink next (prev a) (next a)) (relink prev (next a) (prev a)) none (l ++ m) none := by
  obtain ⟨hl, ha, hnext, hm⟩ := segment_append.mp h
  obtain ⟨hln, hmn, hdis⟩ := List.nodup_append'.mp hn
  rw [Option.or_none] at ha hnext
  have hleft := hl.relink_next hln (next a)
  have hright := hm.relink_prev (List.nodup_cons.mp hmn).2 (prev a)
  rw [segment_append, ha, hnext, Option.or_none, Option.or_none]
  rw [hnext] at hleft
  rw [ha] at hright
  refine ⟨hleft.congr (fun _ _ => rfl) fun b hb => relink_of_ne ?_, hright.congr (fun b hb => relink_of_ne ?_) fun _ _ => rfl⟩
  · intro heq
    exact hdis hb (List.mem_cons_of_mem _ (List.mem_of_head? heq))
  · intro heq
    exact hdis (List.mem_of_getLast? heq) (List.mem_cons_of_mem _ hb)

/-- An element is put in front. -/
theorem Segment.push (h : Segment next prev none l none) (hn : l.Nodup) (ha : a ∉ l) :
    Segment (Function.update next a l.head?) (relink (Function.update prev a none) l.head? (some a)) none (a :: l)
      none := by
  have hne : l.head? ≠ some a := fun heq => ha (List.mem_of_head? heq)
  refine ⟨by rw [relink_of_ne hne, Function.update_self], by rw [Function.update_self, Option.or_none], ?_⟩
  have hsame : ∀ b ∈ l, b ≠ a := fun b hb heq => ha (heq ▸ hb)
  have hcopy : Segment (Function.update next a l.head?) (Function.update prev a none) none l none :=
    h.congr (fun b hb => Function.update_of_ne (hsame b hb) _ _) fun b hb => Function.update_of_ne (hsame b hb) _ _
  exact hcopy.relink_prev hn (some a)

end Xperimentum.Lib.LinkedLists
