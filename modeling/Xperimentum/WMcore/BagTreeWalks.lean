import Xperimentum.WMcore.BagTreeDeletion

/-! The loops over the nodes of a bag: searches, walks in both directions, the shift of the indexes behind a node and
the calls of the destructor. -/

namespace Xperimentum.WMcore.BagTree

open Lib.Int32 Lib.LinkedTrees Lib.Partial Lib.RedBlack

variable {α : Type} {bag bag' : Bag α} {T t : Shape} {s : Side} {a p n : ℕ} {pre post : List ℕ}

lemma Sound.congr (h : Sound bag T) (hlinks : bag'.links = bag.links) (hcolor : bag'.color = bag.color)
    (hnext : bag'.next = bag.next) : Sound bag' T := by
  obtain ⟨⟨hlinked, hroot, hsentinel⟩, hbelow, hpos⟩ := h
  refine ⟨⟨?_, ?_, ?_⟩, ?_, ?_⟩
  · rwa [hlinks]
  · rwa [hcolor]
  · rwa [hcolor]
  · rwa [hnext]
  · rwa [hnext]

section Walks

lemma Sound.nodup (h : Sound bag T) : T.addrs.Nodup := (List.nodup_append.mp h.woven.linked.nodup).1

lemma nodup_order (h : T.addrs.Nodup) (s : Side) : (order s T.addrs).Nodup := by
  cases s
  · exact List.nodup_reverse.mpr h
  · exact h

lemma mem_order (s : Side) (l : List ℕ) : a ∈ order s l ↔ a ∈ l := by
  cases s
  · exact List.mem_reverse
  · rfl

lemma length_order (s : Side) (l : List ℕ) : (order s l).length = l.length := by
  cases s
  · exact List.length_reverse
  · rfl

/-- A step of a walk goes from a node to the next. -/
lemma neighbour_eq (h : Sound bag T) (hsplit : order s T.addrs = pre ++ a :: post) :
    bag.links.neighbour s bag.fuel a = some (post.head?.getD nil) := by
  have hmem : a ∈ T.addrs := (mem_order s _).mp (by rw [hsplit]; exact List.mem_append_right _ List.mem_cons_self)
  obtain ⟨fs, l, r, hat, hplug⟩ := h.woven.linked.focus hmem
  rw [List.append_nil] at hat
  obtain ⟨x, y, hmk⟩ : ∃ x y, Shape.node a l r = .mk s a x y := by
    cases s
    · exact ⟨l, r, rfl⟩
    · exact ⟨r, l, rfl⟩
  rw [hmk] at hat hplug
  have haddrs := addrs_plugAll fs (.mk s a x y)
  obtain ⟨front, hfront⟩ := order_inorder s fs (.mk s a x y)
  rw [← haddrs, hplug, hsplit, order_mk] at hfront
  have hnodup : (pre ++ a :: post).Nodup := hsplit ▸ nodup_order h.nodup s
  have hpre : a ∉ pre := fun hmem => (List.nodup_append.mp hnodup).2.2 a hmem a List.mem_cons_self rfl
  have hpost : a ∉ post := (List.nodup_cons.mp (List.nodup_append.mp hnodup).2.1).1
  have hparts : pre ++ a :: post = (front ++ order s y.addrs) ++ a :: (order s x.addrs ++ beyond s fs) := by
    rw [hfront]
    simp only [List.append_assoc, List.cons_append]
  obtain ⟨-, -, rfl⟩ : pre = _ ∧ a = a ∧ post = _ := by
    exact (List.append_cons_inj_of_notMem hpre hpost).mp hparts
  have hlength := h.length_lt
  have hperm := (inorder_perm fs (Shape.mk s a x y).addrs).length_eq
  rw [← haddrs, hplug, List.length_append, (addrs_mk s a x y).length_eq, List.length_cons, List.length_append] at hperm
  have hfs := length_le_ctxAddrs fs
  refine hat.neighbour ?_ ?_ <;> rw [Bag.fuel] <;> omega

lemma treeSuccessor_eq (h : Sound bag T) (hsplit : T.addrs = pre ++ a :: post) :
    bag.treeSuccessor a = some (post.head?.getD nil) := neighbour_eq (s := .right) h hsplit

lemma walk_eq (h : Sound bag T) (hsplit : order s T.addrs = pre ++ post) (hn : post.length < n) :
    bag.walk s n (post.head?.getD nil) = some post := by
  induction post generalizing pre n with
  | nil =>
    obtain ⟨n, rfl⟩ : ∃ m, n = m + 1 := ⟨n - 1, by omega⟩
    rfl
  | cons b post ih =>
    obtain ⟨n, rfl⟩ : ∃ m, n = m + 1 := ⟨n - 1, by omega⟩
    have hmem : b ∈ T.addrs := (mem_order s _).mp (by rw [hsplit]; exact List.mem_append_right _ List.mem_cons_self)
    have hb : b ≠ nil := h.woven.linked.tree.ne_zero hmem
    have hsplit' : order s T.addrs = (pre ++ [b]) ++ post := by rw [hsplit, List.append_cons]
    rw [List.head?_cons, Option.getD_some, Bag.walk, if_neg hb, neighbour_eq h hsplit]
    change (bag.walk s n (post.head?.getD nil) >>= _) = _
    rw [List.length_cons] at hn
    rw [ih hsplit' (by omega)]
    rfl

lemma traversal_eq (h : Sound bag T) (s : Side) :
    (bag.links.extreme s.other bag.fuel bag.links.root >>= bag.walk s bag.fuel) = some (order s T.addrs) := by
  have hroot : bag.links.root = T.addr := h.woven.linked.ctx
  have hlength := h.length_lt
  have hall : order s T.addrs = [] ++ order s T.addrs := rfl
  have hwalk := walk_eq (n := bag.fuel) h hall (by rw [length_order, Bag.fuel]; omega)
  rw [hroot]
  cases T with
  | nil =>
    have hextreme : bag.links.extreme s.other bag.fuel (Shape.addr .nil) = some nil := by
      rw [Bag.fuel, Links.extreme]
      exact if_pos (h.woven.linked.leaf s.other)
    rw [hextreme]
    cases s <;> exact hwalk
  | node a l r =>
    obtain ⟨gs, b, x, rest, -, -, hfirst, hextreme⟩ := exists_extreme h.woven.linked Shape.noConfusion s.other
    have hother : s.other.other = s := by cases s <;> rfl
    rw [hother] at hfirst
    rw [hextreme _ (by rw [Bag.fuel]; omega)]
    rw [hfirst] at hwalk ⊢
    exact hwalk

end Walks

section Shifts

def Bag.shifted (i : ℤ) (nodes : List ℕ) (self : Bag α) : Bag α :=
  { self with index := fun c => if c ∈ nodes then wrap32 (self.index c + i) else self.index c }

lemma shiftBehind_shifts (i : ℤ) (h : Sound bag T) (hsplit : T.addrs = pre ++ a :: post) (hn : post.length < n) :
    Bag.shiftBehind i n a bag = some (bag.shifted i post) := by
  induction post generalizing bag pre a n with
  | nil =>
    obtain ⟨n, rfl⟩ : ∃ m, n = m + 1 := ⟨n - 1, by omega⟩
    rw [Bag.shiftBehind, treeSuccessor_eq h hsplit]
    simp only [Bag.shifted, List.not_mem_nil, if_false]
    rfl
  | cons b post ih =>
    obtain ⟨n, rfl⟩ : ∃ m, n = m + 1 := ⟨n - 1, by omega⟩
    have hmem : b ∈ T.addrs := by
      rw [hsplit]
      exact List.mem_append_right _ (List.mem_cons_of_mem a List.mem_cons_self)
    have hb : b ≠ nil := h.woven.linked.tree.ne_zero hmem
    have hsplit' : T.addrs = (pre ++ [a]) ++ b :: post := by
      rw [hsplit]
      simp only [List.append_assoc, List.cons_append, List.nil_append]
    have hnodup := h.nodup
    rw [hsplit'] at hnodup
    have hpost : b ∉ post := (List.nodup_cons.mp (List.nodup_append.mp hnodup).2.1).1
    let bag₁ : Bag α := { bag with index := Function.update bag.index b (wrap32 (bag.index b + i)) }
    have hsound : Sound bag₁ T := h.congr rfl rfl rfl
    rw [Bag.shiftBehind, treeSuccessor_eq h hsplit]
    change (if b ≠ nil then Bag.shiftBehind i n b bag₁ else pure bag) = _
    rw [if_pos hb, ih hsound hsplit' (by rw [List.length_cons] at hn; omega)]
    refine congrArg some (congrArg (fun f => ({ bag with index := f } : Bag α)) (funext fun c => ?_))
    simp only [bag₁, Function.update_apply, List.mem_cons]
    by_cases hc : c = b
    · subst hc
      rw [if_neg hpost, if_pos rfl, if_pos (.inl rfl)]
    · by_cases hcpost : c ∈ post
      · rw [if_pos hcpost, if_neg hc, if_pos (.inr hcpost)]
      · rw [if_neg hcpost, if_neg hc, if_neg (not_or.mpr ⟨hc, hcpost⟩)]

end Shifts

section Searches

lemma length_node (a : ℕ) (l r : Shape) :
    (Shape.node a l r).addrs.length = l.addrs.length + r.addrs.length + 1 := by
  rw [Shape.addrs, List.length_append, List.length_cons]
  omega

/-- A search ends at a node of the index; in a bag in order it misses none. -/
lemma treeSearch_finds (i : ℤ) (hl : Linked bag.links p t) (hn : t.addrs.length < n) :
    Ensures (bag.treeSearch i n t.addr) fun a => (a ∈ t.addrs ∧ bag.index a = i) ∨ a = nil ∧
      (t.addrs.Pairwise (fun b c => bag.index b < bag.index c) → ∀ c ∈ t.addrs, bag.index c ≠ i) := by
  induction t generalizing p n with
  | nil =>
    obtain ⟨n, rfl⟩ : ∃ m, n = m + 1 := ⟨n - 1, by omega⟩
    exact ensures_some (.inr ⟨rfl, fun _ c hc => by cases hc⟩)
  | node a l r ihl ihr =>
    obtain ⟨n, rfl⟩ : ∃ m, n = m + 1 := ⟨n - 1, by omega⟩
    obtain ⟨ha, -, hleft, hright, hlinkl, hlinkr⟩ := hl
    rw [length_node] at hn
    rw [Shape.addr, Bag.treeSearch]
    by_cases hi : bag.index a = i
    · rw [if_pos (.inr hi)]
      exact ensures_some (.inl ⟨List.mem_append_right _ List.mem_cons_self, hi⟩)
    rw [if_neg (not_or.mpr ⟨ha, hi⟩), Bag.left, Bag.right, hleft, hright]
    by_cases hlt : i < bag.index a
    · rw [if_pos hlt]
      refine (ihl hlinkl (by omega)).imp fun b hb => hb.imp (And.imp_left (List.mem_append_left _)) ?_
      rintro ⟨hb, hmiss⟩
      refine ⟨hb, fun hsorted c hc => ?_⟩
      obtain ⟨hsl, hsr, -⟩ := List.pairwise_append.mp hsorted
      rcases List.mem_append.mp hc with hc | hc
      · exact hmiss hsl c hc
      · rcases List.mem_cons.mp hc with rfl | hc
        · exact hi
        · exact (hlt.trans ((List.pairwise_cons.mp hsr).1 c hc)).ne'
    · rw [if_neg hlt]
      refine (ihr hlinkr (by omega)).imp fun b hb =>
        hb.imp (And.imp_left fun hmem => List.mem_append_right _ (List.mem_cons_of_mem a hmem)) ?_
      rintro ⟨hb, hmiss⟩
      refine ⟨hb, fun hsorted c hc => ?_⟩
      obtain ⟨-, hsr, hcross⟩ := List.pairwise_append.mp hsorted
      have hai : bag.index a < i := lt_of_le_of_ne (not_lt.mp hlt) hi
      rcases List.mem_append.mp hc with hc | hc
      · exact ((hcross c hc a List.mem_cons_self).trans hai).ne
      · rcases List.mem_cons.mp hc with rfl | hc
        · exact hi
        · exact hmiss (List.pairwise_cons.mp hsr).2 c hc

lemma search_finds (i : ℤ) (h : Sound bag T) :
    Ensures (bag.search i) fun a => (a ∈ T.addrs ∧ bag.index a = i) ∨ a = nil ∧
      (T.addrs.Pairwise (fun b c => bag.index b < bag.index c) → ∀ c ∈ T.addrs, bag.index c ≠ i) := by
  have hroot : bag.links.root = T.addr := h.woven.linked.ctx
  have hlength := h.length_lt
  rw [Bag.search, hroot]
  exact treeSearch_finds i h.woven.linked.tree (by rw [Bag.fuel]; omega)

lemma treeFind_finds [DecidableEq α] (item : Option α) (hl : Linked bag.links p t) (hn : t.addrs.length < n) :
    Ensures (bag.treeFind item n t.addr) fun a =>
      (a ∈ t.addrs ∧ bag.data a = item) ∨ a = nil ∧ ∀ c ∈ t.addrs, bag.data c ≠ item := by
  induction t generalizing p n with
  | nil =>
    obtain ⟨n, rfl⟩ : ∃ m, n = m + 1 := ⟨n - 1, by omega⟩
    exact ensures_some (.inr ⟨rfl, fun c hc => by cases hc⟩)
  | node a l r ihl ihr =>
    obtain ⟨n, rfl⟩ : ∃ m, n = m + 1 := ⟨n - 1, by omega⟩
    obtain ⟨ha, -, hleft, hright, hlinkl, hlinkr⟩ := hl
    rw [length_node] at hn
    rw [Shape.addr, Bag.treeFind]
    by_cases hitem : bag.data a = item
    · rw [if_pos (.inr hitem)]
      exact ensures_some (.inl ⟨List.mem_append_right _ List.mem_cons_self, hitem⟩)
    rw [if_neg (not_or.mpr ⟨ha, hitem⟩), Bag.left, Bag.right, hleft, hright]
    refine (ihl hlinkl (by omega)).bind fun b hb => ?_
    rcases hb with ⟨hmem, hb⟩ | ⟨rfl, hmissl⟩
    · rw [if_pos (hlinkl.ne_zero hmem)]
      exact ensures_pure (.inl ⟨List.mem_append_left _ hmem, hb⟩)
    rw [if_neg fun hne => hne rfl]
    refine (ihr hlinkr (by omega)).imp fun b hb =>
      hb.imp (And.imp_left fun hmem => List.mem_append_right _ (List.mem_cons_of_mem a hmem)) ?_
    rintro ⟨hb, hmissr⟩
    refine ⟨hb, fun c hc => ?_⟩
    rcases List.mem_append.mp hc with hc | hc
    · exact hmissl c hc
    · rcases List.mem_cons.mp hc with rfl | hc
      · exact hitem
      · exact hmissr c hc

end Searches

section Destruction

lemma deleteTree_destroys (hl : Linked bag.links p t) (hn : t.addrs.length < n) :
    Bag.deleteTree n t.addr bag =
      some { bag with destroyed := bag.destroyed ++ if bag.destructor then t.addrs.map bag.data else [] } := by
  induction t generalizing bag p n with
  | nil =>
    obtain ⟨n, rfl⟩ : ∃ m, n = m + 1 := ⟨n - 1, by omega⟩
    rw [Shape.addr, Bag.deleteTree, if_pos rfl, Shape.addrs, List.map_nil, ite_self, List.append_nil]
  | node a l r ihl ihr =>
    obtain ⟨n, rfl⟩ : ∃ m, n = m + 1 := ⟨n - 1, by omega⟩
    obtain ⟨ha, -, hleft, hright, hlinkl, hlinkr⟩ := hl
    rw [length_node] at hn
    rw [Shape.addr, Bag.deleteTree, if_neg ha, Bag.left, hleft, ihl hlinkl (by omega)]
    change Bag.deleteTree n (bag.links.child .right a) _ = _
    rw [hright]
    by_cases hd : bag.destructor = true
    · simp only [Bag.destroy, hd, if_true]
      rw [ihr (by exact hlinkr) (by omega)]
      simp only [if_true, Shape.addrs, List.map_append, List.map_cons, List.append_assoc, List.cons_append,
        List.nil_append]
    · simp only [Bag.destroy, if_neg hd, List.append_nil]
      rw [ihr hlinkr (by omega)]
      simp only [if_neg hd, List.append_nil]

end Destruction

end Xperimentum.WMcore.BagTree
