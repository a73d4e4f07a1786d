import Xperimentum.WMcore.BagTreeWalks

/-! What each call makes of the tree of a bag, and of the list of its items with their indexes. -/

namespace Xperimentum.WMcore.BagTree

open Lib.Int32 Lib.LinkedTrees Lib.Partial Lib.RedBlack

variable {α : Type} {bag bag' : Bag α} {T t : Shape} {a p n : ℕ} {i : ℤ} {item : Option α} {pre post : List ℕ}

abbrev Items (α : Type) := List (ℤ × Option α)

namespace Bag

def itemAt (self : Bag α) (a : ℕ) : ℤ × Option α := (self.index a, self.data a)

/-- The items as an iteration gives them. -/
def items (self : Bag α) : Items α := (self.forward.getD []).map self.itemAt

end Bag

section Trees

/-- The tree of the bag is red-black. -/
structure Tree (bag : Bag α) (T : Shape) : Prop where
  sound : Sound bag T
  redBlack : RedBlack bag.color T

lemma Tree.congr (h : Tree bag T) (hlinks : bag'.links = bag.links) (hcolor : bag'.color = bag.color)
    (hnext : bag'.next = bag.next) : Tree bag' T :=
  ⟨h.sound.congr hlinks hcolor hnext, hcolor ▸ h.redBlack⟩

lemma Tree.forward (h : Tree bag T) : bag.forward = some T.addrs := traversal_eq h.sound .right

lemma Tree.backward (h : Tree bag T) : bag.backward = some T.addrs.reverse := traversal_eq h.sound .left

lemma Tree.items (h : Tree bag T) : bag.items = T.addrs.map bag.itemAt := by
  rw [Bag.items, h.forward, Option.getD_some]

lemma tree_nil (hroot : bag.links.root = nil) (hleaf : ∀ s, bag.links.child s nil = nil)
    (hsentinel : bag.color nil ≠ .red) (hpos : 0 < bag.next) : Tree bag .nil :=
  ⟨⟨⟨⟨hroot, trivial, List.nodup_nil, hleaf⟩, id, hsentinel⟩, fun _ ha => absurd ha List.not_mem_nil, hpos⟩,
    ⟨⟨0, .nil⟩, id⟩⟩

lemma tree_create (destructor : Bool) : Tree (createTreeBag destructor : Bag α) .nil :=
  tree_nil rfl (fun _ => rfl) Color.noConfusion Nat.one_pos

/-- The destructor has not been called. -/
structure Quiet (bag bag' : Bag α) : Prop where
  destructor : bag'.destructor = bag.destructor
  destroyed : bag'.destroyed = bag.destroyed

lemma addNode_items (h : Tree bag T) (item : Option α) (i : ℤ) :
    Ensures (bag.addNode item i) fun bag' => ∃ T' pre post, Tree bag' T' ∧ T.addrs = pre ++ post ∧
      T'.addrs = pre ++ bag.next :: post ∧ bag'.itemAt bag.next = (i, item) ∧
      (∀ c ∈ T.addrs, bag'.itemAt c = bag.itemAt c) ∧ bag'.count = bag.count ∧ Quiet bag bag' ∧
      (T.addrs.Pairwise (fun b c => bag.index b ≤ bag.index c) →
        (∀ c ∈ pre, bag.index c < i) ∧ ∀ c ∈ post, i ≤ bag.index c) := by
  refine (addNode_settles h.sound item i).imp fun bag' hbag' => ?_
  obtain ⟨hsame, T', pre, post, hsound, haddrs, haddrs', hrb, hbounds⟩ := hbag'
  refine ⟨T', pre, post, ⟨hsound, hrb h.redBlack⟩, haddrs, haddrs', ?_, fun c hc => ?_, hsame.count,
    ⟨hsame.destructor, hsame.destroyed⟩, hbounds⟩
  · rw [Bag.itemAt, hsame.index, hsame.data]
    exact Prod.ext (Function.update_self _ _ _) (Function.update_self _ _ _)
  · have hne : c ≠ bag.next := (h.sound.below c hc).ne
    rw [Bag.itemAt, hsame.index, hsame.data]
    exact Prod.ext (Function.update_of_ne hne _ _) (Function.update_of_ne hne _ _)

lemma split_unique {pre' post' : List ℕ} (hnodup : (pre ++ a :: post).Nodup)
    (heq : pre ++ a :: post = pre' ++ a :: post') : pre = pre' ∧ post = post' := by
  have hpre : a ∉ pre := fun hmem => (List.nodup_append.mp hnodup).2.2 a hmem a List.mem_cons_self rfl
  have hpost : a ∉ post := (List.nodup_cons.mp (List.nodup_append.mp hnodup).2.1).1
  obtain ⟨hfirst, -, hlast⟩ := (List.append_cons_inj_of_notMem hpre hpost).mp heq
  exact ⟨hfirst, hlast⟩

/-- A node of two children that is taken out gets the item of the next node, which is freed. -/
lemma takeOut_items (h : Tree bag T) (hsplit : T.addrs = pre ++ a :: post) (heven : ∀ y ∈ bag.spliced a, bag.Evens y) :
    Ensures (bag.takeOut a) fun bag' => ∃ T', Tree bag' T' ∧ T'.addrs.map bag'.itemAt = (pre ++ post).map bag.itemAt ∧
      bag'.count = bag.count ∧ bag'.destructor = bag.destructor ∧
      ∃ y ∈ bag.spliced a, bag'.destroyed = bag.destroyed ++ if bag.destructor then [bag.data y] else [] := by
  have hmem : a ∈ T.addrs := by
    rw [hsplit]
    exact List.mem_append_right _ List.mem_cons_self
  have hnodup := h.sound.nodup
  rw [hsplit] at hnodup
  have hne {c : ℕ} (hc : c ∈ pre ++ post) : c ≠ a := by
    rintro rfl
    exact (List.nodup_cons.mp (List.nodup_middle.mp hnodup)).1 hc
  obtain ⟨y₀, -, -, -, hspliced₀, -, -, -, -, hnode⟩ := exists_spliced h.sound hmem
  refine (rbTreeDelete_removes h.sound h.redBlack hmem heven).bind fun r hr => ensures_pure ?_
  obtain ⟨y, bag₁⟩ := r
  obtain ⟨hspliced, hsame, T', hsound, haddrs, hrb⟩ := hr
  obtain rfl : y₀ = y := Option.some.inj (hspliced₀.symm.trans hspliced)
  have hitem (c : ℕ) : bag₁.itemAt c = (bag.moveItem y₀ a).itemAt c := by
    rw [Bag.itemAt, Bag.itemAt, hsame.data, hsame.index]
  have hdestroyed : (bag₁.destroy y₀).itemAt = bag₁.itemAt := by
    rw [Bag.destroy]
    split_ifs <;> rfl
  have htree : Tree (bag₁.destroy y₀) T' := by
    rw [Bag.destroy]
    split_ifs
    · exact ⟨hsound.congr rfl rfl rfl, hrb⟩
    · exact ⟨hsound, hrb⟩
  have hcount : (bag.moveItem y₀ a).count = bag.count ∧ (bag.moveItem y₀ a).destroyed = bag.destroyed ∧
      (bag.moveItem y₀ a).destructor = bag.destructor := by
    rw [Bag.moveItem]
    split_ifs <;> exact ⟨rfl, rfl, rfl⟩
  refine ⟨T', htree, ?_, ?_, ?_, y₀, hspliced, ?_⟩
  · rw [hdestroyed, haddrs, List.map_congr_left fun c _ => hitem c, hsplit]
    rcases hnode with rfl | ⟨pre', post', hsplit'⟩
    · rw [erase_middle hnodup]
      refine List.map_congr_left fun c _ => ?_
      rw [Bag.moveItem, if_neg fun hc => hc rfl]
    · obtain ⟨rfl, rfl⟩ := split_unique hnodup (hsplit.symm.trans hsplit')
      have hy : y₀ ≠ a := hne (List.mem_append_right _ List.mem_cons_self)
      have hassoc (l : List ℕ) : pre ++ a :: l = (pre ++ [a]) ++ l := by
        simp only [List.append_assoc, List.cons_append, List.nil_append]
      rw [hassoc, erase_middle (by rw [← hassoc]; exact hnodup), ← hassoc]
      have hkeep {c : ℕ} (hc : c ≠ a) : (bag.moveItem y₀ a).itemAt c = bag.itemAt c := by
        rw [Bag.moveItem, if_pos hy]
        exact Prod.ext (Function.update_of_ne hc _ _) (Function.update_of_ne hc _ _)
      have hmoved : (bag.moveItem y₀ a).itemAt a = bag.itemAt y₀ := by
        rw [Bag.moveItem, if_pos hy]
        exact Prod.ext (Function.update_self _ _ _) (Function.update_self _ _ _)
      rw [List.map_append, List.map_append, List.map_cons, List.map_cons, hmoved,
        List.map_congr_left fun c hc => hkeep (hne (List.mem_append_left _ hc)),
        List.map_congr_left fun c hc => hkeep (hne (List.mem_append_right _ (List.mem_cons_of_mem _ hc)))]
  · rw [Bag.destroy]
    split_ifs <;> exact hsame.count.trans hcount.1
  · rw [Bag.destroy]
    split_ifs <;> exact hsame.destructor.trans hcount.2.2
  · have hdata : bag₁.data y₀ = bag.data y₀ := by
      rw [hsame.data, Bag.moveItem]
      split_ifs with hy
      · exact Function.update_of_ne hy _ _
      · rfl
    rw [Bag.destroy, hsame.destructor, hcount.2.2]
    split_ifs
    · rw [hsame.destroyed, hcount.2.1, hdata]
    · rw [hsame.destroyed, hcount.2.1, List.append_nil]

end Trees

section Readers

lemma mapTree_folds {σ : Type} (function : Option α → σ → σ) (data : σ) (hl : Linked bag.links p t)
    (hn : t.addrs.length < n) :
    bag.mapTree function n t.addr data = some (t.addrs.foldl (fun s a => function (bag.data a) s) data) := by
  induction t generalizing p n data with
  | nil =>
    obtain ⟨n, rfl⟩ : ∃ m, n = m + 1 := ⟨n - 1, by omega⟩
    rfl
  | node a l r ihl ihr =>
    obtain ⟨n, rfl⟩ : ∃ m, n = m + 1 := ⟨n - 1, by omega⟩
    obtain ⟨ha, -, hleft, hright, hlinkl, hlinkr⟩ := hl
    rw [length_node] at hn
    rw [Shape.addr, Bag.mapTree, if_neg ha, Bag.left, Bag.right, hleft, hright, ihl data hlinkl (by omega)]
    change bag.mapTree function n r.addr _ = _
    rw [ihr _ hlinkr (by omega), Shape.addrs, List.foldl_append, List.foldl_cons]

lemma treeCount_counts [DecidableEq α] (item : Option α) (hl : Linked bag.links p t) (hn : t.addrs.length < n)
    (hshort : t.addrs.length < 2 ^ 31) : bag.treeCount item n t.addr = some ((t.addrs.map bag.data).count item : ℤ) := by
  induction t generalizing p n with
  | nil =>
    obtain ⟨n, rfl⟩ : ∃ m, n = m + 1 := ⟨n - 1, by omega⟩
    rfl
  | node a l r ihl ihr =>
    obtain ⟨n, rfl⟩ : ∃ m, n = m + 1 := ⟨n - 1, by omega⟩
    obtain ⟨ha, -, hleft, hright, hlinkl, hlinkr⟩ := hl
    rw [length_node] at hn hshort
    have hle (u : Shape) : (u.addrs.map bag.data).count item ≤ u.addrs.length :=
      List.count_le_length.trans (List.length_map bag.data).le
    have hcl := hle l
    have hcr := hle r
    -- a side without nodes adds nothing
    have hside {u : Shape} (hu : Linked bag.links a u)
        (ih : bag.treeCount item n u.addr = some ((u.addrs.map bag.data).count item : ℤ)) :
        (if u.addr ≠ nil then bag.treeCount item n u.addr else some 0) = some ((u.addrs.map bag.data).count item : ℤ) := by
      split_ifs with hne
      · exact ih
      · cases u with
        | nil => rfl
        | node b x y => exact absurd hu.1 hne
    have hown : (if bag.data a = item then (1 : ℤ) else 0) = ([bag.data a].count item : ℕ) := by
      rw [List.count_singleton]
      by_cases hitem : bag.data a = item
      · rw [if_pos hitem, if_pos (beq_iff_eq.mpr hitem)]
        rfl
      · rw [if_neg hitem, if_neg (mt beq_iff_eq.mp hitem)]
        rfl
    have hone : [bag.data a].count item ≤ 1 := List.count_le_length
    rw [Shape.addr, Bag.treeCount, if_neg ha, Bag.left, Bag.right, hleft, hright,
      hside hlinkl (ihl hlinkl (by omega) (by omega)), hside hlinkr (ihr hlinkr (by omega) (by omega)), hown]
    have hsum : ((Shape.node a l r).addrs.map bag.data).count item = [bag.data a].count item +
        (l.addrs.map bag.data).count item + (r.addrs.map bag.data).count item := by
      rw [Shape.addrs, List.map_append, List.map_cons, List.append_cons, List.count_append, List.count_append,
        add_comm (List.count item (l.addrs.map bag.data))]
    change some (wrap32 (wrap32 _ + _)) = _
    rw [hsum, ← Nat.cast_add, wrap32_natCast (by omega), ← Nat.cast_add, wrap32_natCast (by omega)]

lemma findInTree_finds (function : Option α → Bool) (hl : Linked bag.links p t) (hn : t.addrs.length < n)
    (hindex : ∀ a ∈ t.addrs, bag.index a ≠ notFound) :
    bag.findInTree function n t.addr =
      some (((t.addrs.map bag.itemAt).find? fun x => function x.2).elim notFound Prod.fst) := by
  induction t generalizing p n with
  | nil =>
    obtain ⟨n, rfl⟩ : ∃ m, n = m + 1 := ⟨n - 1, by omega⟩
    rfl
  | node a l r ihl ihr =>
    obtain ⟨n, rfl⟩ : ∃ m, n = m + 1 := ⟨n - 1, by omega⟩
    obtain ⟨ha, -, hleft, hright, hlinkl, hlinkr⟩ := hl
    rw [length_node] at hn
    have hl : ∀ c ∈ l.addrs, bag.index c ≠ notFound := fun c hc => hindex c (List.mem_append_left _ hc)
    have hr : ∀ c ∈ r.addrs, bag.index c ≠ notFound := fun c hc =>
      hindex c (List.mem_append_right _ (List.mem_cons_of_mem a hc))
    rw [Shape.addr, Bag.findInTree, if_neg ha, Bag.left, Bag.right, hleft, hright, ihl hlinkl (by omega) hl,
      ihr hlinkr (by omega) hr, Shape.addrs, List.map_append, List.map_cons, List.find?_append]
    change (if _ ≠ notFound then _ else _) = _
    cases hfirst : (l.addrs.map bag.itemAt).find? fun x => function x.2 with
    | some x =>
      obtain ⟨c, hc, rfl⟩ := List.mem_map.mp (List.mem_of_find?_eq_some hfirst)
      exact if_pos (hl c hc)
    | none =>
      rw [Option.elim_none, if_neg fun hne => hne rfl, Option.none_or]
      by_cases hmatch : function (bag.data a) = true
      · have hfind : (bag.itemAt a :: r.addrs.map bag.itemAt).find? (fun x => function x.2) = some (bag.itemAt a) :=
          List.find?_cons_of_pos hmatch
        rw [if_pos hmatch, hfind]
        rfl
      · have hfind : (bag.itemAt a :: r.addrs.map bag.itemAt).find? (fun x => function x.2) =
            (r.addrs.map bag.itemAt).find? fun x => function x.2 := List.find?_cons_of_neg hmatch
        rw [if_neg hmatch, hfind]

end Readers

/-- A bag whose tree is red-black. -/
structure TreeBag (α : Type) where
  bag : Bag α
  tree : ∃ T, Tree bag T

inductive Call (α : Type)
  | put (item : Option α)
  | append (other : TreeBag α)
  | insert (index : ℤ) (item : Option α)
  | replace (index : ℤ) (item : Option α)
  | delete (index : ℤ)
  | remove (item : Option α)
  | erase (index : ℤ)
  | sort
  | empty

namespace Bag

def call [DecidableEq α] (sort : List (Option α) → List (Option α)) (self : Bag α) : Call α → Option (Bag α)
  | .put item => self.putInBag item
  | .append other => appendBag other.bag self
  | .insert index item => self.insertInBag index item
  | .replace index item => self.replaceInBag index item
  | .delete index => self.deleteFromBag index
  | .remove item => self.removeFromBag item
  | .erase index => self.eraseFromBag index
  | .sort => self.sortBag sort
  | .empty => self.emptyBag

/-- Whatever node is taken out, the fixup evens the tree. -/
def TakesEvenly (self : Bag α) (found : Option ℕ) : Prop := ∀ a ∈ found, a ≠ nil → ∀ y ∈ self.spliced a, self.Evens y

instance (self : Bag α) (found : Option ℕ) : Decidable (self.TakesEvenly found) :=
  inferInstanceAs (Decidable (∀ a ∈ found, a ≠ nil → ∀ y ∈ self.spliced a, self.Evens y))

/-- What keeps the tree red-black. -/
def MayBalance [DecidableEq α] (self : Bag α) : Call α → Prop
  | .put _ | .append _ | .insert _ _ | .replace _ (some _) | .sort | .empty => True
  | .replace index none => self.search index ≠ some nil ∧ self.TakesEvenly (self.search index)
  | .delete index | .erase index => self.TakesEvenly (self.search index)
  | .remove item => self.TakesEvenly (self.treeFind item self.fuel self.links.root)

instance [DecidableEq α] (self : Bag α) : ∀ c, Decidable (self.MayBalance c)
  | .put _ | .append _ | .insert _ _ | .replace _ (some _) | .sort | .empty => inferInstanceAs (Decidable True)
  | .replace _ none => inferInstanceAs (Decidable (_ ∧ _))
  | .delete _ | .erase _ | .remove _ => inferInstanceAs (Decidable (TakesEvenly _ _))

end Bag

section Calls

variable {found : Option ℕ} {P : ℤ × Option α → Prop}

lemma Tree.mem_ne_nil (h : Tree bag T) (ha : a ∈ T.addrs) : a ≠ nil := h.sound.woven.linked.tree.ne_zero ha

def moved (n : ℤ) (x : ℤ × Option α) : ℤ × Option α := (wrap32 (x.1 + n), x.2)

lemma shifted_items (h : Tree bag T) (hsplit : T.addrs = pre ++ a :: post) (k : ℤ) :
    pre.map (bag.shifted k post).itemAt = pre.map bag.itemAt ∧ (bag.shifted k post).itemAt a = bag.itemAt a ∧
      post.map (bag.shifted k post).itemAt = (post.map bag.itemAt).map (moved k) := by
  have hnodup := h.sound.nodup
  rw [hsplit] at hnodup
  obtain ⟨-, htail, hapart⟩ := List.nodup_append.mp hnodup
  refine ⟨List.map_congr_left fun c hc => ?_, ?_, ?_⟩
  · have hpost : c ∉ post := fun hmem => hapart c hc c (List.mem_cons_of_mem a hmem) rfl
    exact congrArg (Prod.mk · _) (if_neg hpost)
  · exact congrArg (Prod.mk · _) (if_neg (List.nodup_cons.mp htail).1)
  · rw [List.map_map]
    exact List.map_congr_left fun c hc => congrArg (Prod.mk · _) (if_pos hc)

lemma shiftBehind_eq (h : Tree bag T) (hsplit : T.addrs = pre ++ a :: post) (k : ℤ) :
    Bag.shiftBehind k bag.fuel a bag = some (bag.shifted k post) := by
  have hlength := h.sound.length_lt
  rw [hsplit, List.length_append, List.length_cons] at hlength
  exact shiftBehind_shifts k h.sound hsplit (by rw [Bag.fuel]; omega)

/-- The item has got its place, and `f` has changed those behind it. -/
def Entered (f : ℤ × Option α → ℤ × Option α) (l : Items α) (i : ℤ) (item : Option α) (l' : Items α) : Prop :=
  ∃ pre post, l = pre ++ post ∧ l' = pre ++ (i, item) :: post.map f ∧
    (l.Pairwise (fun x y => x.1 ≤ y.1) → (∀ x ∈ pre, x.1 < i) ∧ ∀ x ∈ post, i ≤ x.1)

/-- The node found has been taken out, and the destructor called with the item of the node that is freed. -/
def Freed (found : Option ℕ) (x : ℤ × Option α) (bag bag' : Bag α) : Prop :=
  bag'.destructor = bag.destructor ∧ ∃ a y, found = some a ∧ a ≠ nil ∧ bag.itemAt a = x ∧ bag.spliced a = some y ∧
    bag'.destroyed = bag.destroyed ++ if bag.destructor then [bag.data y] else []

/-- An item has been taken out, and `f` has changed those behind it; or there is none. -/
def Taken (found : Option ℕ) (P : ℤ × Option α → Prop) (f : ℤ × Option α → ℤ × Option α) (bag bag' : Bag α) : Prop :=
  (∃ pre x post, bag.items = pre ++ x :: post ∧ P x ∧ bag'.items = pre ++ post.map f ∧
    bag'.count = wrap32 (bag.count + -1) ∧ Freed found x bag bag') ∨
  found = some nil ∧ bag' = bag ∧ (bag.items.Pairwise (fun x y => x.1 < y.1) → ∀ x ∈ bag.items, ¬P x)

lemma pairwise_items (h : Tree bag T) (R : ℤ → ℤ → Prop) :
    (bag.items.Pairwise fun x y => R x.1 y.1) ↔ T.addrs.Pairwise fun b c => R (bag.index b) (bag.index c) := by
  rw [h.items, List.pairwise_map]
  rfl

lemma mem_items (h : Tree bag T) {p : ℤ × Option α → Prop} :
    (∀ x ∈ bag.items, p x) ↔ ∀ c ∈ T.addrs, p (bag.itemAt c) := by
  rw [h.items, List.forall_mem_map]

lemma addNode_entered (h : Tree bag T) (i : ℤ) (item : Option α) :
    Ensures (bag.addNode item i) fun bag' => (∃ T', Tree bag' T') ∧ Entered id bag.items i item bag'.items ∧
      bag'.count = bag.count ∧ Quiet bag bag' := by
  refine (addNode_items h item i).imp fun bag' hbag' => ?_
  obtain ⟨T', pre, post, htree, hsplit, hsplit', hnew, hold, hcount, hquiet, hbounds⟩ := hbag'
  refine ⟨⟨T', htree⟩, ⟨pre.map bag.itemAt, post.map bag.itemAt, ?_, ?_, fun hsorted => ?_⟩, hcount, hquiet⟩
  · rw [h.items, hsplit, List.map_append]
  · rw [htree.items, hsplit', List.map_append, List.map_cons, List.map_id, hnew,
      List.map_congr_left fun c hc => hold c (hsplit ▸ List.mem_append_left _ hc),
      List.map_congr_left fun c hc => hold c (hsplit ▸ List.mem_append_right _ hc)]
  · obtain ⟨hpre, hpost⟩ := hbounds ((pairwise_items h (· ≤ ·)).mp hsorted)
    exact ⟨List.forall_mem_map.mpr hpre, List.forall_mem_map.mpr hpost⟩

/-- A new node, and the count that follows. -/
lemma entered_countUp (h : Tree bag T) (i : ℤ) (item : Option α) :
    Ensures (bag.addNode item i >>= fun self => pure (self.countUp 1)) fun bag' => (∃ T', Tree bag' T') ∧
      Entered id bag.items i item bag'.items ∧ bag'.count = wrap32 (bag.count + 1) ∧ Quiet bag bag' := by
  refine (addNode_entered h i item).bind fun bag' hbag' => ensures_pure ?_
  obtain ⟨⟨T', htree⟩, hentered, hcount, hquiet⟩ := hbag'
  have htree' : Tree (bag'.countUp 1) T' := htree.congr rfl rfl rfl
  have hitems : (bag'.countUp 1).items = bag'.items := htree'.items.trans htree.items.symm
  refine ⟨⟨T', htree'⟩, hitems ▸ hentered, ?_, hquiet.destructor, hquiet.destroyed⟩
  rw [← hcount]
  rfl

lemma put_items (h : Tree bag T) (item : Option α) :
    Ensures (bag.putInBag item) fun bag' => (∃ T', Tree bag' T') ∧ Entered id bag.items bag.count item bag'.items ∧
      bag'.count = wrap32 (bag.count + 1) ∧ Quiet bag bag' :=
  entered_countUp h bag.count item

lemma insert_items (h : Tree bag T) (i : ℤ) (item : Option α) :
    Ensures (bag.insertInBag i item) fun bag' => (∃ T', Tree bag' T') ∧
      Entered (moved 1) bag.items i item bag'.items ∧ bag'.count = wrap32 (bag.count + 1) ∧ Quiet bag bag' := by
  refine (addNode_items h item i).bind fun bag₁ hbag₁ => ?_
  obtain ⟨T', pre, post, htree₁, hsplit, hsplit', hnew, hold, hcount₁, hquiet, hbounds⟩ := hbag₁
  obtain ⟨hbefore, hat, hbehind⟩ := shifted_items htree₁ hsplit' 1
  rw [shiftBehind_eq htree₁ hsplit' 1]
  have htree : Tree ((bag₁.shifted 1 post).countUp 1) T' := htree₁.congr rfl rfl rfl
  refine ensures_some ⟨⟨T', htree⟩, ⟨pre.map bag.itemAt, post.map bag.itemAt, ?_, ?_, fun hsorted => ?_⟩, ?_,
    hquiet.destructor, hquiet.destroyed⟩
  · rw [h.items, hsplit, List.map_append]
  · rw [htree.items, hsplit', List.map_append, List.map_cons]
    change pre.map (bag₁.shifted 1 post).itemAt ++
      (bag₁.shifted 1 post).itemAt bag.next :: post.map (bag₁.shifted 1 post).itemAt = _
    rw [hbefore, hat, hbehind, hnew, List.map_congr_left fun c hc => hold c (hsplit ▸ List.mem_append_left _ hc),
      List.map_congr_left fun c hc => hold c (hsplit ▸ List.mem_append_right _ hc)]
  · obtain ⟨hpre, hpost⟩ := hbounds ((pairwise_items h (· ≤ ·)).mp hsorted)
    exact ⟨List.forall_mem_map.mpr hpre, List.forall_mem_map.mpr hpost⟩
  · rw [← hcount₁]
    rfl

/-- Where a search has ended. -/
def Found (bag : Bag α) (T : Shape) (P : ℤ × Option α → Prop) (a : ℕ) : Prop :=
  a ∈ T.addrs ∧ P (bag.itemAt a) ∨
    a = nil ∧ (T.addrs.Pairwise (fun b c => bag.index b < bag.index c) → ∀ c ∈ T.addrs, ¬P (bag.itemAt c))

lemma search_found (h : Tree bag T) (i : ℤ) : Ensures (bag.search i) (Found bag T fun x => x.1 = i) :=
  search_finds i h.sound

lemma find_found [DecidableEq α] (h : Tree bag T) (item : Option α) :
    Ensures (bag.treeFind item bag.fuel bag.links.root) (Found bag T fun x => x.2 = item) := by
  have hroot : bag.links.root = T.addr := h.sound.woven.linked.ctx
  have hlength := h.sound.length_lt
  rw [hroot]
  refine (treeFind_finds item h.sound.woven.linked.tree (by rw [Bag.fuel]; omega)).imp fun a ha => ?_
  exact ha.imp id fun hmiss => ⟨hmiss.1, fun _ => hmiss.2⟩

lemma missed (h : Tree bag T) (hfound : Found bag T P nil) {f : ℤ × Option α → ℤ × Option α} : Taken (some nil) P f bag bag := by
  rcases hfound with ⟨ha, -⟩ | ⟨-, hmiss⟩
  · exact absurd rfl (h.mem_ne_nil ha)
  · exact .inr ⟨rfl, rfl, fun hstrict => (mem_items h).mpr (hmiss ((pairwise_items h (· < ·)).mp hstrict))⟩

lemma delete_taken (h : Tree bag T) (hfound : Ensures found (Found bag T P)) (heven : bag.TakesEvenly found) :
    Ensures (found >>= fun a => bag.treeDeleteNode a) fun bag' => (∃ T', Tree bag' T') ∧
      Taken found P (moved (-1)) bag bag' := by
  obtain ⟨a, rfl, hfound⟩ := hfound
  change Ensures (bag.treeDeleteNode a) _
  rw [Bag.treeDeleteNode]
  split_ifs with hne
  · obtain ⟨ha, hP⟩ : a ∈ T.addrs ∧ P (bag.itemAt a) := hfound.resolve_right fun hnil => hne hnil.1
    obtain ⟨pre, post, hsplit⟩ := List.append_of_mem ha
    have h₁ : Tree (bag.countUp (-1)) T := h.congr rfl rfl rfl
    have h₂ : Tree ((bag.countUp (-1)).shifted (-1) post) T := h.congr rfl rfl rfl
    obtain ⟨hbefore, -, hbehind⟩ := shifted_items h₁ hsplit (-1)
    change Ensures (Bag.shiftBehind (-1) (bag.countUp (-1)).fuel a _ >>= _) _
    rw [shiftBehind_eq h₁ hsplit (-1)]
    refine (takeOut_items h₂ hsplit (heven a rfl hne)).imp fun bag' hbag' => ?_
    obtain ⟨T', htree, hitems, hcount, hdestructor, y, hspliced, hdestroyed⟩ := hbag'
    refine ⟨⟨T', htree⟩, .inl ⟨pre.map bag.itemAt, bag.itemAt a, post.map bag.itemAt, ?_, hP, ?_, hcount,
      hdestructor, a, y, rfl, hne, rfl, hspliced, hdestroyed⟩⟩
    · rw [h.items, hsplit, List.map_append, List.map_cons]
    · rw [htree.items, hitems, List.map_append, hbefore, hbehind]
      rfl
  · obtain rfl := not_not.mp hne
    exact ensures_some ⟨⟨T, h⟩, missed h hfound⟩

lemma erase_taken (h : Tree bag T) (hfound : Found bag T P a) (hne : a ≠ nil) (heven : ∀ y ∈ bag.spliced a, bag.Evens y) :
    Ensures ((bag.countUp (-1)).takeOut a) fun bag' => (∃ T', Tree bag' T') ∧ Taken (some a) P id bag bag' := by
  obtain ⟨ha, hP⟩ : a ∈ T.addrs ∧ P (bag.itemAt a) := hfound.resolve_right fun hnil => hne hnil.1
  obtain ⟨pre, post, hsplit⟩ := List.append_of_mem ha
  have h₁ : Tree (bag.countUp (-1)) T := h.congr rfl rfl rfl
  refine (takeOut_items h₁ hsplit heven).imp fun bag' hbag' => ?_
  obtain ⟨T', htree, hitems, hcount, hdestructor, y, hspliced, hdestroyed⟩ := hbag'
  refine ⟨⟨T', htree⟩, .inl ⟨pre.map bag.itemAt, bag.itemAt a, post.map bag.itemAt, ?_, hP, ?_, hcount,
    hdestructor, a, y, rfl, hne, rfl, hspliced, hdestroyed⟩⟩
  · rw [h.items, hsplit, List.map_append, List.map_cons]
  · rw [htree.items, hitems, List.map_append, List.map_id]
    rfl

lemma erase_items (h : Tree bag T) (i : ℤ) (heven : bag.TakesEvenly (bag.search i)) :
    Ensures (bag.eraseFromBag i) fun bag' => (∃ T', Tree bag' T') ∧ Taken (bag.search i) (fun x => x.1 = i) id bag bag' := by
  obtain ⟨a, ha, hfound⟩ := search_found h i
  rw [Bag.eraseFromBag, ha]
  change Ensures (if a ≠ nil then (bag.countUp (-1)).takeOut a else some bag) _
  split_ifs with hne
  · exact erase_taken h hfound hne (heven a ha hne)
  · obtain rfl := not_not.mp hne
    exact ensures_some ⟨⟨T, h⟩, missed h hfound⟩

lemma replace_none_items (h : Tree bag T) (i : ℤ) (hthere : bag.search i ≠ some nil)
    (heven : bag.TakesEvenly (bag.search i)) :
    Ensures (bag.replaceInBag i none) fun bag' => (∃ T', Tree bag' T') ∧ Taken (bag.search i) (fun x => x.1 = i) id bag bag' := by
  obtain ⟨a, ha, hfound⟩ := search_found h i
  have hne : a ≠ nil := fun hnil => hthere (hnil ▸ ha)
  rw [Bag.replaceInBag, ha]
  change Ensures (if a ≠ nil then (bag.countUp (-1)).takeOut a else none) _
  rw [if_pos hne]
  exact erase_taken h hfound hne (heven a ha hne)

/-- The item in the place of an index is another one. -/
def Replaced (i : ℤ) (item : Option α) (bag bag' : Bag α) : Prop :=
  (∃ pre x post, bag.items = pre ++ x :: post ∧ x.1 = i ∧ bag'.items = pre ++ (i, item) :: post ∧
    bag'.count = bag.count ∧ Quiet bag bag') ∨
  (bag.items.Pairwise (fun x y => x.1 < y.1) → ∀ x ∈ bag.items, x.1 ≠ i) ∧ Entered id bag.items i item bag'.items ∧
    bag'.count = wrap32 (bag.count + 1) ∧ Quiet bag bag'

lemma replace_some_items (h : Tree bag T) (i : ℤ) (item : α) :
    Ensures (bag.replaceInBag i (some item)) fun bag' => (∃ T', Tree bag' T') ∧ Replaced i (some item) bag bag' := by
  obtain ⟨a, ha, hfound⟩ := search_found h i
  rw [Bag.replaceInBag, ha]
  change Ensures (if a ≠ nil then _ else _) _
  split_ifs with hne
  · obtain ⟨ha, hP⟩ : a ∈ T.addrs ∧ bag.index a = i := hfound.resolve_right fun hnil => hne hnil.1
    obtain ⟨pre, post, hsplit⟩ := List.append_of_mem ha
    have hnodup := h.sound.nodup
    rw [hsplit] at hnodup
    have hkeep (c : ℕ) (hc : c ∈ pre ++ post) : Function.update bag.data a (some item) c = bag.data c := by
      refine Function.update_of_ne ?_ _ _
      rintro rfl
      exact (List.nodup_cons.mp (List.nodup_middle.mp hnodup)).1 hc
    have htree : Tree ({ bag with data := Function.update bag.data a (some item) } : Bag α) T := h.congr rfl rfl rfl
    refine ensures_pure ⟨⟨T, htree⟩, .inl ⟨pre.map bag.itemAt, bag.itemAt a, post.map bag.itemAt, ?_, hP, ?_, rfl, rfl,
      rfl⟩⟩
    · rw [h.items, hsplit, List.map_append, List.map_cons]
    · rw [htree.items, hsplit, List.map_append, List.map_cons]
      refine congrArg₂ _ (List.map_congr_left fun c hc => ?_) (congrArg₂ _ ?_ (List.map_congr_left fun c hc => ?_))
      · exact congrArg (Prod.mk _) (hkeep c (List.mem_append_left _ hc))
      · exact Prod.ext hP (Function.update_self _ _ _)
      · exact congrArg (Prod.mk _) (hkeep c (List.mem_append_right _ hc))
  · obtain rfl := not_not.mp hne
    have hmiss : bag.items.Pairwise (fun x y => x.1 < y.1) → ∀ x ∈ bag.items, x.1 ≠ i := by
      rcases hfound with ⟨ha, -⟩ | ⟨-, hmiss⟩
      · exact absurd rfl (h.mem_ne_nil ha)
      · exact fun hstrict => (mem_items h).mpr (hmiss ((pairwise_items h (· < ·)).mp hstrict))
    exact (entered_countUp h i (some item)).imp fun bag' hbag' => ⟨hbag'.1, .inr ⟨hmiss, hbag'.2⟩⟩

def Bag.place (self : Bag α) (node : (ℕ × Option α) × ℕ) : Bag α :=
  { self with
    index := Function.update self.index node.1.1 node.2
    data := Function.update self.data node.1.1 node.1.2 }

lemma places_items {nodes : List ℕ} {items : List (Option α)} (k : ℕ) (hlength : nodes.length = items.length)
    (hnodup : nodes.Nodup) (bag : Bag α) : Ensures (some (((nodes.zip items).zipIdx k).foldl Bag.place bag)) fun bag' =>
      (bag'.links = bag.links ∧ bag'.color = bag.color ∧ bag'.next = bag.next ∧ bag'.count = bag.count ∧ Quiet bag bag') ∧
      (∀ c, c ∉ nodes → bag'.itemAt c = bag.itemAt c) ∧
      nodes.map bag'.itemAt = (items.zipIdx k).map fun x => ((x.2 : ℤ), x.1) := by
  induction nodes generalizing items k bag with
  | nil =>
    obtain rfl := List.length_eq_zero_iff.mp hlength.symm
    exact ensures_some ⟨⟨rfl, rfl, rfl, rfl, rfl, rfl⟩, fun _ _ => rfl, rfl⟩
  | cons a nodes ih =>
    obtain ⟨item, items, rfl⟩ := List.exists_cons_of_length_eq_add_one hlength.symm
    obtain ⟨ha, hnodup'⟩ := List.nodup_cons.mp hnodup
    rw [List.zip_cons_cons, List.zipIdx_cons, List.foldl_cons, List.zipIdx_cons]
    refine (ih (k + 1) (Nat.succ.inj hlength) hnodup' (bag.place ((a, item), k))).imp fun bag' hbag' => ?_
    obtain ⟨hsame, hkeep, hitems⟩ := hbag'
    refine ⟨⟨hsame.1, hsame.2.1, hsame.2.2.1, hsame.2.2.2.1, hsame.2.2.2.2.destructor, hsame.2.2.2.2.destroyed⟩,
      fun c hc => ?_, ?_⟩
    · obtain ⟨hca, hcnodes⟩ := not_or.mp (mt List.mem_cons.mpr hc)
      exact (hkeep c hcnodes).trans (Prod.ext (Function.update_of_ne hca _ _) (Function.update_of_ne hca _ _))
    · rw [List.map_cons, List.map_cons, hitems, hkeep a ha]
      exact congrArg (· :: _) (Prod.ext (Function.update_self _ _ _) (Function.update_self _ _ _))

lemma sort_items {sort : List (Option α) → List (Option α)} (hsort : ∀ l, (sort l).length = l.length)
    (h : Tree bag T) :
    Ensures (bag.sortBag sort) fun bag' => (∃ T', Tree bag' T') ∧ bag'.count = bag.count ∧ Quiet bag bag' ∧
      (bag.count ≠ 0 → bag'.items = (sort (bag.items.map Prod.snd)).zipIdx.map fun x => ((x.2 : ℤ), x.1)) ∧
      (bag.count = 0 → bag'.items = bag.items) := by
  rw [Bag.sortBag]
  split_ifs with hzero
  · exact ensures_some ⟨⟨T, h⟩, rfl, ⟨rfl, rfl⟩, fun hne => absurd hzero hne, fun _ => rfl⟩
  · rw [h.forward]
    have hdata : bag.items.map Prod.snd = T.addrs.map bag.data := by
      rw [h.items, List.map_map]
      rfl
    have hlength : T.addrs.length = (sort (T.addrs.map bag.data)).length := by rw [hsort, List.length_map]
    refine (places_items 0 hlength h.sound.nodup bag).imp fun bag' hbag' => ?_
    obtain ⟨⟨hlinks, hcolor, hnext, hcount, hquiet⟩, -, hitems⟩ := hbag'
    have htree := h.congr hlinks hcolor hnext
    refine ⟨⟨T, htree⟩, hcount, hquiet, fun _ => ?_, fun hnot => absurd hnot hzero⟩
    rw [htree.items, hdata, hitems]

lemma empty_items (h : Tree bag T) :
    Ensures bag.emptyBag fun bag' => Tree bag' .nil ∧ bag'.items = [] ∧ bag'.count = 0 ∧
      bag'.destructor = bag.destructor ∧
      bag'.destroyed = bag.destroyed ++ if bag.destructor then bag.items.map Prod.snd else [] := by
  have hroot : bag.links.root = T.addr := h.sound.woven.linked.ctx
  have hlength := h.sound.length_lt
  rw [Bag.emptyBag, hroot, deleteTree_destroys h.sound.woven.linked.tree (by rw [Bag.fuel]; omega)]
  have htree : Tree ({ bag with
      links := { bag.links with root := nil }
      count := 0
      destroyed := bag.destroyed ++ if bag.destructor then T.addrs.map bag.data else [] } : Bag α) .nil :=
    tree_nil rfl h.sound.woven.linked.leaf h.sound.woven.sentinel h.sound.pos
  refine ensures_pure ⟨htree, htree.items, rfl, rfl, ?_⟩
  rw [h.items, List.map_map]
  rfl

end Calls

end Xperimentum.WMcore.BagTree
