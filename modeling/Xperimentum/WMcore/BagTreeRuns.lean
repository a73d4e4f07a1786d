import Xperimentum.WMcore.BagTreeItems

/-! Any run of the calls of a bag: its tree stays red-black, and what can be read of it is what the calls make of a
list of items with rising indexes. -/

namespace Xperimentum.WMcore.BagTree

open Lib.Int32 Lib.LinkedTrees Lib.Partial Lib.RedBlack

variable {α : Type} {bag bag' : Bag α} {T : Shape}

section Balance

variable {sort : List (Option α) → List (Option α)}

lemma append_tree (other : TreeBag α) (h : Tree bag T) :
    Ensures (Bag.appendBag other.bag bag) fun bag' => (∃ T', Tree bag' T') ∧ Quiet bag bag' := by
  obtain ⟨other, T₂, h₂⟩ := other
  rw [Bag.appendBag, h₂.forward]
  refine ensures_foldlM _ (fun bag₁ hbag₁ item _ => ?_) ⟨⟨T, h⟩, rfl, rfl⟩
  obtain ⟨⟨T₁, h₁⟩, hdestructor, hdestroyed⟩ := hbag₁
  refine (put_items h₁ item).imp fun bag₂ hput => ?_
  obtain ⟨htree, -, -, hquiet⟩ := hput
  exact ⟨htree, hquiet.destructor.trans hdestructor, hquiet.destroyed.trans hdestroyed⟩

variable [DecidableEq α]

lemma call_tree (hsort : ∀ l, (sort l).length = l.length) (h : Tree bag T) (c : Call α) (hc : bag.MayBalance c) :
    Ensures (bag.call sort c) fun bag' => ∃ T', Tree bag' T' := by
  cases c with
  | put item => exact (put_items h item).imp fun _ hput => hput.1
  | append other => exact (append_tree other h).imp fun _ happend => happend.1
  | insert i item => exact (insert_items h i item).imp fun _ hinsert => hinsert.1
  | replace i item =>
    cases item with
    | none => exact (replace_none_items h i hc.1 hc.2).imp fun _ htaken => htaken.1
    | some item => exact (replace_some_items h i item).imp fun _ hreplaced => hreplaced.1
  | delete i => exact (delete_taken h (search_found h i) hc).imp fun _ htaken => htaken.1
  | remove item => exact (delete_taken h (find_found h item) hc).imp fun _ htaken => htaken.1
  | erase i => exact (erase_items h i hc).imp fun _ htaken => htaken.1
  | sort => exact (sort_items hsort h).imp fun _ hsorted => hsorted.1
  | empty => exact (empty_items h).imp fun _ hempty => ⟨_, hempty.1⟩

lemma run_tree (hsort : ∀ l, (sort l).length = l.length) (h : Tree bag T) {calls : List (Call α)}
    (hcalls : Admits (Bag.call sort) Bag.MayBalance bag calls) :
    Ensures (tryRun (Bag.call sort) bag calls) fun bag' => ∃ T', Tree bag' T' := by
  refine tryRun_ensures (fun bag₁ c hbag₁ hc => ?_) ⟨T, h⟩ hcalls
  obtain ⟨T₁, h₁⟩ := hbag₁
  exact call_tree hsort h₁ c hc

/-- A run that takes out a node of two children. -/
def sampleCalls : List (Call ℕ) :=
  [.put (some 5), .put (some 3), .insert 0 (some 4), .put (some 9), .delete 1, .replace 8 (some 2), .sort,
    .replace 3 none, .append ⟨createTreeBag false, _, tree_create false⟩, .put (some 7), .remove (some 7), .put none,
    .erase 3, .empty]

theorem run_height (sort : List (Option α) → List (Option α)) (hsort : ∀ l, (sort l).length = l.length)
    (destructor : Bool) (calls : List (Call α))
    (hcalls : Admits (Bag.call sort) Bag.MayBalance (createTreeBag destructor) calls) :
    Ensures (tryRun (Bag.call sort) (createTreeBag destructor) calls) fun bag => ∃ T, Linked bag.links nil T ∧
      bag.links.root = T.addr ∧ RedBlack bag.color T ∧ bag.forward = some T.addrs ∧
      (height T : ℝ) ≤ 2 * Real.logb 2 (bag.items.length + 1) := by
  refine (run_tree hsort (tree_create destructor) hcalls).imp fun bag hbag => ?_
  obtain ⟨T, h⟩ := hbag
  refine ⟨T, h.sound.woven.linked.tree, h.sound.woven.linked.ctx, h.redBlack, h.forward, ?_⟩
  rw [h.items, List.length_map]
  exact h.redBlack.height_log

theorem run_height_sample :
    Ensures (tryRun (Bag.call id) (createTreeBag true) (sampleCalls.take 9)) fun bag => ∃ T, Linked bag.links nil T ∧
      bag.links.root = T.addr ∧ RedBlack bag.color T ∧ bag.forward = some T.addrs ∧
      (height T : ℝ) ≤ 2 * Real.logb 2 (bag.items.length + 1) :=
  run_height id (fun _ => rfl) true (sampleCalls.take 9) (by decide +kernel)

end Balance

section Lists

variable {l l' : Items α} {found : Option ℕ} {x : ℤ × Option α} {k : ℤ} {P : ℤ × Option α → Prop}

def InInt (i : ℤ) : Prop := -2 ^ 31 ≤ i ∧ i < 2 ^ 31

instance (i : ℤ) : Decidable (InInt i) := inferInstanceAs (Decidable (_ ∧ _))

/-- Items as a bag may hold them. -/
structure Ordered (l : Items α) : Prop where
  strict : l.Pairwise fun x y => x.1 < y.1
  inInt : ∀ x ∈ l, InInt x.1
  short : l.length < 2 ^ 31

def before (i : ℤ) (l : Items α) : Items α := l.filter (·.1 < i)

def behind (i : ℤ) (l : Items α) : Items α := l.filter (i < ·.1)

def shift (k : ℤ) (l : Items α) : Items α := l.map fun x => (x.1 + k, x.2)

/-- The place of the index has the item. -/
def placed (i : ℤ) (item : Option α) (l : Items α) : Items α := before i l ++ (i, item) :: behind i l

/-- The item gets the index, and those from there on the next. -/
def pushed (i : ℤ) (item : Option α) (l : Items α) : Items α :=
  before i l ++ (i, item) :: shift 1 (l.filter (i ≤ ·.1))

/-- One item of the kind is gone, if there is one. -/
def Pulled (P : ℤ × Option α → Prop) (k : ℤ) (l l' : Items α) : Prop :=
  (∃ x ∈ l, P x ∧ l' = before x.1 l ++ shift k (behind x.1 l)) ∨ (∀ x ∈ l, ¬P x) ∧ l' = l

def Changes (sort : List (Option α) → List (Option α)) (l : Items α) : Call α → Items α → Prop
  | .put item, l' => l' = placed l.length item l
  | .append other, l' => l' = ((other.bag.items.map Prod.snd).takeWhile Option.isSome).foldl
      (fun l item => placed l.length item l) l
  | .insert i item, l' => l' = pushed i item l
  | .replace i (some item), l' => l' = placed i (some item) l
  | .replace i none, l' | .erase i, l' => Pulled (fun x => x.1 = i) 0 l l'
  | .delete i, l' => Pulled (fun x => x.1 = i) (-1) l l'
  | .remove item, l' => Pulled (fun x => x.2 = item) (-1) l l'
  | .sort, l' => l' = (sort (l.map Prod.snd)).zipIdx.map fun x => ((x.2 : ℤ), x.1)
  | .empty, l' => l' = []

/-- The indexes that a call gives to items are not in use, and are numbers that `int` has. -/
def Fits (l : Items α) : Call α → Prop
  | .put _ => (∀ x ∈ l, x.1 ≠ l.length) ∧ l.length + 1 < 2 ^ 31
  | .append other =>
    let n := ((other.bag.items.map Prod.snd).takeWhile Option.isSome).length
    (∀ x ∈ l, x.1 < l.length ∨ (l.length + n : ℤ) ≤ x.1) ∧ l.length + n < 2 ^ 31
  | .insert i _ => InInt i ∧ (∀ x ∈ l, i ≤ x.1 → x.1 + 1 < 2 ^ 31) ∧ l.length + 1 < 2 ^ 31
  | .replace i (some _) => InInt i ∧ l.length + 1 < 2 ^ 31
  | _ => True

instance (l : Items α) : ∀ c, Decidable (Fits l c)
  | .put _ | .append _ | .replace _ (some _) => inferInstanceAs (Decidable (_ ∧ _))
  | .insert _ _ => inferInstanceAs (Decidable (_ ∧ _ ∧ _))
  | .replace _ none | .delete _ | .remove _ | .erase _ | .sort | .empty => inferInstanceAs (Decidable True)

lemma before_append {pre post : Items α} {i : ℤ} (hpre : ∀ x ∈ pre, x.1 < i) (hpost : ∀ x ∈ post, i ≤ x.1) :
    before i (pre ++ post) = pre := by
  rw [before, List.filter_append, List.filter_eq_self.mpr fun x hx => decide_eq_true (hpre x hx),
    List.filter_eq_nil_iff.mpr fun x hx => (decide_eq_false (not_lt.mpr (hpost x hx))).symm ▸ Bool.false_ne_true,
    List.append_nil]

lemma behind_append {pre post : Items α} {i : ℤ} (hpre : ∀ x ∈ pre, x.1 ≤ i) (hpost : ∀ x ∈ post, i < x.1) :
    behind i (pre ++ post) = post := by
  rw [behind, List.filter_append, List.filter_eq_self.mpr fun x hx => decide_eq_true (hpost x hx),
    List.filter_eq_nil_iff.mpr fun x hx => (decide_eq_false (not_lt.mpr (hpre x hx))).symm ▸ Bool.false_ne_true,
    List.nil_append]

lemma Ordered.parts {pre post : Items α} (h : Ordered (pre ++ x :: post)) :
    (∀ y ∈ pre, y.1 < x.1) ∧ ∀ y ∈ post, x.1 < y.1 := by
  obtain ⟨-, hpost, hcross⟩ := List.pairwise_append.mp h.strict
  exact ⟨fun y hy => hcross y hy x List.mem_cons_self, (List.pairwise_cons.mp hpost).1⟩

lemma Ordered.around {pre post : Items α} (h : Ordered (pre ++ x :: post)) :
    before x.1 (pre ++ x :: post) = pre ∧ behind x.1 (pre ++ x :: post) = post := by
  obtain ⟨hpre, hpost⟩ := h.parts
  refine ⟨before_append hpre fun y hy => ?_, ?_⟩
  · rcases List.mem_cons.mp hy with rfl | hy
    · exact le_rfl
    · exact (hpost y hy).le
  · rw [List.append_cons]
    refine behind_append (fun y hy => ?_) hpost
    rcases List.mem_append.mp hy with hy | hy
    · exact (hpre y hy).le
    · exact List.mem_singleton.mp hy ▸ le_rfl

lemma ordered_nil : Ordered ([] : Items α) := ⟨.nil, fun _ hx => absurd hx List.not_mem_nil, Nat.two_pow_pos 31⟩

lemma strict_enter {pre post : Items α} {i : ℤ} {item : Option α} (hpre : pre.Pairwise fun x y => x.1 < y.1)
    (hpost : post.Pairwise fun x y => x.1 < y.1) (hbefore : ∀ x ∈ pre, x.1 < i) (hbehind : ∀ x ∈ post, i < x.1) :
    (pre ++ (i, item) :: post).Pairwise fun x y => x.1 < y.1 := by
  refine List.pairwise_append.mpr ⟨hpre, List.pairwise_cons.mpr ⟨hbehind, hpost⟩, fun x hx y hy => ?_⟩
  rcases List.mem_cons.mp hy with rfl | hy
  · exact hbefore x hx
  · exact (hbefore x hx).trans (hbehind y hy)

lemma strict_shift (h : l.Pairwise fun x y => x.1 < y.1) (k : ℤ) : (shift k l).Pairwise fun x y => x.1 < y.1 :=
  List.pairwise_map.mpr (h.imp fun hlt => Int.add_lt_add_right hlt k)

lemma Entered.places {i : ℤ} {item : Option α} (he : Entered id l i item l') (h : Ordered l) (hi : InInt i)
    (hfree : ∀ x ∈ l, x.1 ≠ i) (hshort : l.length + 1 < 2 ^ 31) : Ordered l' ∧ l' = placed i item l := by
  obtain ⟨pre, post, rfl, rfl, hbounds⟩ := he
  obtain ⟨hpre, hpost⟩ := hbounds (h.strict.imp le_of_lt)
  have hpost' : ∀ x ∈ post, i < x.1 := fun x hx =>
    lt_of_le_of_ne (hpost x hx) (hfree x (List.mem_append_right _ hx)).symm
  obtain ⟨hspre, hspost, -⟩ := List.pairwise_append.mp h.strict
  rw [List.map_id]
  refine ⟨⟨strict_enter hspre hspost hpre hpost', fun x hx => ?_, ?_⟩, ?_⟩
  · rcases List.mem_append.mp hx with hx | hx
    · exact h.inInt x (List.mem_append_left _ hx)
    · rcases List.mem_cons.mp hx with rfl | hx
      · exact hi
      · exact h.inInt x (List.mem_append_right _ hx)
  · rw [List.length_append] at hshort ⊢
    rw [List.length_cons]
    omega
  · rw [placed, before_append hpre hpost, behind_append (fun x hx => (hpre x hx).le) hpost']

lemma Entered.pushes {i : ℤ} {item : Option α} (he : Entered (moved 1) l i item l') (h : Ordered l) (hi : InInt i)
    (hnext : ∀ x ∈ l, i ≤ x.1 → x.1 + 1 < 2 ^ 31) (hshort : l.length + 1 < 2 ^ 31) :
    Ordered l' ∧ l' = pushed i item l := by
  obtain ⟨pre, post, rfl, rfl, hbounds⟩ := he
  obtain ⟨hpre, hpost⟩ := hbounds (h.strict.imp le_of_lt)
  obtain ⟨hspre, hspost, -⟩ := List.pairwise_append.mp h.strict
  have hinInt : ∀ x ∈ post, InInt (x.1 + 1) := fun x hx =>
    ⟨(h.inInt x (List.mem_append_right _ hx)).1.trans (Int.le_add_one le_rfl),
      hnext x (List.mem_append_right _ hx) (hpost x hx)⟩
  have hmoved : post.map (moved 1) = shift 1 post :=
    List.map_congr_left fun x hx => congrArg (Prod.mk · x.2) (wrap32_of_mem (hinInt x hx).1 (hinInt x hx).2)
  rw [hmoved]
  refine ⟨⟨strict_enter hspre (strict_shift hspost 1) hpre ?_, fun x hx => ?_, ?_⟩, ?_⟩
  · exact List.forall_mem_map.mpr fun x hx => Int.lt_add_one_of_le (hpost x hx)
  · rcases List.mem_append.mp hx with hx | hx
    · exact h.inInt x (List.mem_append_left _ hx)
    · rcases List.mem_cons.mp hx with rfl | hx
      · exact hi
      · obtain ⟨y, hy, rfl⟩ := List.mem_map.mp hx
        exact hinInt y hy
  · rw [List.length_append] at hshort ⊢
    rw [List.length_cons, shift, List.length_map]
    omega
  · rw [pushed, before_append hpre hpost, List.filter_append,
      List.filter_eq_self.mpr fun x hx => decide_eq_true (hpost x hx),
      List.filter_eq_nil_iff.mpr fun x hx => (decide_eq_false (not_le.mpr (hpre x hx))).symm ▸ Bool.false_ne_true,
      List.nil_append]

lemma inInt_length {l : Items α} (h : l.length < 2 ^ 31) : InInt (l.length : ℤ) := by
  rw [InInt]
  omega

lemma length_placed {i : ℤ} {item : Option α} {l : Items α} (hfree : ∀ x ∈ l, x.1 ≠ i) :
    (placed i item l).length = l.length + 1 := by
  have hpartition : l.length = (before i l).length + (behind i l).length := by
    rw [before, behind, ← List.countP_eq_length_filter, ← List.countP_eq_length_filter,
      List.length_eq_countP_add_countP (fun x : ℤ × Option α => x.1 < i)]
    refine congrArg (_ + ·) (List.countP_congr fun x hx => ?_)
    have hne := hfree x hx
    simp only [decide_eq_true_eq]
    omega
  rw [placed, List.length_append, List.length_cons, hpartition]
  omega

lemma Taken.pulls {f : ℤ × Option α → ℤ × Option α} (ht : Taken found P f bag bag') (h : Ordered bag.items)
    (hcount : bag.count = bag.items.length) (hk : k = 0 ∨ k = -1)
    (hf : ∀ x ∈ bag.items, InInt (x.1 + k) → f x = (x.1 + k, x.2)) :
    Ordered bag'.items ∧ bag'.count = bag'.items.length ∧ Pulled P k bag.items bag'.items := by
  rcases ht with ⟨pre, x, post, hsplit, hx, hitems, hcount', -⟩ | ⟨-, rfl, hmiss⟩
  · rw [hsplit] at h
    obtain ⟨hpre, hpost⟩ := h.parts
    obtain ⟨hbefore, hbehind⟩ := h.around
    obtain ⟨hspre, hspost, -⟩ := List.pairwise_append.mp h.strict
    have hinInt : ∀ y ∈ post, InInt (y.1 + k) := fun y hy => by
      have hy' := h.inInt y (List.mem_append_right _ (List.mem_cons_of_mem x hy))
      have hx' := h.inInt x (List.mem_append_right _ List.mem_cons_self)
      have hlt := hpost y hy
      rw [InInt] at hx' hy' ⊢
      omega
    have hshift : post.map f = shift k post := List.map_congr_left fun y hy =>
      hf y (hsplit ▸ List.mem_append_right _ (List.mem_cons_of_mem x hy)) (hinInt y hy)
    have hlength : bag.items.length = (pre ++ shift k post).length + 1 := by
      rw [hsplit, shift, List.length_append, List.length_append, List.length_map, List.length_cons]
      omega
    have hshort := h.short
    rw [← hsplit] at hshort
    rw [hshift] at hitems
    refine ⟨?_, ?_, .inl ⟨x, hsplit ▸ List.mem_append_right _ List.mem_cons_self, hx, ?_⟩⟩
    · rw [hitems]
      refine ⟨List.pairwise_append.mpr ⟨hspre, strict_shift (List.pairwise_cons.mp hspost).2 k, fun y hy z hz => ?_⟩,
        fun y hy => ?_, by omega⟩
      · obtain ⟨w, hw, rfl⟩ := List.mem_map.mp hz
        have hyx := hpre y hy
        have hxw := hpost w hw
        dsimp only
        omega
      · rcases List.mem_append.mp hy with hy | hy
        · exact h.inInt y (List.mem_append_left _ hy)
        · obtain ⟨w, hw, rfl⟩ := List.mem_map.mp hy
          exact hinInt w hw
    · rw [hcount', hcount, hitems, wrap32_of_mem] <;> omega
    · rw [hitems, hsplit, hbefore, hbehind]
  · exact ⟨h, hcount, .inr ⟨hmiss h.strict, rfl⟩⟩

end Lists

section Contract

variable {sort : List (Option α) → List (Option α)}

structure Holds (bag : Bag α) : Prop where
  tree : ∃ T, Tree bag T
  ordered : Ordered bag.items
  count : bag.count = bag.items.length

lemma holds_create (destructor : Bool) : Holds (createTreeBag destructor : Bag α) := by
  have htree : Tree (createTreeBag destructor : Bag α) .nil := tree_create destructor
  refine ⟨⟨_, htree⟩, ?_, ?_⟩
  · rw [htree.items]
    exact ordered_nil
  · rw [htree.items]
    rfl

lemma put_follows (h : Holds bag) (item : Option α) (hfree : ∀ x ∈ bag.items, x.1 ≠ bag.items.length)
    (hshort : bag.items.length + 1 < 2 ^ 31) :
    Ensures (bag.putInBag item) fun bag' => Holds bag' ∧ bag'.items = placed bag.items.length item bag.items := by
  obtain ⟨⟨T, htree⟩, hordered, hcount⟩ := h
  refine (put_items htree item).imp fun bag' hput => ?_
  obtain ⟨htree', hentered, hcount', -⟩ := hput
  rw [hcount] at hentered hcount'
  obtain ⟨hordered', hitems⟩ := hentered.places hordered (inInt_length hordered.short) hfree hshort
  refine ⟨⟨htree', hordered', ?_⟩, hitems⟩
  rw [hcount', hitems, length_placed hfree, wrap32_of_mem] <;> omega

lemma puts_follow (items : List (Option α)) {bag : Bag α} (h : Holds bag)
    (hfree : ∀ x ∈ bag.items, x.1 < bag.items.length ∨ (bag.items.length + items.length : ℤ) ≤ x.1)
    (hshort : bag.items.length + items.length < 2 ^ 31) :
    Ensures (items.foldlM (fun self item => self.putInBag item) bag) fun bag' => Holds bag' ∧
      bag'.items = items.foldl (fun l item => placed l.length item l) bag.items := by
  induction items generalizing bag with
  | nil => exact ensures_pure ⟨h, rfl⟩
  | cons item items ih =>
    rw [List.length_cons] at hfree hshort
    have hfree₁ : ∀ x ∈ bag.items, x.1 ≠ bag.items.length := fun x hx => by
      have hx' := hfree x hx
      omega
    rw [List.foldlM_cons]
    refine (put_follows h item hfree₁ (by omega)).bind fun bag₁ hput => ?_
    obtain ⟨h₁, hitems⟩ := hput
    have hlength : bag₁.items.length = bag.items.length + 1 := by rw [hitems, length_placed hfree₁]
    rw [List.foldl_cons, ← hitems]
    refine ih h₁ (fun x hx => ?_) (by omega)
    rw [hlength]
    rw [hitems, placed] at hx
    rcases List.mem_append.mp hx with hx | hx
    · have hx' := hfree x (List.mem_filter.mp hx).1
      omega
    · rcases List.mem_cons.mp hx with rfl | hx
      · left
        dsimp only
        omega
      · have hx' := hfree x (List.mem_filter.mp hx).1
        omega

lemma insert_follows (h : Holds bag) (i : ℤ) (item : Option α) (hc : Fits bag.items (.insert i item)) :
    Ensures (bag.insertInBag i item) fun bag' => Holds bag' ∧ bag'.items = pushed i item bag.items := by
  obtain ⟨⟨T, htree⟩, hordered, hcount⟩ := h
  obtain ⟨hi, hnext, hshort⟩ := hc
  refine (insert_items htree i item).imp fun bag' hinsert => ?_
  obtain ⟨htree', hentered, hcount', -⟩ := hinsert
  obtain ⟨hordered', hitems⟩ := hentered.pushes hordered hi hnext hshort
  obtain ⟨pre, post, hsplit, hsplit', -⟩ := hentered
  have hlength : bag'.items.length = bag.items.length + 1 := by
    rw [hsplit', hsplit, List.length_append, List.length_append, List.length_cons, List.length_map]
    omega
  refine ⟨⟨htree', hordered', ?_⟩, hitems⟩
  rw [hcount', hcount, hlength, wrap32_of_mem] <;> omega

lemma replace_some_follows (h : Holds bag) (i : ℤ) (item : α) (hi : InInt i) (hshort : bag.items.length + 1 < 2 ^ 31) :
    Ensures (bag.replaceInBag i (some item)) fun bag' => Holds bag' ∧
      bag'.items = placed i (some item) bag.items := by
  obtain ⟨⟨T, htree⟩, hordered, hcount⟩ := h
  refine (replace_some_items htree i item).imp fun bag' hreplace => ?_
  obtain ⟨htree', ⟨pre, x, post, hsplit, rfl, hitems, hcount', -⟩ | ⟨hmiss, hentered, hcount', -⟩⟩ := hreplace
  · rw [hsplit] at hordered
    obtain ⟨hpre, hpost⟩ := hordered.parts
    obtain ⟨hbefore, hbehind⟩ := hordered.around
    obtain ⟨hspre, hspost, -⟩ := List.pairwise_append.mp hordered.strict
    have hlength : bag'.items.length = bag.items.length := by
      rw [hitems, hsplit, List.length_append, List.length_append, List.length_cons, List.length_cons]
    refine ⟨⟨htree', ⟨?_, fun y hy => ?_, ?_⟩, ?_⟩, ?_⟩
    · rw [hitems]
      exact strict_enter hspre (List.pairwise_cons.mp hspost).2 hpre hpost
    · rw [hitems] at hy
      rcases List.mem_append.mp hy with hy | hy
      · exact hordered.inInt y (List.mem_append_left _ hy)
      · rcases List.mem_cons.mp hy with rfl | hy
        · exact hi
        · exact hordered.inInt y (List.mem_append_right _ (List.mem_cons_of_mem x hy))
    · rw [hlength]
      omega
    · rw [hcount', hcount, hlength]
    · rw [hitems, placed, hsplit, hbefore, hbehind]
  · obtain ⟨hordered', hitems⟩ := hentered.places hordered hi (hmiss hordered.strict) hshort
    refine ⟨⟨htree', hordered', ?_⟩, hitems⟩
    rw [hcount', hcount, hitems, length_placed (hmiss hordered.strict), wrap32_of_mem] <;> omega

lemma ordered_zipIdx (items : List (Option α)) (hshort : items.length < 2 ^ 31) :
    Ordered (items.zipIdx.map fun x => ((x.2 : ℤ), x.1)) := by
  refine ⟨List.pairwise_map.mpr ?_, List.forall_mem_map.mpr fun x hx => ?_, ?_⟩
  · refine List.pairwise_iff_getElem.mpr fun m n hm hn hmn => ?_
    rw [List.getElem_zipIdx, List.getElem_zipIdx]
    dsimp only
    omega
  · have hlt := (List.mem_zipIdx hx).2.1
    rw [InInt]
    omega
  · rwa [List.length_map, List.length_zipIdx]

lemma sort_follows (hsort : ∀ l, (sort l).length = l.length) (h : Holds bag) :
    Ensures (bag.sortBag sort) fun bag' => Holds bag' ∧ Changes sort bag.items .sort bag'.items := by
  obtain ⟨⟨T, htree⟩, hordered, hcount⟩ := h
  refine (sort_items hsort htree).imp fun bag' hsorted => ?_
  obtain ⟨htree', hcount', -, hfull, hempty⟩ := hsorted
  have hlength : (sort (bag.items.map Prod.snd)).length = bag.items.length := by rw [hsort, List.length_map]
  have hitems : Changes sort bag.items .sort bag'.items := by
    by_cases hzero : bag.count = 0
    · have hnil : bag.items = [] := List.length_eq_zero_iff.mp (by omega)
      have hnil' : sort (bag.items.map Prod.snd) = [] := List.length_eq_zero_iff.mp (by rw [hlength, hnil]; rfl)
      rw [Changes.eq_def]
      dsimp only
      rw [hempty hzero, hnil', hnil]
      rfl
    · exact hfull hzero
  have heq : bag'.items = (sort (bag.items.map Prod.snd)).zipIdx.map fun x => ((x.2 : ℤ), x.1) := hitems
  refine ⟨⟨htree', ?_, ?_⟩, hitems⟩
  · rw [heq]
    exact ordered_zipIdx _ (by rw [hlength]; exact hordered.short)
  · rw [hcount', hcount, heq, List.length_map, List.length_zipIdx, hlength]

lemma Holds.get (h : Holds bag) (i : ℤ) : bag.getFromBag i = some ((bag.items.find? (·.1 = i)).bind Prod.snd) := by
  obtain ⟨⟨T, htree⟩, hordered, -⟩ := h
  obtain ⟨a, ha, hfound⟩ := search_found htree i
  rw [Bag.getFromBag, ha]
  refine congrArg some ?_
  rcases hfound with ⟨hmem, hi⟩ | ⟨rfl, hmiss⟩
  · rw [if_pos (htree.mem_ne_nil hmem)]
    obtain ⟨pre, post, hsplit⟩ := List.append_of_mem hmem
    have hitems : bag.items = pre.map bag.itemAt ++ bag.itemAt a :: post.map bag.itemAt := by
      rw [htree.items, hsplit, List.map_append, List.map_cons]
    rw [hitems] at hordered ⊢
    have hnone : (pre.map bag.itemAt).find? (fun x => x.1 = i) = none := by
      refine List.find?_eq_none.mpr fun x hx => ?_
      have hlt := hordered.parts.1 x hx
      rw [hi] at hlt
      exact (decide_eq_false hlt.ne).symm ▸ Bool.false_ne_true
    have hfirst : (bag.itemAt a :: post.map bag.itemAt).find? (fun x => x.1 = i) = some (bag.itemAt a) :=
      List.find?_cons_of_pos (decide_eq_true hi)
    rw [List.find?_append, hnone, Option.none_or, hfirst]
    rfl
  · rw [if_neg fun hne => hne rfl]
    have hfree : ∀ x ∈ bag.items, ¬x.1 = i :=
      (mem_items htree).mpr (hmiss ((pairwise_items htree (· < ·)).mp hordered.strict))
    have hnone : bag.items.find? (fun x => x.1 = i) = none := by
      refine List.find?_eq_none.mpr fun x hx => ?_
      exact (decide_eq_false (hfree x hx)).symm ▸ Bool.false_ne_true
    rw [hnone]
    rfl

/-- What the calls that read tell is the list of the items. -/
structure Reads [DecidableEq α] (bag : Bag α) : Prop where
  count : bag.count = bag.items.length
  order : bag.items.Pairwise fun x y => x.1 < y.1
  walks : ∃ nodes, bag.forward = some nodes ∧ bag.backward = some nodes.reverse ∧ nodes.map bag.itemAt = bag.items
  get : ∀ i, bag.getFromBag i = some ((bag.items.find? (·.1 = i)).bind Prod.snd)
  first : ∀ item, Ensures (bag.getFirstInBag item) fun i =>
    (∃ x ∈ bag.items, x.2 = item ∧ x.1 = i) ∨ (∀ x ∈ bag.items, x.2 ≠ item) ∧ i = notFound
  counts : ∀ item, bag.countInBag item = some ((bag.items.map Prod.snd).count item : ℤ)
  maps : ∀ (σ : Type) (function : Option α → σ → σ) (data : σ),
    bag.mapBag function data = some (bag.items.foldl (fun s x => function x.2 s) data)
  finds : (∀ x ∈ bag.items, x.1 ≠ notFound) → ∀ match?,
    bag.findInBag match? = some ((bag.items.find? fun x => match? x.2).elim notFound Prod.fst)

lemma Holds.reads [DecidableEq α] (h : Holds bag) : Reads bag := by
  have hget := h.get
  obtain ⟨⟨T, htree⟩, hordered, hcount⟩ := h
  have hroot : bag.links.root = T.addr := htree.sound.woven.linked.ctx
  have hlinked := htree.sound.woven.linked.tree
  have hlength := htree.sound.length_lt
  have hfuel : T.addrs.length < bag.fuel := by
    rw [Bag.fuel]
    omega
  have hshort := hordered.short
  rw [htree.items, List.length_map] at hshort
  refine ⟨hcount, hordered.strict, ⟨T.addrs, htree.forward, htree.backward, htree.items.symm⟩, hget, fun item => ?_,
    fun item => ?_, fun σ function data => ?_, fun hindex match? => ?_⟩
  · refine (find_found htree item).bind fun a ha => ensures_pure ?_
    rcases ha with ⟨hmem, hitem⟩ | ⟨rfl, hmiss⟩
    · rw [if_pos (htree.mem_ne_nil hmem), htree.items]
      exact .inl ⟨bag.itemAt a, List.mem_map_of_mem hmem, hitem, rfl⟩
    · rw [if_neg fun hne => hne rfl]
      exact .inr ⟨(mem_items htree).mpr (hmiss ((pairwise_items htree (· < ·)).mp hordered.strict)), rfl⟩
  · rw [Bag.countInBag, hroot, treeCount_counts item hlinked hfuel hshort, htree.items, List.map_map]
    rfl
  · rw [Bag.mapBag, hroot, mapTree_folds function data hlinked hfuel, htree.items, List.foldl_map]
    rfl
  · rw [Bag.findInBag, hroot, findInTree_finds match? hlinked hfuel ((mem_items htree).mp hindex), htree.items]

variable [DecidableEq α]

lemma append_follows (h : Holds bag) (other : TreeBag α) (hc : Fits bag.items (.append other)) :
    Ensures (bag.call sort (.append other)) fun bag' => Holds bag' ∧
      Changes sort bag.items (.append other) bag'.items := by
  obtain ⟨other, T₂, h₂⟩ := other
  have hdata : other.items.map Prod.snd = T₂.addrs.map other.data := by
    rw [h₂.items, List.map_map]
    rfl
  rw [Fits, hdata] at hc
  rw [Bag.call, Bag.appendBag, h₂.forward]
  refine (puts_follow _ h hc.1 hc.2).imp fun bag' hputs => ⟨hputs.1, ?_⟩
  change bag'.items = ((other.items.map Prod.snd).takeWhile Option.isSome).foldl _ _
  rw [hdata]
  exact hputs.2

lemma call_follows (hsort : ∀ l, (sort l).length = l.length) (h : Holds bag) (c : Call α) (hbalance : bag.MayBalance c)
    (hfits : Fits bag.items c) :
    Ensures (bag.call sort c) fun bag' => Holds bag' ∧ Changes sort bag.items c bag'.items := by
  obtain ⟨T, htree⟩ := h.tree
  have pulls {o : Option (Bag α)} {found : Option ℕ} {P : ℤ × Option α → Prop} {f : ℤ × Option α → ℤ × Option α} {k : ℤ}
      (ho : Ensures o fun bag' => (∃ T', Tree bag' T') ∧ Taken found P f bag bag') (hk : k = 0 ∨ k = -1)
      (hf : ∀ x ∈ bag.items, InInt (x.1 + k) → f x = (x.1 + k, x.2)) :
      Ensures o fun bag' => Holds bag' ∧ Pulled P k bag.items bag'.items := by
    refine ho.imp fun bag' htaken => ?_
    obtain ⟨hordered, hcount, hpulled⟩ := htaken.2.pulls h.ordered h.count hk hf
    exact ⟨⟨htaken.1, hordered, hcount⟩, hpulled⟩
  have hid : ∀ x ∈ bag.items, InInt (x.1 + 0) → id x = (x.1 + 0, x.2) := fun x _ _ => by rw [add_zero, id]
  have hmoved : ∀ x ∈ bag.items, InInt (x.1 + -1) → moved (-1) x = (x.1 + -1, x.2) := fun x _ hx =>
    congrArg (Prod.mk · x.2) (wrap32_of_mem hx.1 hx.2)
  cases c with
  | put item => exact put_follows h item hfits.1 hfits.2
  | append other => exact append_follows h other hfits
  | insert i item => exact insert_follows h i item hfits
  | replace i item =>
    cases item with
    | none => exact pulls (replace_none_items htree i hbalance.1 hbalance.2) (.inl rfl) hid
    | some item => exact replace_some_follows h i item hfits.1 hfits.2
  | delete i => exact pulls (delete_taken htree (search_found htree i) hbalance) (.inr rfl) hmoved
  | remove item => exact pulls (delete_taken htree (find_found htree item) hbalance) (.inr rfl) hmoved
  | erase i => exact pulls (erase_items htree i hbalance) (.inl rfl) hid
  | sort => exact sort_follows hsort h
  | empty =>
    refine (empty_items htree).imp fun bag' hempty => ?_
    obtain ⟨htree', hitems, hcount, -⟩ := hempty
    refine ⟨⟨⟨_, htree'⟩, ?_, ?_⟩, hitems⟩
    · rw [hitems]
      exact ordered_nil
    · rw [hcount, hitems]
      rfl

def Bag.MayCall (self : Bag α) (c : Call α) : Prop := self.MayBalance c ∧ Fits self.items c

instance (bag : Bag α) (c : Call α) : Decidable (bag.MayCall c) := inferInstanceAs (Decidable (_ ∧ _))

theorem run_refines (sort : List (Option α) → List (Option α)) (hsort : ∀ l, (sort l).length = l.length)
    (destructor : Bool) (calls : List (Call α))
    (hcalls : Admits (Bag.call sort) Bag.MayCall (createTreeBag destructor) calls) :
    Completes (Bag.call sort) (fun bag c bag' => Changes sort bag.items c bag'.items ∧ Reads bag')
      (createTreeBag destructor) calls := by
  refine completes (P := Holds) (fun bag c h hc => ?_) (holds_create destructor) hcalls
  exact (call_follows hsort h c hc.1 hc.2).imp fun bag' hbag' => ⟨hbag'.1, hbag'.2, hbag'.1.reads⟩

theorem run_refines_sample :
    Completes (Bag.call id) (fun bag c bag' => Changes id bag.items c bag'.items ∧ Reads bag')
      (createTreeBag true) sampleCalls :=
  run_refines id (fun _ => rfl) true sampleCalls (by decide +kernel)

end Contract

section Destructors

variable {found : Option ℕ} {P : ℤ × Option α → Prop} {sort : List (Option α) → List (Option α)}

/-- The node that is freed has the item that is taken out. -/
def Bag.TakesOwn (self : Bag α) (found : Option ℕ) : Prop :=
  ∀ a ∈ found, a ≠ nil → ∀ y ∈ self.spliced a, self.data y = self.data a

lemma Taken.destroys {f : ℤ × Option α → ℤ × Option α} (ht : Taken found P f bag bag') (hstrict : Ordered bag.items)
    (hdestructor : bag.destructor = true) {gone : List (Option α)} (hone : ∀ x ∈ bag.items, P x → gone = [x.2])
    (hnone : (∀ x ∈ bag.items, ¬P x) → gone = []) :
    bag'.destructor = true ∧ (bag'.destroyed = bag.destroyed ++ gone ↔ bag.TakesOwn found) := by
  rcases ht with ⟨pre, x, post, hsplit, hx, -, -, hkept, a, y, rfl, hne, rfl, hspliced, hdestroyed⟩ | ⟨rfl, rfl, hmiss⟩
  · rw [if_pos hdestructor] at hdestroyed
    refine ⟨hkept.trans hdestructor, ?_⟩
    rw [hdestroyed, hone _ (hsplit ▸ List.mem_append_right _ List.mem_cons_self) hx, List.append_cancel_left_eq]
    constructor
    · intro heq b hb _ z hz
      obtain rfl := Option.some.inj hb
      obtain rfl : y = z := Option.some.inj (hspliced.symm.trans hz)
      exact List.singleton_injective heq
    · exact fun hown => congrArg (fun item => [item]) (hown a rfl hne y hspliced)
  · refine ⟨hdestructor, iff_of_true ?_ ?_⟩
    · rw [hnone (hmiss hstrict.strict), List.append_nil]
    · intro b hb hne
      exact absurd (Option.some.inj hb).symm hne

lemma Quiet.destroys (h : Quiet bag bag') (hdestructor : bag.destructor = true) :
    bag'.destructor = true ∧ (bag'.destroyed = bag.destroyed ++ [] ↔ True) :=
  ⟨h.destructor.trans hdestructor, iff_of_true (h.destroyed.trans (List.append_nil _).symm) trivial⟩

variable [DecidableEq α]

instance (bag : Bag α) (found : Option ℕ) : Decidable (bag.TakesOwn found) :=
  inferInstanceAs (Decidable (∀ a ∈ found, a ≠ nil → ∀ y ∈ bag.spliced a, bag.data y = bag.data a))

def Bag.MayDestroy (self : Bag α) : Call α → Prop
  | .put _ | .append _ | .insert _ _ | .replace _ (some _) | .sort | .empty => True
  | .replace index none | .delete index | .erase index => self.TakesOwn (self.search index)
  | .remove item => self.TakesOwn (self.treeFind item self.fuel self.links.root)

instance (bag : Bag α) : ∀ c, Decidable (bag.MayDestroy c)
  | .put _ | .append _ | .insert _ _ | .replace _ (some _) | .sort | .empty => inferInstanceAs (Decidable True)
  | .replace _ none | .delete _ | .erase _ | .remove _ => inferInstanceAs (Decidable (Bag.TakesOwn _ _))

/-- The items that a call takes out. -/
def gone (l : Items α) : Call α → List (Option α)
  | .put _ | .append _ | .insert _ _ | .replace _ (some _) | .sort => []
  | .replace index none | .delete index | .erase index => ((l.find? (·.1 = index)).map Prod.snd).toList
  | .remove item => if item ∈ l.map Prod.snd then [item] else []
  | .empty => l.map Prod.snd

lemma find_index {l : Items α} (h : Ordered l) {x : ℤ × Option α} (hx : x ∈ l) : l.find? (·.1 = x.1) = some x := by
  obtain ⟨pre, post, rfl⟩ := List.append_of_mem hx
  have hnone : pre.find? (fun y => y.1 = x.1) = none := by
    refine List.find?_eq_none.mpr fun y hy => ?_
    exact (decide_eq_false (h.parts.1 y hy).ne).symm ▸ Bool.false_ne_true
  have hfirst : (x :: post).find? (fun y => y.1 = x.1) = some x := List.find?_cons_of_pos (decide_eq_true rfl)
  rw [List.find?_append, hnone, Option.none_or, hfirst]

lemma call_destroys (hsort : ∀ l, (sort l).length = l.length) (h : Holds bag) (hdestructor : bag.destructor = true)
    (c : Call α) (hc : bag.MayBalance c) :
    Ensures (bag.call sort c) fun bag' => bag'.destructor = true ∧
      (bag'.destroyed = bag.destroyed ++ gone bag.items c ↔ bag.MayDestroy c) := by
  obtain ⟨⟨T, htree⟩, hordered, -⟩ := h
  have hone (i : ℤ) : ∀ x ∈ bag.items, x.1 = i → ((bag.items.find? (·.1 = i)).map Prod.snd).toList = [x.2] := by
    rintro x hx rfl
    rw [find_index hordered hx]
    rfl
  have hnone (i : ℤ) (hmiss : ∀ x ∈ bag.items, ¬x.1 = i) :
      ((bag.items.find? (·.1 = i)).map Prod.snd).toList = [] := by
    rw [List.find?_eq_none.mpr fun x hx => (decide_eq_false (hmiss x hx)).symm ▸ Bool.false_ne_true]
    rfl
  cases c with
  | put item => exact (put_items htree item).imp fun _ hput => hput.2.2.2.destroys hdestructor
  | append other => exact (append_tree other htree).imp fun _ happend => happend.2.destroys hdestructor
  | insert i item => exact (insert_items htree i item).imp fun _ hinsert => hinsert.2.2.2.destroys hdestructor
  | replace i item =>
    cases item with
    | none =>
      refine (replace_none_items htree i hc.1 hc.2).imp fun _ htaken => ?_
      exact htaken.2.destroys hordered hdestructor (hone i) (hnone i)
    | some item =>
      refine (replace_some_items htree i item).imp fun _ hreplaced => ?_
      rcases hreplaced.2 with ⟨_, _, _, -, -, -, -, hquiet⟩ | ⟨-, -, -, hquiet⟩
      · exact hquiet.destroys hdestructor
      · exact hquiet.destroys hdestructor
  | delete i =>
    refine (delete_taken htree (search_found htree i) hc).imp fun _ htaken => ?_
    exact htaken.2.destroys hordered hdestructor (hone i) (hnone i)
  | remove item =>
    refine (delete_taken htree (find_found htree item) hc).imp fun _ htaken => ?_
    refine htaken.2.destroys hordered hdestructor (fun x hx hitem => ?_) fun hmiss => ?_
    · subst hitem
      exact if_pos (List.mem_map_of_mem hx)
    · refine if_neg fun hmem => ?_
      obtain ⟨x, hx, hitem⟩ := List.mem_map.mp hmem
      exact hmiss x hx hitem
  | erase i =>
    refine (erase_items htree i hc).imp fun _ htaken => ?_
    exact htaken.2.destroys hordered hdestructor (hone i) (hnone i)
  | sort => exact (sort_items hsort htree).imp fun _ hsorted => hsorted.2.2.1.destroys hdestructor
  | empty =>
    refine (empty_items htree).imp fun bag' hempty => ?_
    obtain ⟨-, -, -, hkept, hdestroyed⟩ := hempty
    rw [if_pos hdestructor] at hdestroyed
    exact ⟨hkept.trans hdestructor, iff_of_true hdestroyed trivial⟩

/-- A node of two children hands the destructor the item of the next node, which stays in the bag. -/
theorem run_destroys (sort : List (Option α) → List (Option α)) (hsort : ∀ l, (sort l).length = l.length)
    (calls : List (Call α)) (hcalls : Admits (Bag.call sort) Bag.MayCall (createTreeBag true) calls) :
    Completes (Bag.call sort) (fun bag c bag' => bag'.destroyed = bag.destroyed ++ gone bag.items c)
        (createTreeBag true) calls ↔
      Admits (Bag.call sort) Bag.MayDestroy (createTreeBag true) calls := by
  refine completes_iff (P := fun bag => Holds bag ∧ bag.destructor = true) (fun bag c h hc => ?_)
    ⟨holds_create true, rfl⟩ hcalls
  obtain ⟨t, ht, hholds, -⟩ := call_follows hsort h.1 c hc.1 hc.2
  obtain ⟨u, hu, hdestructor, hiff⟩ := call_destroys hsort h.1 h.2 c hc.1
  obtain rfl : t = u := Option.some.inj (ht.symm.trans hu)
  exact ⟨t, ht, ⟨hholds, hdestructor⟩, hiff⟩

theorem run_destroys_sample :
    Completes (Bag.call id) (fun bag c bag' => bag'.destroyed = bag.destroyed ++ gone bag.items c)
        (createTreeBag true) sampleCalls ↔
      Admits (Bag.call id) Bag.MayDestroy (createTreeBag true) sampleCalls :=
  run_destroys id (fun _ => rfl) sampleCalls (by decide +kernel)

end Destructors

end Xperimentum.WMcore.BagTree
