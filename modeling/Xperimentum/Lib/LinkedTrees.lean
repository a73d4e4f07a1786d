import Mathlib.Tactic

/-! Binary trees of nodes that are linked to their parent and their two children, where 0 is no node. A part of a
tree is seen with the frames that it hangs in. -/

namespace Xperimentum.Lib.LinkedTrees

inductive Side where
  | left
  | right
  deriving DecidableEq

def Side.other : Side → Side
  | .left => .right
  | .right => .left

structure Links where
  parent : ℕ → ℕ
  child : Side → ℕ → ℕ
  root : ℕ

namespace Links

def setParent (k : Links) (a p : ℕ) : Links := { k with parent := Function.update k.parent a p }

def setChild (k : Links) (s : Side) (a c : ℕ) : Links :=
  { k with child := Function.update k.child s (Function.update (k.child s) a c) }

/-- The place of `a` below its parent `p` is taken by `b`. -/
def replaceChild (k : Links) (p a b : ℕ) : Links :=
  if p = 0 then { k with root := b }
  else if k.child .left p = a then k.setChild .left p b
  else k.setChild .right p b

/-- The child of `a` on the side away from `s` takes its place, with `a` below it on the side `s`. -/
def rotate (s : Side) (a : ℕ) (k : Links) : Links :=
  let b := k.child s.other a
  let k := k.setChild s.other a (k.child s b)
  let k := k.setParent (k.child s b) a
  let k := k.setParent b (k.parent a)
  let k := k.replaceChild (k.parent a) a b
  let k := k.setChild s b a
  k.setParent a b

/-- The node `a`, which has no other child, gives its place to `x`. -/
def splice (a x : ℕ) (k : Links) : Links :=
  let k := k.setParent x (k.parent a)
  k.replaceChild (k.parent a) a x

/-- The node `a` is hung below `p`, on the side `s`. -/
def attach (s : Side) (p a : ℕ) (k : Links) : Links :=
  let k := k.setParent a p
  if p = 0 then { k with root := a } else k.setChild s p a

end Links

inductive Shape where
  | nil
  | node (a : ℕ) (l r : Shape)

namespace Shape

def mk : Side → ℕ → Shape → Shape → Shape
  | .left, a, x, y => .node a x y
  | .right, a, x, y => .node a y x

def addr : Shape → ℕ
  | .nil => 0
  | .node a _ _ => a

/-- The nodes from left to right. -/
def addrs : Shape → List ℕ
  | .nil => []
  | .node a l r => l.addrs ++ a :: r.addrs

end Shape

structure Frame where
  side : Side
  a : ℕ
  sib : Shape

namespace Frame

def plug (f : Frame) (t : Shape) : Shape := .mk f.side f.a t f.sib

end Frame

/-- The node that a part hangs at. -/
def top : List Frame → ℕ
  | [] => 0
  | f :: _ => f.a

def ctxAddrs : List Frame → List ℕ
  | [] => []
  | f :: fs => f.a :: (f.sib.addrs ++ ctxAddrs fs)

/-- All nodes from left to right, where those of the part are `mid`. -/
def inorder : List Frame → List ℕ → List ℕ
  | [], mid => mid
  | ⟨.left, a, sib⟩ :: fs, mid => inorder fs (mid ++ a :: sib.addrs)
  | ⟨.right, a, sib⟩ :: fs, mid => inorder fs (sib.addrs ++ a :: mid)

def Linked (k : Links) : ℕ → Shape → Prop
  | _, .nil => True
  | p, .node a l r =>
    a ≠ 0 ∧ k.parent a = p ∧ k.child .left a = l.addr ∧ k.child .right a = r.addr ∧ Linked k a l ∧ Linked k a r

def CtxLinked (k : Links) : ℕ → List Frame → Prop
  | hole, [] => k.root = hole
  | hole, f :: fs =>
    f.a ≠ 0 ∧ k.parent f.a = top fs ∧ k.child f.side f.a = hole ∧ k.child f.side.other f.a = f.sib.addr ∧
      Linked k f.a f.sib ∧ CtxLinked k f.a fs

/-- The links are those of the part `t` in the frames `fs`. -/
structure At (k : Links) (fs : List Frame) (t : Shape) : Prop where
  ctx : CtxLinked k t.addr fs
  tree : Linked k (top fs) t
  nodup : (t.addrs ++ ctxAddrs fs).Nodup
  leaf : ∀ s, k.child s 0 = 0

variable {k k' : Links} {fs : List Frame} {f : Frame} {s : Side} {a b c p q hole : ℕ} {t x y m : Shape}

@[simp] lemma other_other (s : Side) : s.other.other = s := by
  cases s <;> rfl

@[simp] lemma other_ne (s : Side) : s.other ≠ s := by
  cases s <;> decide

@[simp] lemma ne_other (s : Side) : s ≠ s.other := by
  cases s <;> decide

lemma child_setChild (k : Links) (s : Side) (a c : ℕ) (s' : Side) (d : ℕ) :
    (k.setChild s a c).child s' d = if s' = s ∧ d = a then c else k.child s' d := by
  rw [Links.setChild]
  dsimp only
  by_cases hs : s' = s
  · subst hs
    rw [Function.update_self, Function.update_apply]
    simp
  · rw [Function.update_of_ne hs, if_neg (fun h => hs h.1)]

@[simp] lemma parent_setChild (k : Links) (s : Side) (a c : ℕ) : (k.setChild s a c).parent = k.parent := rfl

@[simp] lemma root_setChild (k : Links) (s : Side) (a c : ℕ) : (k.setChild s a c).root = k.root := rfl

lemma parent_setParent (k : Links) (a p d : ℕ) : (k.setParent a p).parent d = if d = a then p else k.parent d :=
  Function.update_apply _ _ _ _

@[simp] lemma child_setParent (k : Links) (a p : ℕ) : (k.setParent a p).child = k.child := rfl

@[simp] lemma root_setParent (k : Links) (a p : ℕ) : (k.setParent a p).root = k.root := rfl

@[simp] lemma addr_mk (s : Side) (a : ℕ) (x y : Shape) : (Shape.mk s a x y).addr = a := by
  cases s <;> rfl

lemma linked_mk : Linked k p (.mk s a x y) ↔
    a ≠ 0 ∧ k.parent a = p ∧ k.child s a = x.addr ∧ k.child s.other a = y.addr ∧ Linked k a x ∧ Linked k a y := by
  cases s
  · rfl
  · rw [Shape.mk, Linked, Side.other]
    tauto

lemma addrs_mk (s : Side) (a : ℕ) (x y : Shape) : (Shape.mk s a x y).addrs.Perm (a :: (x.addrs ++ y.addrs)) := by
  cases s
  · exact List.perm_middle
  · exact List.perm_middle.trans (List.Perm.cons a List.perm_append_comm)

lemma addr_mem (h : t.addr ≠ 0) : t.addr ∈ t.addrs := by
  cases t with
  | nil => exact absurd rfl h
  | node a l r => exact List.mem_append_right _ List.mem_cons_self

lemma Linked.ne_zero (h : Linked k p t) (hc : c ∈ t.addrs) : c ≠ 0 := by
  induction t generalizing p with
  | nil => cases hc
  | node a l r ihl ihr =>
    obtain ⟨ha, -, -, -, hl, hr⟩ := h
    rcases List.mem_append.mp hc with hc | hc
    · exact ihl hl hc
    · rcases List.mem_cons.mp hc with rfl | hc
      · exact ha
      · exact ihr hr hc

/-- The part hangs at another node now, and the links within it are the same. -/
lemma Linked.move (h : Linked k p t) (hroot : t.addr ≠ 0 → k'.parent t.addr = q)
    (hparent : ∀ c ∈ t.addrs, c ≠ t.addr → k'.parent c = k.parent c)
    (hchild : ∀ c ∈ t.addrs, ∀ s, k'.child s c = k.child s c) (hnodup : t.addrs.Nodup) : Linked k' q t := by
  induction t generalizing p q with
  | nil => trivial
  | node a l r ihl ihr =>
    obtain ⟨ha, -, hl, hr, hlinkl, hlinkr⟩ := h
    have hmem : a ∈ (Shape.node a l r).addrs := List.mem_append_right _ List.mem_cons_self
    obtain ⟨hnl, hnr, hdisjoint⟩ := List.nodup_append.mp hnodup
    obtain ⟨har, hnr⟩ := List.nodup_cons.mp hnr
    have hsub {c : ℕ} (hc : c ∈ l.addrs ∨ c ∈ r.addrs) : c ∈ (Shape.node a l r).addrs ∧ c ≠ a := by
      rcases hc with hc | hc
      · exact ⟨List.mem_append_left _ hc, hdisjoint c hc a List.mem_cons_self⟩
      · exact ⟨List.mem_append_right _ (List.mem_cons_of_mem a hc), fun h => har (h ▸ hc)⟩
    have hkeep {c : ℕ} (hc : c ∈ l.addrs ∨ c ∈ r.addrs) : k'.parent c = k.parent c :=
      hparent c (hsub hc).1 (hsub hc).2
    refine ⟨ha, hroot ha, (hchild a hmem _).trans hl, (hchild a hmem _).trans hr, ?_, ?_⟩
    · refine ihl hlinkl (fun hne => ?_) (fun c hc _ => hkeep (.inl hc)) (fun c hc => hchild c (hsub (.inl hc)).1) hnl
      rw [hkeep (.inl (addr_mem hne))]
      cases l with
      | nil => exact absurd rfl hne
      | node => exact hlinkl.2.1
    · refine ihr hlinkr (fun hne => ?_) (fun c hc _ => hkeep (.inr hc)) (fun c hc => hchild c (hsub (.inr hc)).1) hnr
      rw [hkeep (.inr (addr_mem hne))]
      cases r with
      | nil => exact absurd rfl hne
      | node => exact hlinkr.2.1

lemma Linked.parent_addr (h : Linked k p t) (hne : t.addr ≠ 0) : k.parent t.addr = p := by
  cases t with
  | nil => exact absurd rfl hne
  | node => exact h.2.1

lemma Linked.congr (h : Linked k p t) (hparent : ∀ c ∈ t.addrs, k'.parent c = k.parent c)
    (hchild : ∀ c ∈ t.addrs, ∀ s, k'.child s c = k.child s c) (hnodup : t.addrs.Nodup) : Linked k' p t :=
  h.move (fun hne => (hparent _ (addr_mem hne)).trans (h.parent_addr hne)) (fun c hc _ => hparent c hc) hchild hnodup

/-- The frames around a part, when something else hangs in them. -/
lemma CtxLinked.replace (h : CtxLinked k hole fs) {hole' : ℕ} (hparent : ∀ c ∈ ctxAddrs fs, k'.parent c = k.parent c)
    (hchild : ∀ c ∈ ctxAddrs fs, ∀ s, (∀ f ∈ fs.head?, ¬(c = f.a ∧ s = f.side)) → k'.child s c = k.child s c)
    (hhole : ∀ f ∈ fs.head?, k'.child f.side f.a = hole') (hroot : k'.root = if fs = [] then hole' else k.root)
    (hnodup : (ctxAddrs fs).Nodup) : CtxLinked k' hole' fs := by
  induction fs generalizing hole hole' with
  | nil => exact hroot.trans (if_pos rfl)
  | cons f fs ih =>
    obtain ⟨ha, hpar, -, hsib, hlinked, hctx⟩ := h
    obtain ⟨hafs, hnodup⟩ := List.nodup_cons.mp hnodup
    obtain ⟨hns, hnfs, hdisjoint⟩ := List.nodup_append.mp hnodup
    have hmem {c : ℕ} (hc : c ∈ f.sib.addrs ∨ c ∈ ctxAddrs fs) : c ∈ ctxAddrs (f :: fs) :=
      List.mem_cons_of_mem _ (List.mem_append.mpr hc)
    have hrest {c : ℕ} (hc : c ∈ f.sib.addrs ∨ c ∈ ctxAddrs fs) (s : Side) : k'.child s c = k.child s c := by
      refine hchild c (hmem hc) s fun g hg h => ?_
      obtain rfl := Option.some.inj hg
      exact hafs (h.1 ▸ List.mem_append.mpr hc)
    refine ⟨ha, (hparent _ List.mem_cons_self).trans hpar, hhole f rfl, ?_, ?_, ?_⟩
    · refine (hchild f.a List.mem_cons_self _ fun g hg h => ?_).trans hsib
      obtain rfl := Option.some.inj hg
      exact other_ne _ h.2
    · exact hlinked.congr (fun c hc => hparent c (hmem (.inl hc))) (fun c hc => hrest (.inl hc)) hns
    · refine ih hctx (fun c hc => hparent c (hmem (.inr hc))) (fun c hc s _ => hrest (.inr hc) s) (fun g hg => ?_) ?_ hnfs
      · cases fs with
        | nil => cases hg
        | cons g' fs =>
          obtain rfl := Option.some.inj hg
          exact (hrest (.inr List.mem_cons_self) _).trans hctx.2.2.1
      · rw [hroot, if_neg (List.cons_ne_nil f fs)]
        split_ifs with hfs
        · subst hfs
          exact hctx
        · rfl

section Zipper

lemma At.up (h : At k (f :: fs) t) : At k fs (f.plug t) := by
  obtain ⟨⟨ha, hpar, hhole, hsib, hlinked, hctx⟩, htree, hnodup, hleaf⟩ := h
  refine ⟨?_, linked_mk.mpr ⟨ha, hpar, hhole, hsib, htree, hlinked⟩, ?_, hleaf⟩
  · rw [Frame.plug, addr_mk]
    exact hctx
  · have hperm : (t.addrs ++ ctxAddrs (f :: fs)).Perm ((f.plug t).addrs ++ ctxAddrs fs) := by
      refine List.perm_middle.trans ?_
      rw [← List.append_assoc]
      exact (addrs_mk f.side f.a t f.sib).symm.append_right (ctxAddrs fs)
    exact hperm.nodup_iff.mp hnodup

lemma At.down (h : At k fs (.mk s a x y)) : At k (⟨s, a, y⟩ :: fs) x := by
  obtain ⟨hctx, htree, hnodup, hleaf⟩ := h
  obtain ⟨ha, hpar, hx, hy, hlinkx, hlinky⟩ := linked_mk.mp htree
  rw [addr_mk] at hctx
  refine ⟨⟨ha, hpar, hx, hy, hlinky, hctx⟩, hlinkx, ?_, hleaf⟩
  have hperm : (x.addrs ++ ctxAddrs (⟨s, a, y⟩ :: fs)).Perm ((Shape.mk s a x y).addrs ++ ctxAddrs fs) := by
    refine List.perm_middle.trans ?_
    change (a :: (x.addrs ++ (y.addrs ++ ctxAddrs fs))).Perm _
    rw [← List.append_assoc]
    exact (addrs_mk s a x y).symm.append_right (ctxAddrs fs)
  exact hperm.nodup_iff.mpr hnodup

lemma At.addr_ne_zero (h : At k fs t) (ha : a ∈ t.addrs) : t.addr ≠ 0 := by
  cases t with
  | nil => cases ha
  | node b l r => exact h.tree.1

lemma mk_other (s : Side) (a : ℕ) (x y : Shape) : Shape.mk s.other a x y = .mk s a y x := by
  cases s <;> rfl

lemma At.down_other (h : At k fs (.mk s a x y)) : At k (⟨s.other, a, x⟩ :: fs) y := by
  rw [← mk_other] at h
  exact h.down

lemma inorder_mk (s : Side) (a : ℕ) (sib : Shape) (fs : List Frame) (t : Shape) :
    inorder (⟨s, a, sib⟩ :: fs) t.addrs = inorder fs (Shape.mk s a t sib).addrs := by
  cases s <;> rfl

lemma inorder_perm (fs : List Frame) (mid : List ℕ) : (inorder fs mid).Perm (mid ++ ctxAddrs fs) := by
  induction fs generalizing mid with
  | nil => rw [ctxAddrs, List.append_nil, inorder]
  | cons f fs ih =>
    obtain ⟨s, a, sib⟩ := f
    cases s
    · refine (ih _).trans ?_
      rw [ctxAddrs, List.append_assoc, List.cons_append]
    · refine (ih _).trans ?_
      rw [ctxAddrs, List.append_assoc, List.cons_append]
      refine List.perm_middle.trans ((List.Perm.cons a ?_).trans List.perm_middle.symm)
      rw [← List.append_assoc, ← List.append_assoc]
      exact List.perm_append_comm.append_right _

/-- What stands before and behind a part. -/
def leftOf : List Frame → List ℕ
  | [] => []
  | ⟨.left, _, _⟩ :: fs => leftOf fs
  | ⟨.right, a, sib⟩ :: fs => leftOf fs ++ sib.addrs ++ [a]

def rightOf : List Frame → List ℕ
  | [] => []
  | ⟨.left, a, sib⟩ :: fs => a :: sib.addrs ++ rightOf fs
  | ⟨.right, _, _⟩ :: fs => rightOf fs

lemma inorder_eq (fs : List Frame) (mid : List ℕ) : inorder fs mid = leftOf fs ++ mid ++ rightOf fs := by
  induction fs generalizing mid with
  | nil => rw [inorder, leftOf, rightOf, List.nil_append, List.append_nil]
  | cons f fs ih =>
    obtain ⟨s, a, sib⟩ := f
    cases s
    · rw [inorder, ih, leftOf, rightOf]
      simp only [List.append_assoc, List.cons_append]
    · rw [inorder, ih, leftOf, rightOf]
      simp only [List.append_assoc, List.cons_append, List.nil_append]

end Zipper

section Whole

def plugAll : List Frame → Shape → Shape
  | [], t => t
  | f :: fs, t => plugAll fs (f.plug t)

lemma At.root (h : At k fs t) : At k [] (plugAll fs t) := by
  induction fs generalizing t with
  | nil => exact h
  | cons f fs ih => exact ih h.up

lemma addrs_plugAll (fs : List Frame) (t : Shape) : (plugAll fs t).addrs = inorder fs t.addrs := by
  induction fs generalizing t with
  | nil => rfl
  | cons f fs ih =>
    rw [plugAll, ih]
    exact (inorder_mk f.side f.a f.sib fs t).symm

lemma plugAll_concat (gs : List Frame) (f : Frame) (t : Shape) : plugAll (gs ++ [f]) t = f.plug (plugAll gs t) := by
  induction gs generalizing t with
  | nil => rfl
  | cons g gs ih => exact ih _

lemma Linked.unique (h : Linked k p t) (h' : Linked k q x) (haddr : t.addr = x.addr) : t = x := by
  induction t generalizing p q x with
  | nil =>
    cases x with
    | nil => rfl
    | node b l r => exact absurd haddr.symm h'.1
  | node a l r ihl ihr =>
    obtain ⟨ha, -, hl, hr, hlinkl, hlinkr⟩ := h
    cases x with
    | nil => exact absurd haddr ha
    | node b l' r' =>
      obtain rfl : a = b := haddr
      obtain ⟨-, -, hl', hr', hlinkl', hlinkr'⟩ := h'
      rw [ihl hlinkl hlinkl' (hl.symm.trans hl'), ihr hlinkr hlinkr' (hr.symm.trans hr')]

lemma At.plugAll_eq (h : At k fs t) (hwhole : At k [] x) : plugAll fs t = x :=
  h.root.tree.unique hwhole.tree (h.root.ctx.symm.trans hwhole.ctx)

lemma inorder_append (gs fs : List Frame) (mid : List ℕ) : inorder (gs ++ fs) mid = inorder fs (inorder gs mid) := by
  induction gs generalizing mid with
  | nil => rfl
  | cons g gs ih =>
    obtain ⟨s, a, sib⟩ := g
    cases s <;> exact ih _

lemma At.focus (h : At k fs t) (ha : a ∈ t.addrs) :
    ∃ gs l r, At k (gs ++ fs) (.node a l r) ∧ plugAll gs (.node a l r) = t := by
  induction t generalizing fs with
  | nil => cases ha
  | node b l r ihl ihr =>
    rcases List.mem_append.mp ha with ha | ha
    · obtain ⟨gs, l', r', hat, hplug⟩ := ihl (At.down (s := .left) h) ha
      refine ⟨gs ++ [⟨.left, b, r⟩], l', r', ?_, ?_⟩
      · rwa [List.append_assoc]
      · rw [plugAll_concat, hplug]
        rfl
    · rcases List.mem_cons.mp ha with rfl | ha
      · exact ⟨[], l, r, h, rfl⟩
      · obtain ⟨gs, l', r', hat, hplug⟩ := ihr (At.down (s := .right) h) ha
        refine ⟨gs ++ [⟨.right, b, l⟩], l', r', ?_, ?_⟩
        · rwa [List.append_assoc]
        · rw [plugAll_concat, hplug]
          rfl

end Whole

section Rotation

lemma CtxLinked.top_ne_zero (h : CtxLinked k hole fs) (hfs : fs ≠ []) : top fs ≠ 0 := by
  cases fs with
  | nil => exact absurd rfl hfs
  | cons f fs => exact h.1

lemma top_mem (hfs : fs ≠ []) : top fs ∈ ctxAddrs fs := by
  cases fs with
  | nil => exact absurd rfl hfs
  | cons f fs => exact List.mem_cons_self

lemma CtxLinked.ne_zero (h : CtxLinked k hole fs) (hc : c ∈ ctxAddrs fs) : c ≠ 0 := by
  induction fs generalizing hole with
  | nil => cases hc
  | cons f fs ih =>
    obtain ⟨ha, -, -, -, hlinked, hctx⟩ := h
    rcases List.mem_cons.mp hc with rfl | hc
    · exact ha
    · rcases List.mem_append.mp hc with hc | hc
      · exact hlinked.ne_zero hc
      · exact ih hctx hc

lemma parent_replaceChild (k : Links) (p a b : ℕ) : (k.replaceChild p a b).parent = k.parent := by
  rw [Links.replaceChild]
  split_ifs <;> rfl

/-- The frame that the part hangs in gets another one in its place. -/
lemma child_replaceChild (hctx : CtxLinked k a fs) (ha : a ≠ 0) (hfresh : a ∉ ctxAddrs fs) (b : ℕ) (s : Side) (c : ℕ) :
    (k.replaceChild (top fs) a b).child s c =
      if ∃ f ∈ fs.head?, c = f.a ∧ s = f.side then b else k.child s c := by
  cases fs with
  | nil =>
    rw [Links.replaceChild, top, if_pos rfl, if_neg]
    rintro ⟨f, hf, -⟩
    cases hf
  | cons f fs =>
    obtain ⟨hne, -, hhole, hsib, -, -⟩ := hctx
    have hsib' : f.sib.addr ≠ a := by
      rintro rfl
      exact hfresh (List.mem_cons_of_mem _ (List.mem_append_left _ (addr_mem ha)))
    have hiff : (∃ g ∈ (f :: fs).head?, c = g.a ∧ s = g.side) ↔ s = f.side ∧ c = f.a := by
      simp only [List.head?_cons, Option.mem_def, Option.some.injEq, exists_eq_left']
      exact and_comm
    simp only [hiff]
    rw [Links.replaceChild, top, if_neg hne]
    cases hs : f.side with
    | left =>
      rw [hs] at hhole
      rw [if_pos hhole, child_setChild]
    | right =>
      rw [hs] at hsib
      have hleft : k.child .left f.a ≠ a := fun h => hsib' (hsib.symm.trans h)
      rw [if_neg hleft, child_setChild]

lemma root_replaceChild (hctx : CtxLinked k a fs) (b : ℕ) :
    (k.replaceChild (top fs) a b).root = if fs = [] then b else k.root := by
  cases fs with
  | nil => rfl
  | cons f fs =>
    rw [Links.replaceChild, top, if_neg hctx.1, if_neg (List.cons_ne_nil f fs)]
    split_ifs <;> rfl

/-- The links where one part is taken out of its frames, and another one put in. -/
lemma CtxLinked.replaceChild (hctx : CtxLinked k a fs) (ha : a ≠ 0) (hfresh : a ∉ ctxAddrs fs)
    (hnodup : (ctxAddrs fs).Nodup) (b : ℕ) : CtxLinked (k.replaceChild (top fs) a b) b fs := by
  have hchild := child_replaceChild hctx ha hfresh b
  refine hctx.replace (fun c _ => ?_) (fun c _ s hne => ?_) (fun f hf => ?_) (root_replaceChild hctx b) hnodup
  · rw [parent_replaceChild]
  · rw [hchild, if_neg]
    rintro ⟨f, hf, hc⟩
    exact hne f hf hc
  · rw [hchild, if_pos ⟨f, hf, rfl, rfl⟩]

lemma CtxLinked.congr (h : CtxLinked k hole fs) (hparent : ∀ c ∈ ctxAddrs fs, k'.parent c = k.parent c)
    (hchild : ∀ c ∈ ctxAddrs fs, ∀ s, k'.child s c = k.child s c) (hroot : k'.root = k.root)
    (hnodup : (ctxAddrs fs).Nodup) : CtxLinked k' hole fs := by
  refine h.replace hparent (fun c hc s _ => hchild c hc s) (fun f hf => ?_) ?_ hnodup
  · cases fs with
    | nil => cases hf
    | cons g fs =>
      obtain rfl := Option.some.inj hf
      exact (hchild _ List.mem_cons_self _).trans h.2.2.1
  · rw [hroot]
    split_ifs with hfs
    · subst hfs
      exact h
    · rfl

lemma At.congr (h : At k fs t) (hparent : ∀ c ∈ t.addrs ++ ctxAddrs fs, k'.parent c = k.parent c)
    (hchild : ∀ c ∈ t.addrs ++ ctxAddrs fs, ∀ s, k'.child s c = k.child s c) (hroot : k'.root = k.root)
    (hleaf : ∀ s, k'.child s 0 = 0) : At k' fs t := by
  obtain ⟨hctx, htree, hnodup, -⟩ := h
  obtain ⟨hnt, hnfs, -⟩ := List.nodup_append.mp hnodup
  refine ⟨?_, ?_, hnodup, hleaf⟩
  · exact hctx.congr (fun c hc => hparent c (List.mem_append_right _ hc))
      (fun c hc => hchild c (List.mem_append_right _ hc)) hroot hnfs
  · exact htree.congr (fun c hc => hparent c (List.mem_append_left _ hc))
      (fun c hc => hchild c (List.mem_append_left _ hc)) hnt

lemma addr_notMem (ht : c ∈ t.addrs → c ∉ ctxAddrs fs) (hctx : CtxLinked k hole fs) (hc : c = t.addr) :
    c ∉ ctxAddrs fs := by
  subst hc
  by_cases hzero : t.addr = 0
  · exact fun hmem => hctx.ne_zero hmem hzero
  · exact ht (addr_mem hzero)

lemma At.splice (h : At k fs (.mk s a x .nil)) :
    At (k.splice a x.addr) fs x ∧ (k.splice a x.addr).parent x.addr = top fs := by
  obtain ⟨hctx, htree, hnodup, hleaf⟩ := h
  obtain ⟨ha, hpar, -, -, hlinkx, -⟩ := linked_mk.mp htree
  rw [addr_mk] at hctx
  have hmk : (Shape.mk s a x .nil).addrs.Perm (a :: x.addrs) := by
    simpa only [Shape.addrs, List.append_nil] using addrs_mk s a x .nil
  have hcons : (a :: (x.addrs ++ ctxAddrs fs)).Nodup := (hmk.append_right (ctxAddrs fs)).nodup_iff.mp hnodup
  obtain ⟨hax, hnodup⟩ := List.nodup_cons.mp hcons
  rw [List.mem_append, not_or] at hax
  obtain ⟨hnx, hnfs, hdisjoint⟩ := List.nodup_append.mp hnodup
  have hroot {c : ℕ} (hc : c ∈ ctxAddrs fs) : c ≠ x.addr := fun hcx =>
    addr_notMem (t := x) (fun hcx hcfs => hdisjoint c hcx c hcfs rfl) hctx hcx hc
  have hne : a ≠ x.addr := by
    rintro rfl
    exact hax.1 (addr_mem ha)
  have hparent : (k.setParent x.addr (k.parent a)).parent a = top fs := by
    rw [parent_setParent, if_neg hne, hpar]
  have hctx' : CtxLinked (k.setParent x.addr (k.parent a)) a fs := by
    refine hctx.congr (fun c hc => ?_) (fun c _ s => rfl) rfl hnfs
    rw [parent_setParent, if_neg (hroot hc)]
  have hchild := child_replaceChild hctx' ha hax.2 x.addr
  have hresult : (k.splice a x.addr).parent x.addr = top fs := by
    rw [Links.splice, parent_replaceChild, parent_setParent, if_pos rfl, hpar]
  refine ⟨⟨?_, ?_, hnodup, fun s => ?_⟩, hresult⟩
  · rw [Links.splice, hparent]
    exact hctx'.replaceChild ha hax.2 hnfs x.addr
  · refine hlinkx.move (fun _ => hresult) (fun c _ hcx => ?_) (fun c hc s => ?_) hnx
    · rw [Links.splice, parent_replaceChild, parent_setParent, if_neg hcx]
    · rw [Links.splice, hparent, hchild, if_neg]
      · rfl
      · rintro ⟨f, hf, rfl, -⟩
        cases fs with
        | nil => cases hf
        | cons g fs =>
          obtain rfl := Option.some.inj hf
          exact hdisjoint _ hc _ List.mem_cons_self rfl
  · rw [Links.splice, hparent, hchild, if_neg]
    · exact hleaf s
    · rintro ⟨f, hf, hf0, -⟩
      cases fs with
      | nil => cases hf
      | cons g fs =>
        obtain rfl := Option.some.inj hf
        exact hctx.1 hf0.symm

structure Apart (a b : ℕ) (x m y : Shape) (fs : List Frame) : Prop where
  ne : a ≠ b
  left : a ∉ x.addrs ++ (m.addrs ++ (y.addrs ++ ctxAddrs fs))
  right : b ∉ x.addrs ++ (m.addrs ++ (y.addrs ++ ctxAddrs fs))
  nodup : (x.addrs ++ (m.addrs ++ (y.addrs ++ ctxAddrs fs))).Nodup

lemma rotated_perm (s : Side) (a b : ℕ) (x m y : Shape) (fs : List Frame) :
    ((Shape.mk s b (.mk s a x m) y).addrs ++ ctxAddrs fs).Perm ((Shape.mk s a x (.mk s b m y)).addrs ++ ctxAddrs fs) := by
  refine List.Perm.append_right _ ?_
  cases s
  · simp only [Shape.mk, Shape.addrs, List.append_assoc, List.cons_append]
    exact .refl _
  · simp only [Shape.mk, Shape.addrs, List.append_assoc, List.cons_append]
    exact .refl _

lemma apart_of_nodup (h : ((Shape.mk s a x (.mk s b m y)).addrs ++ ctxAddrs fs).Nodup) : Apart a b x m y fs := by
  have hperm : ((Shape.mk s a x (.mk s b m y)).addrs ++ ctxAddrs fs).Perm
      (a :: b :: (x.addrs ++ (m.addrs ++ (y.addrs ++ ctxAddrs fs)))) := by
    have houter := (addrs_mk s a x (.mk s b m y)).append_right (ctxAddrs fs)
    have hinner := (addrs_mk s b m y).append_left x.addrs
    refine houter.trans (List.Perm.cons a (((hinner.append_right (ctxAddrs fs))).trans ?_))
    refine (List.perm_middle.append_right _).trans ?_
    simp only [List.append_assoc, List.cons_append]
    exact .refl _
  obtain ⟨ha, hb⟩ := List.nodup_cons.mp (hperm.nodup_iff.mp h)
  obtain ⟨hb, hrest⟩ := List.nodup_cons.mp hb
  rw [List.mem_cons, not_or] at ha
  exact ⟨ha.1, ha.2, hb, hrest⟩

lemma At.rotate (h : At k fs (.mk s a x (.mk s b m y))) :
    At (k.rotate s a) fs (.mk s b (.mk s a x m) y) ∧
      (k.rotate s a).parent 0 = if m.addr = 0 then a else k.parent 0 := by
  obtain ⟨hctx, htree, hnodup, hleaf⟩ := h
  obtain ⟨hab, ha, hb, hrest⟩ := apart_of_nodup hnodup
  obtain ⟨ha0, hpar, hx, hchildb, hlinkx, htreeb⟩ := linked_mk.mp htree
  obtain ⟨hb0, hparb, hm, hy, hlinkm, hlinky⟩ := linked_mk.mp htreeb
  rw [addr_mk] at hctx hchildb
  simp only [List.mem_append, not_or] at ha hb
  obtain ⟨hax, ham, hay, hafs⟩ := ha
  obtain ⟨hbx, hbm, hby, hbfs⟩ := hb
  obtain ⟨hnx, hrest, hdx⟩ := List.nodup_append.mp hrest
  obtain ⟨hnm, hrest, hdm⟩ := List.nodup_append.mp hrest
  obtain ⟨hny, hnfs, hdy⟩ := List.nodup_append.mp hrest
  have hma : a ≠ m.addr := fun h => ham (h ▸ addr_mem (h ▸ ha0))
  have hmb : b ≠ m.addr := fun h => hbm (h ▸ addr_mem (h ▸ hb0))
  have hmfs {c : ℕ} (hc : c ∈ ctxAddrs fs) : c ≠ m.addr := fun hcm =>
    addr_notMem (t := m) (fun hcm hcfs => hdm c hcm c (List.mem_append_right _ hcfs) rfl) hctx hcm hc
  -- the links before the frame is changed, and afterwards
  let k₃ := ((k.setChild s.other a m.addr).setParent m.addr a).setParent b (top fs)
  have hrotate : k.rotate s a = ((k₃.replaceChild (top fs) a b).setChild s b a).setParent a b := by
    have hread : (k.setChild s.other a (k.child s b)).child s b = m.addr := by
      rw [child_setChild, if_neg fun h => ne_other s (And.left h), hm]
    have hpar₂ : ((k.setChild s.other a m.addr).setParent m.addr a).parent a = top fs := by
      rw [parent_setParent, if_neg hma, parent_setChild, hpar]
    have hpar₃ : k₃.parent a = top fs := by
      rw [parent_setParent, if_neg hab, hpar₂]
    rw [Links.rotate]
    simp only [hchildb, hread]
    simp only [hm, hpar₂]
    change ((k₃.replaceChild (k₃.parent a) a b).setChild s b a).setParent a b = _
    rw [hpar₃]
  have hctx₃ : CtxLinked k₃ a fs := by
    refine hctx.congr (fun c hc => ?_) (fun c hc s' => ?_) rfl hnfs
    · rw [parent_setParent, if_neg (ne_of_mem_of_not_mem hc hbfs), parent_setParent, if_neg (hmfs hc), parent_setChild]
    · change (k.setChild s.other a m.addr).child s' c = _
      rw [child_setChild, if_neg fun h => ne_of_mem_of_not_mem hc hafs (And.right h)]
  have hparent (c : ℕ) : (k.rotate s a).parent c =
      if c = a then b else if c = b then top fs else if c = m.addr then a else k.parent c := by
    rw [hrotate, parent_setParent, parent_setChild, parent_replaceChild, parent_setParent, parent_setParent,
      parent_setChild]
  have hchild (s' : Side) (c : ℕ) (hc : c ∉ ctxAddrs fs) : (k.rotate s a).child s' c =
      if s' = s ∧ c = b then a else if s' = s.other ∧ c = a then m.addr else k.child s' c := by
    rw [hrotate, child_setParent, child_setChild, child_replaceChild hctx₃ ha0 hafs]
    have hframe : ¬∃ f ∈ fs.head?, c = f.a ∧ s' = f.side := by
      rintro ⟨f, hf, rfl, -⟩
      cases fs with
      | nil => cases hf
      | cons g fs =>
        obtain rfl := Option.some.inj hf
        exact hc List.mem_cons_self
    rw [if_neg hframe]
    change (if s' = s ∧ c = b then a else (k.setChild s.other a m.addr).child s' c) = _
    rw [child_setChild]
  have hkeep {c : ℕ} {t : Shape} (hc : c ∈ t.addrs) (hta : a ∉ t.addrs) (htb : b ∉ t.addrs)
      (htfs : ∀ c ∈ t.addrs, c ∉ ctxAddrs fs) : ∀ s', (k.rotate s a).child s' c = k.child s' c := fun s' => by
    rw [hchild s' c (htfs c hc), if_neg fun h => ne_of_mem_of_not_mem hc htb (And.right h),
      if_neg fun h => ne_of_mem_of_not_mem hc hta (And.right h)]
  have hxfs : ∀ c ∈ x.addrs, c ∉ ctxAddrs fs := fun c hc hfs =>
    hdx c hc c (List.mem_append_right _ (List.mem_append_right _ hfs)) rfl
  have hyfs : ∀ c ∈ y.addrs, c ∉ ctxAddrs fs := fun c hc hfs => hdy c hc c hfs rfl
  have hmfs' : ∀ c ∈ m.addrs, c ∉ ctxAddrs fs := fun c hc hfs => hdm c hc c (List.mem_append_right _ hfs) rfl
  have houtside {c : ℕ} {t : Shape} (hc : c ∈ t.addrs) (hta : a ∉ t.addrs) (htb : b ∉ t.addrs)
      (hcm : c ≠ m.addr) : (k.rotate s a).parent c = k.parent c := by
    rw [hparent, if_neg (ne_of_mem_of_not_mem hc hta), if_neg (ne_of_mem_of_not_mem hc htb), if_neg hcm]
  have haway {c : ℕ} {t : Shape} {p : ℕ} (hlinked : Linked k p t) (hc : c ∈ t.addrs)
      (hdisjoint : ∀ c ∈ t.addrs, c ∉ m.addrs) : c ≠ m.addr := by
    rintro rfl
    exact hdisjoint _ hc (addr_mem (hlinked.ne_zero hc))
  have hxm : ∀ c ∈ x.addrs, c ∉ m.addrs := fun c hc hcm => hdx c hc c (List.mem_append_left _ hcm) rfl
  have hym : ∀ c ∈ y.addrs, c ∉ m.addrs := fun c hc hcm => hdm c hcm c (List.mem_append_left _ hc) rfl
  refine ⟨⟨?_, ?_, (rotated_perm s a b x m y fs).nodup_iff.mpr hnodup, fun s' => ?_⟩, ?_⟩
  · rw [addr_mk]
    have hctx₄ := hctx₃.replaceChild ha0 hafs hnfs b
    rw [hrotate]
    refine hctx₄.congr (fun c hc => ?_) (fun c hc s' => ?_) rfl hnfs
    · rw [parent_setParent, if_neg (ne_of_mem_of_not_mem hc hafs), parent_setChild]
    · rw [child_setParent, child_setChild, if_neg fun h => ne_of_mem_of_not_mem hc hbfs (And.right h)]
  · refine linked_mk.mpr ⟨hb0, ?_, ?_, ?_, linked_mk.mpr ⟨ha0, ?_, ?_, ?_, ?_, ?_⟩, ?_⟩
    · rw [hparent, if_neg hab.symm, if_pos rfl]
    · rw [hchild _ _ hbfs, if_pos ⟨rfl, rfl⟩, addr_mk]
    · rw [hchild _ _ hbfs, if_neg fun h => other_ne s (And.left h), if_neg fun h => hab (And.right h).symm, hy]
    · rw [hparent, if_pos rfl]
    · rw [hchild _ _ hafs, if_neg fun h => hab (And.right h), if_neg fun h => ne_other s (And.left h), hx]
    · rw [hchild _ _ hafs, if_neg fun h => hab (And.right h), if_pos ⟨rfl, rfl⟩]
    · exact hlinkx.congr (fun c hc => houtside hc hax hbx (haway hlinkx hc hxm)) (fun c hc => hkeep hc hax hbx hxfs) hnx
    · refine hlinkm.move (fun hne => ?_) (fun c hc hcm => houtside hc ham hbm hcm)
        (fun c hc => hkeep hc ham hbm hmfs') hnm
      rw [hparent, if_neg hma.symm, if_neg hmb.symm, if_pos rfl]
    · exact hlinky.congr (fun c hc => houtside hc hay hby (haway hlinky hc hym)) (fun c hc => hkeep hc hay hby hyfs) hny
  · rw [hchild s' 0 fun hmem => hctx.ne_zero hmem rfl, if_neg fun h => hb0 (And.right h).symm,
      if_neg fun h => ha0 (And.right h).symm]
    exact hleaf s'
  · rw [hparent, if_neg ha0.symm, if_neg hb0.symm]
    exact if_congr eq_comm rfl rfl

end Rotation

section Attaching

lemma At.attach (h : At k fs .nil) (ha : a ≠ 0) (hfresh : a ∉ ctxAddrs fs) (hchild : ∀ s, k.child s a = 0)
    (hside : ∀ f ∈ fs.head?, f.side = s) : At (k.attach s (top fs) a) fs (.node a .nil .nil) := by
  obtain ⟨hctx, -, hnodup, hzero⟩ := h
  rw [Shape.addrs, List.nil_append] at hnodup
  have hparent (c : ℕ) : (k.attach s (top fs) a).parent c = if c = a then top fs else k.parent c := by
    rw [Links.attach]
    split_ifs <;> simp_all [parent_setParent]
  have hchildren (s' : Side) (c : ℕ) (hc : ∀ f ∈ fs.head?, ¬(c = f.a ∧ s' = f.side)) :
      (k.attach s (top fs) a).child s' c = k.child s' c := by
    rw [Links.attach]
    cases fs with
    | nil => rfl
    | cons f fs =>
      have hne : top (f :: fs) ≠ 0 := hctx.1
      have hf : ¬(s' = s ∧ c = f.a) := fun h => hc f rfl ⟨h.2, h.1.trans (hside f rfl).symm⟩
      rw [if_neg hne, child_setChild, top, if_neg hf, child_setParent]
  have hleaf (s' : Side) : (k.attach s (top fs) a).child s' a = 0 := by
    refine (hchildren s' a fun f hf h => ?_).trans (hchild s')
    cases fs with
    | nil => cases hf
    | cons g fs =>
      obtain rfl := Option.some.inj hf
      exact hfresh (h.1 ▸ List.mem_cons_self)
  refine ⟨?_, ⟨ha, ?_, hleaf _, hleaf _, trivial, trivial⟩, ?_, fun s' => ?_⟩
  · refine hctx.replace (fun c hc => ?_) (fun c _ s' => hchildren s' c) (fun f hf => ?_) ?_ hnodup
    · rw [hparent, if_neg (ne_of_mem_of_not_mem hc hfresh)]
    · cases fs with
      | nil => cases hf
      | cons g fs =>
        obtain rfl := Option.some.inj hf
        have hne : top (g :: fs) ≠ 0 := hctx.1
        rw [Links.attach, if_neg hne, child_setChild, hside g rfl, if_pos ⟨rfl, rfl⟩]
        rfl
    · cases fs with
      | nil => rfl
      | cons g fs =>
        have hne : top (g :: fs) ≠ 0 := hctx.1
        rw [Links.attach, if_neg hne, if_neg (List.cons_ne_nil g fs)]
        rfl
  · rw [hparent, if_pos rfl]
  · exact List.nodup_cons.mpr ⟨hfresh, hnodup⟩
  · refine (hchildren s' 0 fun f hf h => ?_).trans (hzero s')
    cases fs with
    | nil => cases hf
    | cons g fs =>
      obtain rfl := Option.some.inj hf
      exact hctx.1 h.1.symm

end Attaching

section Walking

/-- The nodes in the order of a walk towards the side `s`. -/
def order : Side → List ℕ → List ℕ
  | .left, l => l.reverse
  | .right, l => l

/-- What a walk towards `s` meets when it has left the part. -/
def beyond (s : Side) : List Frame → List ℕ
  | [] => []
  | f :: fs => if f.side = s then beyond s fs else f.a :: order s f.sib.addrs ++ beyond s fs

namespace Links

def extreme (k : Links) (s : Side) : ℕ → ℕ → Option ℕ
  | 0, _ => none
  | n + 1, a => if k.child s a = 0 then some a else extreme k s n (k.child s a)

/-- The first node above that is not reached from its child on the side `s`. -/
def climb (k : Links) (s : Side) : ℕ → ℕ → ℕ → Option ℕ
  | 0, _, _ => none
  | n + 1, a, p => if p ≠ 0 ∧ a = k.child s p then climb k s n p (k.parent p) else some p

/-- The next node towards `s`. -/
def neighbour (k : Links) (s : Side) (n a : ℕ) : Option ℕ :=
  if k.child s a ≠ 0 then k.extreme s.other n (k.child s a) else k.climb s n a (k.parent a)

end Links

lemma order_mk (s : Side) (a : ℕ) (x y : Shape) :
    order s (Shape.mk s a x y).addrs = order s y.addrs ++ a :: order s x.addrs := by
  cases s
  · simp only [Shape.mk, Shape.addrs, order, List.reverse_append, List.reverse_cons, List.append_assoc,
      List.singleton_append]
  · rfl

lemma order_mk_other (s : Side) (a : ℕ) (x y : Shape) :
    order s.other (Shape.mk s a x y).addrs = order s.other x.addrs ++ a :: order s.other y.addrs := by
  rw [← mk_other, order_mk]

lemma order_inorder (s : Side) (fs : List Frame) (t : Shape) :
    ∃ front, order s (inorder fs t.addrs) = front ++ order s t.addrs ++ beyond s fs := by
  induction fs generalizing t with
  | nil => exact ⟨[], (List.append_nil _).symm⟩
  | cons f fs ih =>
    obtain ⟨s', a, sib⟩ := f
    rw [inorder_mk]
    obtain ⟨front, hfront⟩ := ih (.mk s' a t sib)
    rw [hfront, beyond]
    split_ifs with hs
    · obtain rfl : s' = s := hs
      refine ⟨front ++ (order s' sib.addrs ++ [a]), ?_⟩
      rw [order_mk]
      simp only [List.append_assoc, List.cons_append, List.nil_append]
    · obtain rfl : s = s'.other := by
        cases s <;> cases s' <;> first | rfl | exact absurd rfl hs
      refine ⟨front, ?_⟩
      rw [order_mk_other]
      simp only [List.append_assoc, List.cons_append]

lemma exists_extreme (h : At k fs t) (hne : t ≠ .nil) (s : Side) :
    ∃ gs a x rest, At k (gs ++ fs) (.mk s a .nil x) ∧ (∀ f ∈ gs, f.side = s) ∧ order s.other t.addrs = a :: rest ∧
      ∀ n, t.addrs.length ≤ n → k.extreme s n t.addr = some a := by
  induction t generalizing fs with
  | nil => exact absurd rfl hne
  | node a l r ihl ihr =>
    obtain ⟨u, x, ih, hmk⟩ : ∃ u x, (∀ fs, At k fs u → u ≠ .nil → ∃ gs a x rest, At k (gs ++ fs) (.mk s a .nil x) ∧
        (∀ f ∈ gs, f.side = s) ∧ order s.other u.addrs = a :: rest ∧
          ∀ n, u.addrs.length ≤ n → k.extreme s n u.addr = some a) ∧ Shape.node a l r = .mk s a u x := by
      cases s with
      | left => exact ⟨l, r, fun fs h hne => ihl h hne, rfl⟩
      | right => exact ⟨r, l, fun fs h hne => ihr h hne, rfl⟩
    rw [hmk] at h ⊢
    have hlength := (addrs_mk s a u x).length_eq
    simp only [List.length_cons, List.length_append] at hlength
    have hchild := (linked_mk.mp h.tree).2.2.1
    rw [addr_mk, order_mk_other]
    cases hu : u with
    | nil =>
      subst hu
      refine ⟨[], a, x, order s.other x.addrs, h, fun f hf => (List.not_mem_nil hf).elim, ?_, fun n hn => ?_⟩
      · cases s <;> rfl
      · obtain ⟨n, rfl⟩ : ∃ m, n = m + 1 := ⟨n - 1, by omega⟩
        have hzero : k.child s a = 0 := hchild
        rw [Links.extreme, if_pos hzero]
    | node b l' r' =>
      rw [← hu]
      obtain ⟨gs, c, y, rest, hat, hside, hrest, hextreme⟩ := ih _ h.down (by rw [hu]; exact Shape.noConfusion)
      refine ⟨gs ++ [⟨s, a, x⟩], c, y, rest ++ a :: order s.other x.addrs, ?_, fun f hf => ?_, ?_, fun n hn => ?_⟩
      · rw [List.append_assoc]
        exact hat
      · rcases List.mem_append.mp hf with hf | hf
        · exact hside f hf
        · obtain rfl := List.mem_singleton.mp hf
          rfl
      · rw [hrest, List.cons_append]
      · obtain ⟨n, rfl⟩ : ∃ m, n = m + 1 := ⟨n - 1, by omega⟩
        have hnonzero : u.addr ≠ 0 := by
          rw [hu]
          exact (hu ▸ (linked_mk.mp h.tree).2.2.2.2.1 : Linked k a (.node b l' r')).1
        rw [Links.extreme, hchild, if_neg hnonzero]
        exact hextreme n (by omega)

lemma At.climb (h : At k fs t) (ht : t.addr ≠ 0) (s : Side) {n : ℕ} (hn : fs.length < n) :
    k.climb s n t.addr (top fs) = some ((beyond s fs).head?.getD 0) := by
  induction fs generalizing t n with
  | nil =>
    obtain ⟨n, rfl⟩ : ∃ m, n = m + 1 := ⟨n - 1, by omega⟩
    rw [Links.climb, top, if_neg (fun h => h.1 rfl)]
    rfl
  | cons f fs ih =>
    obtain ⟨n, rfl⟩ : ∃ m, n = m + 1 := ⟨n - 1, by omega⟩
    obtain ⟨ha, hpar, hhole, hsib, -, -⟩ := h.ctx
    rw [Links.climb, top, beyond]
    by_cases hs : f.side = s
    · rw [if_pos hs, if_pos ⟨ha, by rw [← hs, hhole]⟩, hpar]
      have hup := h.up
      have haddr : (f.plug t).addr = f.a := addr_mk _ _ _ _
      rw [← haddr]
      refine ih hup (by rwa [haddr]) ?_
      rw [List.length_cons] at hn
      omega
    · have hother : s = f.side.other := by
        cases hf : f.side <;> cases s <;> first | rfl | exact absurd hf hs
      have hapart : t.addr ≠ f.sib.addr := by
        intro heq
        have hmem := addr_mem ht
        have hsmem : f.sib.addr ∈ ctxAddrs (f :: fs) :=
          List.mem_cons_of_mem _ (List.mem_append_left _ (addr_mem (heq ▸ ht)))
        exact (List.nodup_append.mp h.nodup).2.2 _ hmem _ hsmem heq
      rw [if_neg hs, if_neg]
      · rfl
      · rintro ⟨-, heq⟩
        rw [hother, hsib] at heq
        exact hapart heq

lemma At.neighbour (h : At k fs (.mk s a x y)) {n : ℕ} (hx : x.addrs.length ≤ n) (hfs : fs.length < n) :
    k.neighbour s n a = some ((order s x.addrs ++ beyond s fs).head?.getD 0) := by
  have hlinked := linked_mk.mp h.tree
  have hchild := hlinked.2.2.1
  rw [Links.neighbour, hchild]
  cases hu : x with
  | nil =>
    have hempty : order s Shape.nil.addrs = [] := by cases s <;> rfl
    rw [hempty, if_neg (fun h => h rfl), hlinked.2.1]
    have hclimb := h.climb (by rw [addr_mk]; exact hlinked.1) s hfs
    rwa [addr_mk] at hclimb
  | node b l r =>
    have hnonzero : (Shape.node b l r).addr ≠ 0 := (hu ▸ hlinked.2.2.2.2.1 : Linked k a (.node b l r)).1
    rw [if_pos hnonzero]
    obtain ⟨gs, c, z, rest, -, -, hrest, hextreme⟩ :=
      exists_extreme h.down (by rw [hu]; exact Shape.noConfusion) s.other
    rw [other_other] at hrest
    rw [hu] at hrest hextreme hx
    rw [hextreme n hx, hrest]
    rfl

end Walking

end Xperimentum.Lib.LinkedTrees
