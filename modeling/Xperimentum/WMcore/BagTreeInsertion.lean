import Xperimentum.Lib.Partial
import Xperimentum.WMcore.BagTree

/-! A node that is put into the tree of a bag leaves it red-black. -/

namespace Xperimentum.WMcore.BagTree

open Lib.Int32 Lib.LinkedTrees Lib.Partial Lib.RedBlack

variable {α : Type} {bag bag' : Bag α} {fs : List Frame} {f : Frame} {s s' σ : Side} {a p g h n : ℕ}
  {t u v x y T : Shape}

/-- The items of the two bags are the same, wherever the nodes are linked. -/
structure SameItems (bag bag' : Bag α) : Prop where
  data : bag'.data = bag.data
  index : bag'.index = bag.index
  count : bag'.count = bag.count
  next : bag'.next = bag.next
  destructor : bag'.destructor = bag.destructor
  destroyed : bag'.destroyed = bag.destroyed

lemma SameItems.refl (bag : Bag α) : SameItems bag bag := ⟨rfl, rfl, rfl, rfl, rfl, rfl⟩

lemma SameItems.trans {bag'' : Bag α} (h : SameItems bag bag') (h' : SameItems bag' bag'') :
    SameItems bag bag'' :=
  ⟨h'.data.trans h.data, h'.index.trans h.index, h'.count.trans h.count, h'.next.trans h.next,
    h'.destructor.trans h.destructor, h'.destroyed.trans h.destroyed⟩

lemma sameItems_paint (a : ℕ) (c : Color) (bag : Bag α) : SameItems bag (bag.paint a c) := ⟨rfl, rfl, rfl, rfl, rfl, rfl⟩

lemma sameItems_rotate (s : Side) (a : ℕ) (bag : Bag α) : SameItems bag (bag.rotate s a) := by
  cases s <;> exact ⟨rfl, rfl, rfl, rfl, rfl, rfl⟩

@[simp] lemma links_paint (a : ℕ) (c : Color) (bag : Bag α) : (bag.paint a c).links = bag.links := rfl

@[simp] lemma links_rotate (s : Side) (a : ℕ) (bag : Bag α) : (bag.rotate s a).links = bag.links.rotate s a := by
  cases s <;> rfl

@[simp] lemma color_rotate (s : Side) (a : ℕ) (bag : Bag α) : (bag.rotate s a).color = bag.color := by
  cases s <;> rfl

lemma color_paint (a : ℕ) (c : Color) (bag : Bag α) (b : ℕ) :
    (bag.paint a c).color b = if b = a then c else bag.color b := Function.update_apply _ _ _ _

/-- The links of the bag make the tree, and neither its root nor the sentinel is red. -/
structure Woven (bag : Bag α) (T : Shape) : Prop where
  linked : At bag.links [] T
  root : ¬RedAt bag.color T
  sentinel : bag.color nil ≠ .red

section Reading

lemma At.addr_ne (h : At bag.links (f :: fs) t) (ht : t.addr ≠ 0) {c : ℕ} (hc : c ∈ ctxAddrs (f :: fs)) :
    c ≠ t.addr := by
  rintro rfl
  exact (List.nodup_append.mp h.nodup).2.2 _ (addr_mem ht) _ hc rfl

lemma parent_addr (h : At bag.links fs t) (ht : t.addr ≠ 0) : bag.parent t.addr = top fs := h.tree.parent_addr ht

lemma root_mem (h : At bag.links (f :: fs) t) : bag.links.root ∈ ctxAddrs (f :: fs) := by
  have hctx := h.ctx
  clear h
  generalize t.addr = hole at hctx
  induction fs generalizing f hole with
  | nil =>
    rw [hctx.2.2.2.2.2]
    exact List.mem_cons_self
  | cons g fs ih => exact List.mem_cons_of_mem _ (List.mem_append_right _ (ih _ hctx.2.2.2.2.2))

lemma ne_root (h : At bag.links (f :: fs) t) : t.addr ≠ bag.links.root := by
  have hmem := root_mem h
  by_cases ht : t.addr = 0
  · rw [ht]
    exact (h.ctx.ne_zero hmem).symm
  · exact (At.addr_ne h ht hmem).symm

lemma eq_root (h : At bag.links [] t) : t.addr = bag.links.root := h.ctx.symm

lemma sideOf_eq (h : At bag.links (f :: fs) t) (ht : t.addr ≠ 0) : bag.sideOf t.addr = f.side := by
  obtain ⟨ha, -, hhole, hsib, -, -⟩ := h.ctx
  rw [Bag.sideOf, parent_addr h ht, Bag.left, top]
  cases hs : f.side with
  | left =>
    rw [hs] at hhole
    exact if_pos hhole.symm
  | right =>
    rw [hs] at hsib
    refine if_neg fun heq => ?_
    have hmem : f.sib.addr ∈ ctxAddrs (f :: fs) := by
      have hsib' : f.sib.addr = t.addr := hsib.symm.trans heq.symm
      exact List.mem_cons_of_mem _ (List.mem_append_left _ (addr_mem (hsib' ▸ ht)))
    exact At.addr_ne h ht hmem (hsib.symm.trans heq.symm)

lemma redAt_iff (hnil : bag.color nil ≠ .red) : bag.color t.addr = .red ↔ RedAt bag.color t := by
  cases t with
  | nil => exact iff_of_false hnil id
  | node a l r => rfl

end Reading

section Fixup

lemma ne_of_perm {L R : List ℕ} {b : ℕ} (hnodup : L.Nodup) (hperm : L.Perm (b :: R)) : ∀ c ∈ R, c ≠ b := by
  rintro c hc rfl
  exact (List.nodup_cons.mp (hperm.nodup_iff.mp hnodup)).1 hc

lemma two_apart {L R : List ℕ} {a b : ℕ} (hnodup : L.Nodup) (hperm : L.Perm (a :: b :: R)) :
    a ≠ b ∧ ∀ c ∈ R, c ≠ a ∧ c ≠ b := by
  obtain ⟨ha, hrest⟩ := List.nodup_cons.mp (hperm.nodup_iff.mp hnodup)
  rw [List.mem_cons, not_or] at ha
  exact ⟨ha.1, fun c hc => ⟨ne_of_mem_of_not_mem hc ha.2, ne_of_perm hrest (.refl _) c hc⟩⟩

lemma three_apart {L R : List ℕ} {a b d : ℕ} (hnodup : L.Nodup) (hperm : L.Perm (a :: b :: d :: R)) :
    a ≠ b ∧ a ≠ d ∧ b ≠ d ∧ ∀ c ∈ R, c ≠ a ∧ c ≠ b ∧ c ≠ d := by
  obtain ⟨hab, hrest⟩ := two_apart hnodup hperm
  have hd := hrest d List.mem_cons_self
  have hnodup' := (List.nodup_cons.mp (List.nodup_cons.mp (hperm.nodup_iff.mp hnodup)).2).2
  refine ⟨hab, hd.1.symm, hd.2.symm, fun c hc => ?_⟩
  have hc' := hrest c (List.mem_cons_of_mem d hc)
  exact ⟨hc'.1, hc'.2, ne_of_perm hnodup' (.refl _) c hc⟩

lemma inorder_turn (s : Side) (p g : ℕ) (u v t : Shape) (fs : List Frame) :
    inorder (⟨s, p, .mk s g u v⟩ :: fs) t.addrs = inorder (⟨s, p, u⟩ :: ⟨s, g, v⟩ :: fs) t.addrs := by
  cases s <;> simp only [inorder, Shape.mk, Shape.addrs, List.append_assoc, List.cons_append]

lemma inorder_bend (s : Side) (a p : ℕ) (u x y : Shape) (fs : List Frame) :
    inorder (⟨s, a, y⟩ :: fs) (Shape.mk s p u x).addrs = inorder (⟨s.other, p, u⟩ :: fs) (Shape.mk s a x y).addrs := by
  cases s <;> simp only [inorder, Shape.mk, Shape.addrs, List.append_assoc, List.cons_append, Side.other]

lemma turned {k : Links} (h : At k (⟨s, p, u⟩ :: ⟨s, g, v⟩ :: fs) t) :
    At (k.rotate s.other g) (⟨s, p, .mk s g u v⟩ :: fs) t := by
  have hup : At k fs (.mk s.other g v (.mk s.other p u t)) := by
    rw [mk_other, mk_other]
    exact h.up.up
  have hrotated := hup.rotate.1
  rw [mk_other, mk_other] at hrotated
  exact hrotated.down

lemma bent {k : Links} (h : At k (⟨s.other, p, u⟩ :: fs) (.mk s a x y)) :
    At (k.rotate s p) (⟨s, a, y⟩ :: fs) (.mk s p u x) := by
  have hup : At k fs (.mk s p u (.mk s a x y)) := by
    rw [← mk_other]
    exact h.up
  exact hup.rotate.1.down

/-- A part that hangs in the frames, whose root is not red. -/
structure Hung (bag : Bag α) (fs : List Frame) (t : Shape) : Prop where
  linked : At bag.links fs t
  root : ∀ f ∈ fs.getLast?, bag.color f.a ≠ .red
  sentinel : bag.color nil ≠ .red

/-- A red node that hangs in the frames, all else being balanced. -/
structure Grown (bag : Bag α) (fs : List Frame) (s : Side) (a : ℕ) (x y : Shape) (h : ℕ) : Prop where
  hung : Hung bag fs (.mk s a x y)
  red : bag.color a = .red
  left : ¬RedAt bag.color x
  right : ¬RedAt bag.color y
  balancedLeft : Balanced bag.color x h
  balancedRight : Balanced bag.color y h
  frames : FrameBalanced bag.color fs h

lemma Grown.balanced (hg : Grown bag fs s a x y h) : Balanced bag.color (.mk s a x y) h :=
  balanced_red hg.red hg.left hg.right hg.balancedLeft hg.balancedRight

lemma Grown.flip (hg : Grown bag fs s a x y h) : Grown bag fs s.other a y x h := by
  refine ⟨?_, hg.red, hg.right, hg.left, hg.balancedRight, hg.balancedLeft, hg.frames⟩
  rw [mk_other]
  exact hg.hung

/-- The loop ends: the root is painted black. -/
lemma Hung.ends (hg : Hung bag fs t) : Woven (bag.paint bag.links.root .black) (plugAll fs t) := by
  have hroot := hg.linked.root
  have hsentinel : (bag.paint bag.links.root .black).color nil ≠ .red := by
    rw [color_paint]
    split_ifs
    · decide
    · exact hg.sentinel
  refine ⟨hroot, fun hred => ?_, hsentinel⟩
  have haddr : (plugAll fs t).addr = bag.links.root := hroot.ctx.symm
  have hblack : (bag.paint bag.links.root .black).color (plugAll fs t).addr = .black := by
    rw [color_paint, if_pos haddr]
  exact Color.noConfusion (hblack.symm.trans ((redAt_iff hsentinel).mpr hred))

lemma Grown.ends (hg : Grown bag fs s a x y h) (htop : ¬RedTop bag.color fs) :
    RedBlack (bag.paint bag.links.root .black).color (plugAll fs (.mk s a x y)) := by
  cases fs with
  | nil =>
    have haddr : a = bag.links.root := (addr_mk s a x y).symm.trans (eq_root hg.hung.linked)
    have hnodup := hg.hung.linked.nodup
    rw [ctxAddrs, List.append_nil] at hnodup
    have hne := ne_of_perm hnodup (addrs_mk s a x y)
    have hkeep : ∀ c ∈ x.addrs ++ y.addrs, (bag.paint bag.links.root .black).color c = bag.color c := fun c hc => by
      rw [color_paint, ← haddr, if_neg (hne c hc)]
    have hblack : (bag.paint bag.links.root .black).color a = .black := by
      rw [color_paint, if_pos haddr]
    refine ⟨⟨h + 1, balanced_black hblack ?_ ?_⟩, hg.hung.ends.root⟩
    · exact hg.balancedLeft.congr fun c hc => hkeep c (List.mem_append_left _ hc)
    · exact hg.balancedRight.congr fun c hc => hkeep c (List.mem_append_right _ hc)
  | cons f fs =>
    have hblack := hg.frames.root (List.cons_ne_nil f fs) hg.hung.linked.ctx
    have hsame : (bag.paint bag.links.root .black).color = bag.color := by
      rw [Bag.paint, ← hblack]
      exact Function.update_eq_self _ _
    rw [hsame]
    refine hg.frames.plug hg.balanced fun h => ?_
    rcases h with h | h
    · exact absurd h htop
    · cases h

lemma getLast_of_cons {f g : Frame} (h : g ∈ fs.getLast?) : g ∈ (f :: fs).getLast? := by
  cases fs with
  | nil => cases h
  | cons f' fs =>
    rw [List.getLast?_cons_cons]
    exact h

lemma a_mem_ctxAddrs (h : f ∈ fs) : f.a ∈ ctxAddrs fs := by
  induction fs with
  | nil => cases h
  | cons g fs ih =>
    rcases List.mem_cons.mp h with rfl | h
    · exact List.mem_cons_self
    · exact List.mem_cons_of_mem _ (List.mem_append_right _ (ih h))

/-- The colours of the frames further up are kept, and the part below them is another one. -/
lemma Hung.root_congr (hg : Hung bag fs t) {gs : List Frame} (hgs : ∀ f ∈ gs.getLast?, f ∈ fs.getLast?)
    (hkeep : ∀ c ∈ ctxAddrs gs, bag'.color c = bag.color c) : ∀ f ∈ gs.getLast?, bag'.color f.a ≠ .red := by
  intro f hf
  rw [hkeep f.a (a_mem_ctxAddrs (List.mem_of_getLast? hf))]
  exact hg.root f (hgs f hf)

lemma Hung.exists_grand (hg : Hung bag (f :: fs) t) (hf : bag.color f.a = .red) : ∃ g gs, fs = g :: gs := by
  cases fs with
  | nil => exact absurd hf (hg.root f rfl)
  | cons g gs => exact ⟨g, gs, rfl⟩

lemma Hung.recolored (hg : Hung bag (⟨s', p, u⟩ :: ⟨s, g, v⟩ :: fs) t) (hv : v.addr ≠ 0) :
    Hung (((bag.paint p .black).paint v.addr .black).paint g .red) fs (.mk s g (.mk s' p t u) v) ∧
      p ≠ g ∧ p ≠ v.addr ∧ g ≠ v.addr ∧
        ∀ c ∈ t.addrs ++ u.addrs ++ v.addrs.erase v.addr ++ ctxAddrs fs, c ≠ p ∧ c ≠ g ∧ c ≠ v.addr := by
  have hg0 : g ≠ 0 := hg.linked.ctx.2.2.2.2.2.1
  obtain ⟨hpg, hpv, hgv, hapart⟩ : p ≠ g ∧ p ≠ v.addr ∧ g ≠ v.addr ∧
      ∀ c ∈ t.addrs ++ u.addrs ++ v.addrs.erase v.addr ++ ctxAddrs fs, c ≠ p ∧ c ≠ g ∧ c ≠ v.addr := by
    refine three_apart hg.linked.nodup (List.perm_iff_count.mpr fun c => ?_)
    have hcount := (List.perm_cons_erase (addr_mem hv)).count_eq c
    simp only [ctxAddrs, List.count_append, List.count_cons] at hcount ⊢
    omega
  refine ⟨⟨hg.linked.up.up, ?_, ?_⟩, hpg, hpv, hgv, hapart⟩
  · refine hg.root_congr (fun f hf => getLast_of_cons (getLast_of_cons hf)) fun c hc => ?_
    obtain ⟨hp, hg, hv⟩ := hapart c (List.mem_append_right _ hc)
    rw [color_paint, color_paint, color_paint, if_neg hg, if_neg hv, if_neg hp]
  · rw [color_paint, color_paint, color_paint, if_neg hg0.symm]
    split_ifs
    · decide
    · decide
    · exact hg.sentinel

lemma Grown.recolored (hg : Grown bag (⟨s', p, u⟩ :: ⟨s, g, v⟩ :: fs) σ a x y h) (hp : bag.color p = .red)
    (hv : RedAt bag.color v) :
    Grown (((bag.paint p .black).paint v.addr .black).paint g .red) fs s g (.mk s' p (.mk σ a x y) u) v (h + 1) := by
  obtain ⟨hu, hbu, -, htop, hrest⟩ := hg.frames.of_red hp
  obtain ⟨-, hbv, hfs⟩ := hrest.of_not_red fun hred => htop (redTop_cons.mpr hred)
  cases v with
  | nil => exact hv.elim
  | node b v₁ v₂ =>
    have hb0 : b ≠ 0 := hg.hung.linked.ctx.2.2.2.2.2.2.2.2.2.1.1
    obtain ⟨hhung, hpg, hpb, hgb, hapart⟩ := hg.hung.recolored hb0
    rw [Shape.addr] at hhung hpb hgb hapart ⊢
    have hcolor (c : ℕ) : (((bag.paint p .black).paint b .black).paint g .red).color c =
        if c = g then .red else if c = b then .black else if c = p then .black else bag.color c := by
      rw [color_paint, color_paint, color_paint]
    have hkeep {c : ℕ} (hc : c ∈ (Shape.mk σ a x y).addrs ++ u.addrs ++ (Shape.node b v₁ v₂).addrs.erase b ++ ctxAddrs fs) :
        (((bag.paint p .black).paint b .black).paint g .red).color c = bag.color c := by
      obtain ⟨hp, hg, hb⟩ := hapart c hc
      rw [hcolor, if_neg hg, if_neg hb, if_neg hp]
    have hpblack : (((bag.paint p .black).paint b .black).paint g .red).color p = .black := by
      rw [hcolor, if_neg hpg, if_neg hpb, if_pos rfl]
    have hbblack : (((bag.paint p .black).paint b .black).paint g .red).color b = .black := by
      rw [hcolor, if_neg hgb.symm, if_pos rfl]
    obtain ⟨-, -, hbv₁, hbv₂⟩ := Balanced.of_red (s := .left) hbv hv
    have hsub : ∀ c ∈ v₁.addrs ++ v₂.addrs, c ∈ (Shape.node b v₁ v₂).addrs.erase b := fun c hc => by
      have hperm := (addrs_mk .left b v₁ v₂).erase b
      rw [List.erase_cons_head] at hperm
      exact hperm.mem_iff.mpr hc
    refine ⟨hhung, (hcolor g).trans (if_pos rfl), ?_, ?_, ?_, ?_, hfs.congr fun c hc => hkeep (List.mem_append_right _ hc)⟩
    · rw [redAt_mk]
      exact fun hred => Color.noConfusion (hpblack.symm.trans hred)
    · exact fun hred => Color.noConfusion (hbblack.symm.trans hred)
    · refine balanced_black hpblack (hg.balanced.congr fun c hc => hkeep ?_) (hbu.congr fun c hc => hkeep ?_)
      · exact List.mem_append_left _ (List.mem_append_left _ (List.mem_append_left _ hc))
      · exact List.mem_append_left _ (List.mem_append_left _ (List.mem_append_right _ hc))
    · refine balanced_black (s := .left) hbblack (hbv₁.congr fun c hc => hkeep ?_) (hbv₂.congr fun c hc => hkeep ?_)
      · exact List.mem_append_left _ (List.mem_append_right _ (hsub c (List.mem_append_left _ hc)))
      · exact List.mem_append_left _ (List.mem_append_right _ (hsub c (List.mem_append_right _ hc)))

lemma Hung.turned (hg : Hung bag (⟨s, p, u⟩ :: ⟨s, g, v⟩ :: fs) t) :
    Hung (((bag.paint p .black).paint g .red).rotate s.other g) (⟨s, p, .mk s g u v⟩ :: fs) t ∧
      p ≠ g ∧ ∀ c ∈ t.addrs ++ u.addrs ++ v.addrs ++ ctxAddrs fs, c ≠ p ∧ c ≠ g := by
  have hg0 : g ≠ 0 := hg.linked.ctx.2.2.2.2.2.1
  obtain ⟨hpg, hapart⟩ : p ≠ g ∧ ∀ c ∈ t.addrs ++ u.addrs ++ v.addrs ++ ctxAddrs fs, c ≠ p ∧ c ≠ g := by
    refine two_apart hg.linked.nodup (List.perm_iff_count.mpr fun c => ?_)
    simp only [ctxAddrs, List.count_append, List.count_cons]
    ring
  have hcolor (c : ℕ) : (((bag.paint p .black).paint g .red).rotate s.other g).color c =
      if c = g then .red else if c = p then .black else bag.color c := by
    rw [color_rotate, color_paint, color_paint]
  refine ⟨⟨?_, fun f hf => ?_, ?_⟩, hpg, hapart⟩
  · rw [links_rotate]
    exact BagTree.turned hg.linked
  · cases fs with
    | nil =>
      obtain rfl : (⟨s, p, .mk s g u v⟩ : Frame) = f := Option.some.inj hf
      rw [hcolor, if_neg hpg, if_pos rfl]
      decide
    | cons f' fs =>
      rw [List.getLast?_cons_cons] at hf
      refine hg.root_congr (fun f hf => getLast_of_cons (getLast_of_cons hf)) (fun c hc => ?_) f hf
      obtain ⟨hp, hg⟩ := hapart c (List.mem_append_right _ hc)
      rw [hcolor, if_neg hg, if_neg hp]
  · rw [hcolor, if_neg hg0.symm]
    split_ifs
    · decide
    · exact hg.sentinel

lemma Grown.turned (hg : Grown bag (⟨s, p, u⟩ :: ⟨s, g, v⟩ :: fs) σ a x y h) (hp : bag.color p = .red)
    (hv : ¬RedAt bag.color v) :
    Grown (((bag.paint p .black).paint g .red).rotate s.other g) (⟨s, p, .mk s g u v⟩ :: fs) σ a x y h := by
  obtain ⟨hu, hbu, -, htop, hrest⟩ := hg.frames.of_red hp
  obtain ⟨-, hbv, hfs⟩ := hrest.of_not_red fun hred => htop (redTop_cons.mpr hred)
  obtain ⟨hhung, hpg, hapart⟩ := hg.hung.turned
  simp only [List.forall_mem_append] at hapart
  obtain ⟨⟨⟨ht, hu'⟩, hv'⟩, hfs'⟩ := hapart
  have hroot := ht a ((addrs_mk σ a x y).mem_iff.mpr List.mem_cons_self)
  have hsub : ∀ c ∈ x.addrs ++ y.addrs, c ≠ p ∧ c ≠ g := fun c hc =>
    ht c ((addrs_mk σ a x y).mem_iff.mpr (List.mem_cons_of_mem a hc))
  obtain ⟨hx, hy⟩ := List.forall_mem_append.mp hsub
  have hcolor (c : ℕ) : (((bag.paint p .black).paint g .red).rotate s.other g).color c =
      if c = g then .red else if c = p then .black else bag.color c := by
    rw [color_rotate, color_paint, color_paint]
  have hkeep {c : ℕ} (hc : c ≠ p ∧ c ≠ g) : (((bag.paint p .black).paint g .red).rotate s.other g).color c = bag.color c := by
    rw [hcolor, if_neg hc.2, if_neg hc.1]
  have hpblack : (((bag.paint p .black).paint g .red).rotate s.other g).color p = .black := by
    rw [hcolor, if_neg hpg, if_pos rfl]
  refine ⟨hhung, (hkeep hroot).trans hg.red, ?_, ?_, ?_, ?_, ?_⟩
  · exact mt (redAt_congr fun c hc => hkeep (hx c hc)).mp hg.left
  · exact mt (redAt_congr fun c hc => hkeep (hy c hc)).mp hg.right
  · exact hg.balancedLeft.congr fun c hc => hkeep (hx c hc)
  · exact hg.balancedRight.congr fun c hc => hkeep (hy c hc)
  · refine .black hpblack ?_ (hfs.congr fun c hc => hkeep (hfs' c hc))
    refine balanced_red ((hcolor g).trans (if_pos rfl)) ?_ ?_ ?_ ?_
    · exact mt (redAt_congr fun c hc => hkeep (hu' c hc)).mp hu
    · exact mt (redAt_congr fun c hc => hkeep (hv' c hc)).mp hv
    · exact hbu.congr fun c hc => hkeep (hu' c hc)
    · exact hbv.congr fun c hc => hkeep (hv' c hc)

lemma Hung.bent (hg : Hung bag (⟨s.other, p, u⟩ :: fs) (.mk s a x y)) (hp : bag.color p = .red) :
    Hung (bag.rotate s p) (⟨s, a, y⟩ :: fs) (.mk s p u x) := by
  obtain ⟨f, gs, rfl⟩ := hg.exists_grand hp
  refine ⟨?_, fun f hf => ?_, ?_⟩
  · rw [links_rotate]
    exact BagTree.bent hg.linked
  · rw [color_rotate]
    rw [List.getLast?_cons_cons] at hf
    exact hg.root f (getLast_of_cons hf)
  · rw [color_rotate]
    exact hg.sentinel

lemma Grown.bent (hg : Grown bag (⟨s.other, p, u⟩ :: fs) s a x y h) (hp : bag.color p = .red) :
    Grown (bag.rotate s p) (⟨s, a, y⟩ :: fs) s p u x h := by
  obtain ⟨hu, hbu, hne, htop, hrest⟩ := hg.frames.of_red hp
  refine ⟨hg.hung.bent hp, ?_, ?_, ?_, ?_, ?_, ?_⟩
  all_goals rw [color_rotate]
  · exact hp
  · exact hu
  · exact hg.left
  · exact hbu
  · exact hg.balancedLeft
  · exact .red hg.red hg.right hg.balancedRight hne htop hrest

lemma straighten_outer (h : At bag.links (⟨s, p, u⟩ :: fs) t) (ht : t.addr ≠ 0) :
    bag.straighten s t.addr = (t.addr, bag) := by
  have hparent : bag.parent t.addr = p := parent_addr h ht
  have hsib : bag.links.child s.other p = u.addr := h.ctx.2.2.2.1
  rw [Bag.straighten, hparent, hsib, if_neg]
  intro heq
  have hmem : u.addr ∈ ctxAddrs (⟨s, p, u⟩ :: fs) :=
    List.mem_cons_of_mem _ (List.mem_append_left _ (addr_mem (heq ▸ ht)))
  exact At.addr_ne h ht hmem heq.symm

lemma straighten_inner (h : At bag.links (⟨s.other, p, u⟩ :: fs) t) (ht : t.addr ≠ 0) :
    bag.straighten s t.addr = (p, bag.rotate s p) := by
  have hparent : bag.parent t.addr = p := parent_addr h ht
  have hhole : bag.links.child s.other p = t.addr := h.ctx.2.2.1
  rw [Bag.straighten, hparent, hhole, if_pos rfl]

/-- What the fixup leaves: a tree of the same nodes in the same order, which is red-black if it was balanced. -/
def Settled (bag : Bag α) (nodes : List ℕ) (balanced : Prop) (bag' : Bag α) : Prop :=
  SameItems bag bag' ∧ ∃ T, Woven bag' T ∧ T.addrs = nodes ∧ (balanced → RedBlack bag'.color T)

lemma Settled.after {bag₁ : Bag α} {nodes : List ℕ} {balanced balanced₁ : Prop}
    (h : Settled bag₁ nodes balanced₁ bag') (hsame : SameItems bag bag₁) (hbalanced : balanced → balanced₁) :
    Settled bag nodes balanced bag' := by
  obtain ⟨hsame', T, hwoven, haddrs, hrb⟩ := h
  exact ⟨hsame.trans hsame', T, hwoven, haddrs, hrb ∘ hbalanced⟩

lemma insertFixup_settles (hg : Hung bag fs (.mk σ a x y)) (hn : fs.length < n) :
    Ensures (Bag.insertFixup n a bag)
      (Settled bag (inorder fs (Shape.mk σ a x y).addrs) (∃ h, Grown bag fs σ a x y h)) := by
  induction n generalizing bag fs σ a x y with
  | zero => omega
  | succ n ih =>
    have turn {bag : Bag α} {s σ : Side} {a p g : ℕ} {x y u v : Shape} {fs : List Frame}
        {balanced : Prop} (hg : Hung bag (⟨s, p, u⟩ :: ⟨s, g, v⟩ :: fs) (.mk σ a x y))
        (hgrown : balanced → bag.color p = .red ∧ ∃ h, Grown bag (⟨s, p, u⟩ :: ⟨s, g, v⟩ :: fs) σ a x y h)
        (hv : ¬RedAt bag.color v) (hn : (⟨s, p, u⟩ :: ⟨s, g, v⟩ :: fs : List Frame).length < n + 1) :
        Ensures (Bag.insertFixup n a (((bag.paint p .black).paint g .red).rotate s.other g))
          (Settled bag (inorder (⟨s, p, u⟩ :: ⟨s, g, v⟩ :: fs) (Shape.mk σ a x y).addrs) balanced) := by
      have hlength : (⟨s, p, .mk s g u v⟩ :: fs : List Frame).length < n := by
        simp only [List.length_cons] at hn ⊢
        omega
      refine (ih hg.turned.1 hlength).imp fun bag' hsettled => ?_
      rw [inorder_turn] at hsettled
      have hpaint : SameItems bag ((bag.paint p .black).paint g .red) := ⟨rfl, rfl, rfl, rfl, rfl, rfl⟩
      refine hsettled.after (hpaint.trans (sameItems_rotate _ _ _)) fun hbalanced => ?_
      obtain ⟨hp, h, hgrown⟩ := hgrown hbalanced
      exact ⟨h, hgrown.turned hp hv⟩
    have ha0 : (Shape.mk σ a x y).addr ≠ 0 := by
      rw [addr_mk]
      exact (linked_mk.mp hg.linked.tree).1
    rw [Bag.insertFixup]
    by_cases htop : RedTop bag.color fs
    · cases fs with
      | nil => exact absurd htop fun ⟨f, hf, _⟩ => by cases hf
      | cons f fs =>
        obtain ⟨s', p, u⟩ := f
        have hp : bag.color p = .red := redTop_cons.mp htop
        obtain ⟨⟨s, g, v⟩, fs, rfl⟩ := hg.exists_grand hp
        have hroot : a ≠ bag.links.root := by
          have hroot := ne_root hg.linked
          rwa [addr_mk] at hroot
        have hparent : bag.parent a = p := by
          have hparent := parent_addr hg.linked ha0
          rwa [addr_mk] at hparent
        have hup := hg.linked.up
        have hp0 : (Frame.plug ⟨s', p, u⟩ (.mk σ a x y)).addr = p := addr_mk _ _ _ _
        have hpne : (Frame.plug ⟨s', p, u⟩ (.mk σ a x y)).addr ≠ 0 := hp0.symm ▸ hg.linked.ctx.1
        have hgrand : bag.parent p = g := by
          have hgrand := parent_addr hup hpne
          rwa [hp0] at hgrand
        have hside : bag.sideOf p = s := by
          have hside := sideOf_eq hup hpne
          rwa [hp0] at hside
        have huncle : bag.links.child s.other g = v.addr := hup.ctx.2.2.2.1
        rw [if_pos ⟨hroot, hparent.symm ▸ hp⟩]
        simp only [hparent, hgrand, hside, huncle]
        by_cases hv : RedAt bag.color v
        · rw [if_pos ((redAt_iff hg.sentinel).mpr hv)]
          have hv0 : v.addr ≠ 0 := by
            cases v with
            | nil => exact hv.elim
            | node b v₁ v₂ => exact hg.linked.ctx.2.2.2.2.2.2.2.2.2.1.1
          have hlength : fs.length < n := by
            simp only [List.length_cons] at hn
            omega
          have hsame : SameItems bag (((bag.paint p .black).paint v.addr .black).paint g .red) :=
            ⟨rfl, rfl, rfl, rfl, rfl, rfl⟩
          refine (ih (hg.recolored hv0).1 hlength).imp fun bag' hsettled => ?_
          rw [← inorder_mk, ← inorder_mk] at hsettled
          refine hsettled.after hsame ?_
          rintro ⟨h, hgrown⟩
          exact ⟨h + 1, hgrown.recolored hp hv⟩
        · rw [if_neg (mt (redAt_iff hg.sentinel).mp hv)]
          by_cases hs : s' = s
          · subst hs
            have houter := straighten_outer hg.linked ha0
            rw [addr_mk] at houter
            rw [houter]
            simp only [hparent, hgrand]
            exact turn hg (fun hgrown => ⟨hp, hgrown⟩) hv hn
          · obtain rfl : s' = s.other := by
              cases s <;> cases s' <;> first | rfl | exact absurd rfl hs
            obtain ⟨x', y', hmk, hflip⟩ : ∃ x' y', Shape.mk σ a x y = .mk s a x' y' ∧
                ∀ h fs, Grown bag fs σ a x y h → Grown bag fs s a x' y' h := by
              by_cases hσ : s = σ
              · subst hσ
                exact ⟨x, y, rfl, fun _ _ h => h⟩
              · obtain rfl : s = σ.other := by
                  cases s <;> cases σ <;> first | rfl | exact absurd rfl hσ
                exact ⟨y, x, (mk_other σ a y x).symm, fun _ _ h => h.flip⟩
            have hinner := straighten_inner hg.linked ha0
            rw [addr_mk] at hinner
            rw [hinner]
            rw [hmk] at hg ha0 ⊢
            have hbent := hg.bent hp
            have hp0' : (Shape.mk s p u x').addr ≠ 0 := by
              rw [addr_mk]
              exact hg.linked.ctx.1
            have hparent' : (bag.rotate s p).parent p = a := by
              have hparent' := parent_addr hbent.linked hp0'
              rwa [addr_mk] at hparent'
            have hgrand' : (bag.rotate s p).parent a = g := by
              have haddr : (Frame.plug ⟨s, a, y'⟩ (.mk s p u x')).addr = a := addr_mk _ _ _ _
              rw [addr_mk] at ha0
              have hgrand' := parent_addr hbent.linked.up (haddr.symm ▸ ha0)
              rwa [haddr] at hgrand'
            simp only [hparent', hgrand']
            have hcolor : (bag.rotate s p).color = bag.color := color_rotate s p bag
            rw [← inorder_bend]
            have hgrown : (∃ h, Grown bag (⟨s.other, p, u⟩ :: ⟨s, g, v⟩ :: fs) σ a x y h) →
                (bag.rotate s p).color a = .red ∧
                  ∃ h, Grown (bag.rotate s p) (⟨s, a, y'⟩ :: ⟨s, g, v⟩ :: fs) s p u x' h := by
              rintro ⟨h, hgrown⟩
              rw [hcolor]
              exact ⟨hgrown.red, h, (hflip h _ hgrown).bent hp⟩
            refine (turn hbent hgrown (by rwa [hcolor]) hn).imp fun bag' hsettled => ?_
            exact hsettled.after (sameItems_rotate s p bag) id
    · have hstop : ¬(a ≠ bag.links.root ∧ bag.color (bag.parent a) = .red) := by
        rintro ⟨hne, hred⟩
        cases fs with
        | nil =>
          have hroot := eq_root hg.linked
          rw [addr_mk] at hroot
          exact hne hroot
        | cons f fs =>
          have hparent := parent_addr hg.linked ha0
          rw [addr_mk] at hparent
          rw [hparent] at hred
          exact htop (redTop_cons.mpr hred)
      rw [if_neg hstop]
      refine ensures_some ⟨sameItems_paint _ _ bag, _, hg.ends, addrs_plugAll _ _, ?_⟩
      rintro ⟨h, hgrown⟩
      exact hgrown.ends htop

end Fixup

section NewNodes

/-- The bag has the tree, whose nodes have been allocated. -/
structure Sound (bag : Bag α) (T : Shape) : Prop where
  woven : Woven bag T
  below : ∀ a ∈ T.addrs, a < bag.next
  pos : 0 < bag.next

lemma Sound.length_lt (h : Sound bag T) : T.addrs.length < bag.next := by
  have hnodup : T.addrs.Nodup := (List.nodup_append.mp h.woven.linked.nodup).1
  have hsub : T.addrs.toFinset ⊆ Finset.Ioo 0 bag.next := fun a ha => by
    have hmem := List.mem_toFinset.mp ha
    have hne := h.woven.linked.tree.ne_zero hmem
    exact Finset.mem_Ioo.mpr ⟨Nat.pos_of_ne_zero hne, h.below a hmem⟩
  have hcard := Finset.card_le_card hsub
  rw [List.toFinset_card_of_nodup hnodup, Nat.card_Ioo] at hcard
  have hpos := h.pos
  omega

/-- Where a search for the place of an index ends. -/
lemma exists_leafFor (h : At bag.links fs t) (i : ℤ) (hside : ∀ f ∈ fs.head?, bag.sideFor i f.a = f.side)
    (hn : t.addrs.length < n) :
    ∃ gs pre post, At bag.links (gs ++ fs) .nil ∧ plugAll gs .nil = t ∧
      bag.leafFor i n (top fs) t.addr = some (top (gs ++ fs)) ∧
      (∀ f ∈ (gs ++ fs).head?, bag.sideFor i f.a = f.side) ∧ (∀ mid, inorder gs mid = pre ++ mid ++ post) ∧
      (t.addrs.Pairwise (fun b c => bag.index b ≤ bag.index c) →
        (∀ c ∈ pre, bag.index c < i) ∧ ∀ c ∈ post, i ≤ bag.index c) := by
  induction t generalizing fs n with
  | nil =>
    obtain ⟨n, rfl⟩ : ∃ m, n = m + 1 := ⟨n - 1, by omega⟩
    refine ⟨[], [], [], h, rfl, rfl, hside, fun mid => ?_, fun _ => ⟨by simp, by simp⟩⟩
    rw [List.nil_append, List.append_nil]
    rfl
  | node a l r ihl ihr =>
    obtain ⟨n, rfl⟩ : ∃ m, n = m + 1 := ⟨n - 1, by omega⟩
    obtain ⟨ha, -, hl, hr, -, -⟩ := h.tree
    rw [Shape.addrs, List.length_append, List.length_cons] at hn
    have hstep : bag.leafFor i (n + 1) (top fs) a =
        bag.leafFor i n a (bag.links.child (bag.sideFor i a) a) := by
      rw [Bag.leafFor, if_pos ha]
    rw [Shape.addr, hstep]
    cases hs : bag.sideFor i a with
    | left =>
      have hle : i ≤ bag.index a := by
        by_contra hgt
        rw [Bag.sideFor, if_neg hgt] at hs
        cases hs
      obtain ⟨gs, pre, post, hat, hplug, hleaf, hsides, hinorder, hbounds⟩ :=
        ihl (At.down (s := .left) h) (fun f hf => by obtain rfl := Option.some.inj hf; exact hs) (n := n) (by omega)
      refine ⟨gs ++ [⟨.left, a, r⟩], pre, post ++ a :: r.addrs, ?_, ?_, ?_, ?_, fun mid => ?_, fun hsorted => ?_⟩
      · rwa [List.append_assoc]
      · rw [plugAll_concat, hplug]
        rfl
      · rw [hl, List.append_assoc]
        exact hleaf
      · rwa [List.append_assoc]
      · rw [inorder_append, hinorder]
        exact List.append_assoc _ _ _
      · rw [Shape.addrs, List.pairwise_append, List.pairwise_cons] at hsorted
        obtain ⟨hpre, hpost⟩ := hbounds hsorted.1
        refine ⟨hpre, fun c hc => ?_⟩
        rcases List.mem_append.mp hc with hc | hc
        · exact hpost c hc
        · rcases List.mem_cons.mp hc with rfl | hc
          · exact hle
          · exact hle.trans (hsorted.2.1.1 c hc)
    | right =>
      have hlt : bag.index a < i := by
        by_contra hge
        rw [Bag.sideFor, if_pos (not_lt.mp hge)] at hs
        cases hs
      obtain ⟨gs, pre, post, hat, hplug, hleaf, hsides, hinorder, hbounds⟩ :=
        ihr (At.down (s := .right) h) (fun f hf => by obtain rfl := Option.some.inj hf; exact hs) (n := n) (by omega)
      refine ⟨gs ++ [⟨.right, a, l⟩], l.addrs ++ a :: pre, post, ?_, ?_, ?_, ?_, fun mid => ?_, fun hsorted => ?_⟩
      · rwa [List.append_assoc]
      · rw [plugAll_concat, hplug]
        rfl
      · rw [hr, List.append_assoc]
        exact hleaf
      · rwa [List.append_assoc]
      · rw [inorder_append, hinorder]
        simp only [inorder, List.append_assoc, List.cons_append]
      · rw [Shape.addrs, List.pairwise_append, List.pairwise_cons] at hsorted
        obtain ⟨hpre, hpost⟩ := hbounds hsorted.2.1.2
        refine ⟨fun c hc => ?_, hpost⟩
        rcases List.mem_append.mp hc with hc | hc
        · exact (hsorted.2.2 c hc a List.mem_cons_self).trans_lt hlt
        · rcases List.mem_cons.mp hc with rfl | hc
          · exact hlt
          · exact hpre c hc

lemma last_root {k : Links} {hole : ℕ} (h : CtxLinked k hole fs) : ∀ f ∈ fs.getLast?, k.root = f.a := by
  induction fs generalizing hole with
  | nil => exact fun f hf => by cases hf
  | cons g fs ih =>
    intro f hf
    cases fs with
    | nil =>
      obtain rfl : g = f := Option.some.inj hf
      exact h.2.2.2.2.2
    | cons g' fs =>
      rw [List.getLast?_cons_cons] at hf
      exact ih h.2.2.2.2.2 f hf

lemma rbTreeInsert_settles (h : Sound bag T) (ha : a ≠ 0) (hfresh : a ∉ T.addrs) (halloc : a < bag.next)
    (hchild : ∀ s, bag.links.child s a = 0) :
    Ensures (bag.rbTreeInsert a) fun bag' => SameItems bag bag' ∧ ∃ T' pre post, Sound bag' T' ∧
      T.addrs = pre ++ post ∧ T'.addrs = pre ++ a :: post ∧ (RedBlack bag.color T → RedBlack bag'.color T') ∧
      (T.addrs.Pairwise (fun b c => bag.index b ≤ bag.index c) →
        (∀ c ∈ pre, bag.index c < bag.index a) ∧ ∀ c ∈ post, bag.index a ≤ bag.index c) := by
  have hlength := h.length_lt
  obtain ⟨fs, pre, post, hat, hplug, hleaf, hside, hinorder, hbounds⟩ :=
    exists_leafFor (n := bag.fuel) h.woven.linked (bag.index a) (fun f hf => by cases hf) (by rw [Bag.fuel]; omega)
  rw [List.append_nil] at hat hleaf hside
  have haddrs : T.addrs = pre ++ post := by
    have heq := addrs_plugAll fs .nil
    rw [hplug, hinorder] at heq
    rw [heq, Shape.addrs, List.append_nil]
  have hperm : T.addrs.Perm (ctxAddrs fs) := by
    have heq := addrs_plugAll fs .nil
    rw [hplug] at heq
    rw [heq]
    exact inorder_perm fs _
  have hafs : a ∉ ctxAddrs fs := fun hmem => hfresh (hperm.mem_iff.mpr hmem)
  have hroot : bag.links.root = T.addr := h.woven.linked.ctx
  rw [Bag.rbTreeInsert, Bag.treeInsert]
  change Ensures ((bag.leafFor (bag.index a) bag.fuel (top []) bag.links.root >>= _) >>= _) _
  rw [hroot, hleaf]
  have hattached := hat.attach (s := bag.sideFor (bag.index a) (top fs)) ha hafs hchild fun f hf => by
    cases fs with
    | nil => cases hf
    | cons g fs =>
      obtain rfl : g = f := Option.some.inj hf
      exact (hside g rfl).symm
  let bag₁ : Bag α := { bag with links := bag.links.attach (bag.sideFor (bag.index a) (top fs)) (top fs) a }
  change Ensures (Bag.insertFixup bag₁.fuel a (bag₁.paint a .red)) _
  have hkeep {c : ℕ} (hc : c ∈ ctxAddrs fs) : (bag₁.paint a .red).color c = bag.color c := by
    rw [color_paint, if_neg (ne_of_mem_of_not_mem hc hafs)]
  have hsentinel : (bag₁.paint a .red).color nil ≠ .red := by
    rw [color_paint, if_neg ha.symm]
    exact h.woven.sentinel
  have hhung : Hung (bag₁.paint a .red) fs (.mk .left a .nil .nil) := by
    refine ⟨hattached, fun f hf => ?_, hsentinel⟩
    rw [hkeep (a_mem_ctxAddrs (List.mem_of_getLast? hf)), ← last_root hat.ctx f hf, hroot]
    exact fun hred => h.woven.root ((redAt_iff h.woven.sentinel).mp hred)
  have hframes : fs.length ≤ (ctxAddrs fs).length := by
    clear * -
    induction fs with
    | nil => exact le_refl _
    | cons f fs ih =>
      rw [ctxAddrs, List.length_cons, List.length_cons, List.length_append]
      omega
  have hfuel : fs.length < bag₁.fuel := by
    have heq := hperm.length_eq
    change fs.length < bag.next + 1
    omega
  refine (insertFixup_settles hhung hfuel).imp fun bag' hbag' => ?_
  obtain ⟨hsame, T', hwoven, haddrs', hrb⟩ := hbag'
  have haddrs'' : T'.addrs = pre ++ a :: post := by
    rw [haddrs', hinorder]
    simp only [Shape.mk, Shape.addrs, List.nil_append, List.append_assoc, List.cons_append]
  have hsame' : SameItems bag bag' := ⟨hsame.data, hsame.index, hsame.count, hsame.next, hsame.destructor, hsame.destroyed⟩
  refine ⟨hsame', T', pre, post, ⟨hwoven, fun c hc => ?_, ?_⟩, haddrs, haddrs'', fun hbalanced => hrb ?_, hbounds⟩
  · rw [hsame'.next]
    rw [haddrs'', List.perm_middle.mem_iff, List.mem_cons, ← haddrs] at hc
    rcases hc with rfl | hc
    · exact halloc
    · exact h.below c hc
  · rw [hsame'.next]
    exact h.pos
  · rw [← hplug] at hbalanced
    obtain ⟨m, hm, hfs, -⟩ := hbalanced.focus
    obtain rfl : m = 0 := by
      cases hm
      rfl
    exact ⟨0, hhung, Function.update_self _ _ _, id, id, .nil, .nil, hfs.congr fun c hc => hkeep hc⟩

lemma Sound.newNode (h : Sound bag T) (item : Option α) (i : ℤ) :
    Sound (bag.newNode item i) T ∧ (∀ s, (bag.newNode item i).links.child s bag.next = 0) ∧
      (∀ c ∈ T.addrs, (bag.newNode item i).color c = bag.color c ∧ (bag.newNode item i).index c = bag.index c ∧
        (bag.newNode item i).data c = bag.data c) := by
  have hnext : bag.next ≠ 0 := h.pos.ne'
  have hne {c : ℕ} (hc : c ∈ T.addrs) : c ≠ bag.next := (h.below c hc).ne
  have hchild (s : Side) (c : ℕ) : (bag.newNode item i).links.child s c =
      if c = bag.next then nil else bag.links.child s c := by
    rw [Bag.newNode]
    dsimp only
    rw [child_setChild, child_setChild, child_setParent]
    cases s <;> split_ifs <;> simp_all
  have hparent (c : ℕ) : (bag.newNode item i).links.parent c = if c = bag.next then nil else bag.links.parent c := by
    rw [Bag.newNode]
    dsimp only
    rw [parent_setChild, parent_setChild, parent_setParent]
  have hcolor {c : ℕ} (hc : c ∈ T.addrs) : (bag.newNode item i).color c = bag.color c :=
    Function.update_of_ne (hne hc) _ _
  refine ⟨⟨⟨?_, mt (redAt_congr fun c hc => hcolor hc).mp h.woven.root, ?_⟩, fun c hc => ?_, Nat.succ_pos _⟩,
    fun s => (hchild s _).trans (if_pos rfl), fun c hc => ?_⟩
  · refine h.woven.linked.congr (fun c hc => ?_) (fun c hc s => ?_) rfl fun s => ?_
    · rw [ctxAddrs, List.append_nil] at hc
      rw [hparent, if_neg (hne hc)]
    · rw [ctxAddrs, List.append_nil] at hc
      rw [hchild, if_neg (hne hc)]
    · rw [hchild, if_neg hnext.symm, h.woven.linked.leaf]
  · have h0 : (bag.newNode item i).color nil = bag.color nil := Function.update_of_ne hnext.symm _ _
    rw [h0]
    exact h.woven.sentinel
  · exact (h.below c hc).trans (Nat.lt_succ_self _)
  · exact ⟨hcolor hc, Function.update_of_ne (hne hc) _ _, Function.update_of_ne (hne hc) _ _⟩

lemma addNode_settles (h : Sound bag T) (item : Option α) (i : ℤ) :
    Ensures (bag.addNode item i) fun bag' => SameItems (bag.newNode item i) bag' ∧ ∃ T' pre post, Sound bag' T' ∧
      T.addrs = pre ++ post ∧ T'.addrs = pre ++ bag.next :: post ∧ (RedBlack bag.color T → RedBlack bag'.color T') ∧
      (T.addrs.Pairwise (fun b c => bag.index b ≤ bag.index c) →
        (∀ c ∈ pre, bag.index c < i) ∧ ∀ c ∈ post, i ≤ bag.index c) := by
  obtain ⟨hsound, hchild, hkeep⟩ := h.newNode item i
  have hfresh : bag.next ∉ T.addrs := fun hmem => absurd (h.below _ hmem) (lt_irrefl _)
  refine (rbTreeInsert_settles hsound h.pos.ne' hfresh (Nat.lt_succ_self _) hchild).imp fun bag' hbag' => ?_
  obtain ⟨hsame, T', pre, post, hsound', haddrs, haddrs', hrb, hbounds⟩ := hbag'
  have hnew : (bag.newNode item i).index bag.next = i := Function.update_self _ _ _
  refine ⟨hsame, T', pre, post, hsound', haddrs, haddrs', fun hbalanced => hrb ?_, fun hsorted => ?_⟩
  · obtain ⟨⟨m, hm⟩, -⟩ := hbalanced
    exact ⟨⟨m, hm.congr fun c hc => (hkeep c hc).1⟩, hsound.woven.root⟩
  · have hsorted' : T.addrs.Pairwise fun b c => (bag.newNode item i).index b ≤ (bag.newNode item i).index c := by
      refine hsorted.imp_of_mem fun hb hc hle => ?_
      rwa [(hkeep _ hb).2.1, (hkeep _ hc).2.1]
    obtain ⟨hpre, hpost⟩ := hbounds hsorted'
    refine ⟨fun c hc => ?_, fun c hc => ?_⟩
    · have hlt := hpre c hc
      rwa [hnew, (hkeep c (haddrs ▸ List.mem_append_left _ hc)).2.1] at hlt
    · have hle := hpost c hc
      rwa [hnew, (hkeep c (haddrs ▸ List.mem_append_right _ hc)).2.1] at hle

end NewNodes

end Xperimentum.WMcore.BagTree
