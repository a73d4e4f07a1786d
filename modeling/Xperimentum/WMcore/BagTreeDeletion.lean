import Xperimentum.WMcore.BagTreeInsertion

/-! A node that is taken out of the tree of a bag leaves it red-black, unless the fixup is skipped, or turns a red
inner child beside the sentinel. -/

namespace Xperimentum.WMcore.BagTree

open Lib.LinkedTrees Lib.Partial Lib.RedBlack

variable {α : Type} {bag bag' : Bag α} {fs : List Frame} {f : Frame} {s : Side} {a p w h n : ℕ}
  {t x y i o sib T : Shape}

/-- The turn below `p` starts with a rotation of the sibling. -/
def Bag.InnerRed (s : Side) (p : ℕ) (self : Bag α) : Prop :=
  let w := self.links.child s.other p
  let w := if self.color w = .red then self.links.child s w else w
  self.color (self.links.child s w) = .red ∧ self.color (self.links.child s.other w) = .black

instance (s : Side) (p : ℕ) (bag : Bag α) : Decidable (bag.InnerRed s p) := inferInstanceAs (Decidable (_ ∧ _))

section Siblings

/-- A part whose ways down meet one black node less than the frames need. -/
structure Short (bag : Bag α) (fs : List Frame) (t : Shape) (h : ℕ) : Prop where
  linked : At bag.links fs t
  parent : bag.parent t.addr = top fs
  balanced : Balanced bag.color t h
  frames : FrameBalanced bag.color fs (h + 1)
  sentinel : bag.color nil ≠ .red
  empty : t = .nil → fs ≠ [] → bag.color nil = .black

lemma black_iff (hb : Balanced bag.color t h) (hnil : t = .nil → bag.color nil = .black) :
    bag.color t.addr = .black ↔ ¬RedAt bag.color t := by
  cases hb with
  | nil => exact iff_of_true (hnil rfl) id
  | red ha => exact iff_of_false (fun hblack => Color.noConfusion (ha.symm.trans hblack)) (fun hred => hred ha)
  | black ha => exact iff_of_true ha fun hred => Color.noConfusion (ha.symm.trans hred)

lemma frame_apart (h : At bag.links (⟨s, p, .mk s w i o⟩ :: fs) t) :
    p ≠ w ∧ ∀ c ∈ t.addrs ++ i.addrs ++ o.addrs ++ ctxAddrs fs, c ≠ p ∧ c ≠ w := by
  refine two_apart h.nodup (List.perm_iff_count.mpr fun c => ?_)
  have hmk := (addrs_mk s w i o).count_eq c
  simp only [ctxAddrs, List.count_append, List.count_cons] at hmk ⊢
  omega

lemma Short.sibling (hs : Short bag (⟨s, p, sib⟩ :: fs) t h) : ∃ w i o, sib = .mk s w i o := by
  have hb : Balanced bag.color sib (h + 1) := by
    by_cases hp : bag.color p = .red
    · exact (hs.frames.of_red hp).2.1
    · exact (hs.frames.of_not_red hp).2.1
  exact hb.exists_mk s

lemma Short.sibling_addr (hs : Short bag (⟨s, p, sib⟩ :: fs) t h) :
    bag.links.child s.other (bag.parent t.addr) = sib.addr := by
  rw [hs.parent]
  exact hs.linked.ctx.2.2.2.1

lemma Short.blackened (hs : Short bag (⟨s, p, sib⟩ :: fs) t h) :
    ∃ w i o gs, Short (bag.blackenSibling s t.addr) (⟨s, p, .mk s w i o⟩ :: gs) t h ∧
      (bag.blackenSibling s t.addr).color w = .black ∧
      (gs.length = fs.length ∨ (bag.blackenSibling s t.addr).color p = .red) ∧
      (∀ c ∈ t.addrs, (bag.blackenSibling s t.addr).color c = bag.color c) ∧
      inorder (⟨s, p, .mk s w i o⟩ :: gs) t.addrs = inorder (⟨s, p, sib⟩ :: fs) t.addrs ∧
      SameItems bag (bag.blackenSibling s t.addr) ∧
      (bag.InnerRed s p ↔ (bag.blackenSibling s t.addr).color i.addr = .red ∧
        (bag.blackenSibling s t.addr).color o.addr = .black) := by
  obtain ⟨w, i, o, rfl⟩ := hs.sibling
  have hw := hs.sibling_addr
  rw [addr_mk] at hw
  obtain ⟨hp0, hparp, hhole, hsib, hlinked, hctx⟩ := hs.linked.ctx
  obtain ⟨hw0, -, hnear, hfar, hlinki, -⟩ := linked_mk.mp hlinked
  dsimp only at hp0 hparp hhole hsib
  rw [addr_mk] at hsib
  by_cases hred : bag.color w = .red
  · -- the parent is black, so it may be painted red below the sibling
    have hp : bag.color p ≠ .red := fun hp => (hs.frames.of_red hp).1 (redAt_mk.mpr hred)
    obtain ⟨hpblack, hbsib, hfs⟩ := hs.frames.of_not_red hp
    obtain ⟨hi', ho', hbi, hbo⟩ := hbsib.of_red hred
    obtain ⟨j, i₁, i₂, rfl⟩ := hbi.exists_mk s
    obtain ⟨hj0, -, hi₁, hi₂, -, -⟩ := linked_mk.mp hlinki
    obtain ⟨hpw, hapart⟩ := frame_apart hs.linked
    simp only [List.forall_mem_append] at hapart
    obtain ⟨⟨⟨ht, hi⟩, ho⟩, hfs'⟩ := hapart
    have hblacken : bag.blackenSibling s t.addr = ((bag.paint w .black).paint p .red).rotate s p := by
      rw [Bag.blackenSibling, hw, hs.parent]
      exact if_pos hred
    rw [hblacken]
    have hcolor (c : ℕ) : (((bag.paint w .black).paint p .red).rotate s p).color c =
        if c = p then .red else if c = w then .black else bag.color c := by
      rw [color_rotate, color_paint, color_paint]
    have hkeep {c : ℕ} (hc : c ≠ p ∧ c ≠ w) : (((bag.paint w .black).paint p .red).rotate s p).color c = bag.color c := by
      rw [hcolor, if_neg hc.1, if_neg hc.2]
    have hroot {u : Shape} (hu : ∀ c ∈ u.addrs, c ≠ p ∧ c ≠ w) : u.addr ≠ p ∧ u.addr ≠ w := by
      by_cases hu0 : u.addr = 0
      · rw [hu0]
        exact ⟨Ne.symm hp0, Ne.symm hw0⟩
      · exact hu _ (addr_mem hu0)
    have hrotated := hs.linked.up.rotate
    rw [addr_mk, if_neg hj0] at hrotated
    have hlinked' : At (((bag.paint w .black).paint p .red).rotate s p).links
        (⟨s, p, .mk s j i₁ i₂⟩ :: ⟨s, w, o⟩ :: fs) t := by
      rw [links_rotate]
      exact hrotated.1.down.down
    have hwblack : (((bag.paint w .black).paint p .red).rotate s p).color w = .black := by
      rw [hcolor, if_neg hpw.symm, if_pos rfl]
    have hpred : (((bag.paint w .black).paint p .red).rotate s p).color p = .red := (hcolor p).trans (if_pos rfl)
    have hjblack := (hbi.of_not_red fun hred => hi' (redAt_mk.mpr hred)).1
    have hi₁' := hroot fun c hc => hi c ((addrs_mk s j i₁ i₂).mem_iff.mpr
      (List.mem_cons_of_mem j (List.mem_append_left _ hc)))
    have hi₂' := hroot fun c hc => hi c ((addrs_mk s j i₁ i₂).mem_iff.mpr
      (List.mem_cons_of_mem j (List.mem_append_right _ hc)))
    have hj := hroot hi
    rw [addr_mk] at hj
    refine ⟨j, i₁, i₂, ⟨s, w, o⟩ :: fs, ⟨hlinked', ?_, ?_, ?_, ?_, ?_⟩, ?_, .inr hpred, fun c hc => hkeep (ht c hc), ?_, ?_, ?_⟩
    · by_cases ht0 : t.addr = 0
      · have hparent := hs.parent
        rw [ht0] at hparent ⊢
        rw [Bag.parent, links_rotate]
        exact hrotated.2.trans hparent
      · exact parent_addr hlinked' ht0
    · exact hs.balanced.congr fun c hc => hkeep (ht c hc)
    · refine .red hpred ?_ ?_ (List.cons_ne_nil _ _) ?_ (.black hwblack ?_ ?_)
      · exact mt (redAt_congr fun c hc => hkeep (hi c hc)).mp hi'
      · exact hbi.congr fun c hc => hkeep (hi c hc)
      · exact fun htop => Color.noConfusion (hwblack.symm.trans (redTop_cons.mp htop))
      · exact hbo.congr fun c hc => hkeep (ho c hc)
      · exact hfs.congr fun c hc => hkeep (hfs' c hc)
    · rw [hkeep ⟨Ne.symm hp0, Ne.symm hw0⟩]
      exact hs.sentinel
    · intro htnil _
      rw [hkeep ⟨Ne.symm hp0, Ne.symm hw0⟩]
      exact hs.empty htnil (List.cons_ne_nil _ _)
    · rw [hkeep hj]
      exact hjblack
    · cases s <;> simp only [inorder, Shape.mk, Shape.addrs, List.append_assoc, List.cons_append]
    · have hpaint : SameItems bag ((bag.paint w .black).paint p .red) := ⟨rfl, rfl, rfl, rfl, rfl, rfl⟩
      exact hpaint.trans (sameItems_rotate _ _ _)
    · rw [Bag.InnerRed, hsib, if_pos hred, hnear, addr_mk, hi₁, hi₂, hkeep hi₁', hkeep hi₂']
  · have hblacken : bag.blackenSibling s t.addr = bag := by
      rw [Bag.blackenSibling, hw]
      exact if_neg hred
    rw [hblacken]
    have hbsib : Balanced bag.color (.mk s w i o) (h + 1) := by
      by_cases hp : bag.color p = .red
      · exact (hs.frames.of_red hp).2.1
      · exact (hs.frames.of_not_red hp).2.1
    refine ⟨w, i, o, fs, hs, (hbsib.of_not_red hred).1, .inl rfl, fun _ _ => rfl, rfl, .refl bag, ?_⟩
    rw [Bag.InnerRed, hsib, if_neg hred, hnear, hfar]

lemma Short.near_far (hs : Short bag (⟨s, p, .mk s w i o⟩ :: fs) t h) (hw : bag.color w = .black) :
    Balanced bag.color i h ∧ Balanced bag.color o h := by
  have hne : bag.color w ≠ .red := by
    rw [hw]
    decide
  have hb : Balanced bag.color (.mk s w i o) (h + 1) := by
    by_cases hp : bag.color p = .red
    · exact (hs.frames.of_red hp).2.1
    · exact (hs.frames.of_not_red hp).2.1
  obtain ⟨-, k, hk, hbi, hbo⟩ := hb.of_not_red hne
  obtain rfl : h = k := Nat.succ.inj hk
  exact ⟨hbi, hbo⟩

lemma Short.nil_black (hs : Short bag (f :: fs) t h) (ht : ¬RedAt bag.color t) (hb : Balanced bag.color x h) :
    x = .nil → bag.color nil = .black := by
  rintro rfl
  obtain rfl : h = 0 := by
    cases hb
    rfl
  exact hs.empty (hs.balanced.eq_nil ht) (List.cons_ne_nil _ _)

/-- Both ways down are one black node shorter now. -/
lemma Short.evened (hs : Short bag (⟨s, p, .mk s w i o⟩ :: fs) t h) (ht : ¬RedAt bag.color t)
    (hw : bag.color w = .black) (hi : ¬RedAt bag.color i) (ho : ¬RedAt bag.color o) :
    At (bag.paint w .red).links fs (.mk s p t (.mk s w i o)) ∧ (bag.paint w .red).color p = bag.color p ∧
      Balanced (bag.paint w .red).color t h ∧ Balanced (bag.paint w .red).color (.mk s w i o) h ∧
      ¬RedAt (bag.paint w .red).color t ∧ FrameBalanced (bag.paint w .red).color fs (if bag.color p = .red then h + 1 else h + 2) ∧
      (bag.paint w .red).color nil ≠ .red ∧ (bag.color p = .red ∨ bag.color p = .black) := by
  obtain ⟨hbi, hbo⟩ := hs.near_far hw
  obtain ⟨hpw, hapart⟩ := frame_apart hs.linked
  have hw0 : w ≠ 0 := (linked_mk.mp hs.linked.ctx.2.2.2.2.1).1
  simp only [List.forall_mem_append] at hapart
  obtain ⟨⟨⟨ht', hi'⟩, ho'⟩, hfs'⟩ := hapart
  have hkeep {c : ℕ} (hc : c ≠ w) : (bag.paint w .red).color c = bag.color c := by
    rw [color_paint, if_neg hc]
  have hwred : (bag.paint w .red).color w = .red := Function.update_self _ _ _
  have hup : At bag.links fs (.mk s p t (.mk s w i o)) := hs.linked.up
  refine ⟨hup, hkeep hpw, hs.balanced.congr fun c hc => hkeep (ht' c hc).2, ?_, ?_, ?_, ?_, ?_⟩
  · refine balanced_red hwred ?_ ?_ ?_ ?_
    · exact mt (redAt_congr fun c hc => hkeep (hi' c hc).2).mp hi
    · exact mt (redAt_congr fun c hc => hkeep (ho' c hc).2).mp ho
    · exact hbi.congr fun c hc => hkeep (hi' c hc).2
    · exact hbo.congr fun c hc => hkeep (ho' c hc).2
  · exact mt (redAt_congr fun c hc => hkeep (ht' c hc).2).mp ht
  · have hfs : FrameBalanced bag.color fs (if bag.color p = .red then h + 1 else h + 2) := by
      split_ifs with hp
      · exact (hs.frames.of_red hp).2.2.2.2
      · exact (hs.frames.of_not_red hp).2.2
    exact hfs.congr fun c hc => hkeep (hfs' c hc).2
  · rw [hkeep hw0.symm]
    exact hs.sentinel
  · by_cases hp : bag.color p = .red
    · exact .inl hp
    · exact .inr (hs.frames.of_not_red hp).1

/-- The sibling is exchanged for its red near child. -/
lemma Short.turned (hs : Short bag (⟨s, p, .mk s w i o⟩ :: fs) t h) (ht : ¬RedAt bag.color t)
    (hw : bag.color w = .black) (hred : ¬(bag.color i.addr = .black ∧ bag.color o.addr = .black))
    (hinner : t = .nil → ¬(bag.color i.addr = .red ∧ bag.color o.addr = .black)) :
    ∃ w' i' o', Short (bag.turnSibling s t.addr) (⟨s, p, .mk s w' i' o'⟩ :: fs) t h ∧
      (bag.turnSibling s t.addr).color w' = .black ∧ RedAt (bag.turnSibling s t.addr).color o' ∧
      inorder (⟨s, p, .mk s w' i' o'⟩ :: fs) t.addrs = inorder (⟨s, p, .mk s w i o⟩ :: fs) t.addrs ∧
      SameItems bag (bag.turnSibling s t.addr) := by
  obtain ⟨hbi, hbo⟩ := hs.near_far hw
  have hiblack := black_iff hbi (hs.nil_black ht hbi)
  have hoblack := black_iff hbo (hs.nil_black ht hbo)
  have hsib := hs.sibling_addr
  rw [addr_mk] at hsib
  obtain ⟨hp0, -, -, -, hlinked, -⟩ := hs.linked.ctx
  obtain ⟨hw0, -, hnear, hfar, hlinki, -⟩ := linked_mk.mp hlinked
  dsimp only at hp0
  by_cases ho : RedAt bag.color o
  · have hturn : bag.turnSibling s t.addr = bag := by
      rw [Bag.turnSibling, hsib, hfar]
      exact if_neg fun hblack => hoblack.mp hblack ho
    rw [hturn]
    exact ⟨w, i, o, hs, hw, ho, rfl, .refl bag⟩
  · have hi : RedAt bag.color i := by
      by_contra hi
      exact hred ⟨hiblack.mpr hi, hoblack.mpr ho⟩
    have htne : t ≠ .nil := by
      intro htnil
      refine hinner htnil ⟨?_, hoblack.mpr ho⟩
      exact (redAt_iff hs.sentinel).mpr hi
    obtain ⟨j, i₁, i₂, rfl⟩ : ∃ j i₁ i₂, i = .mk s j i₁ i₂ := by
      cases i with
      | nil => exact hi.elim
      | node j l r =>
        cases s
        · exact ⟨j, l, r, rfl⟩
        · exact ⟨j, r, l, rfl⟩
    obtain ⟨hi₁, hi₂, hbi₁, hbi₂⟩ := hbi.of_red (redAt_mk.mp hi)
    obtain ⟨hj0, -, -, -, -, -⟩ := linked_mk.mp hlinki
    rw [addr_mk] at hnear
    obtain ⟨hpw, hapart⟩ := frame_apart hs.linked
    obtain ⟨hwj, hapart'⟩ : w ≠ j ∧ ∀ c ∈ p :: (t.addrs ++ i₁.addrs ++ i₂.addrs ++ o.addrs ++ ctxAddrs fs), c ≠ w ∧ c ≠ j := by
      refine two_apart hs.linked.nodup (List.perm_iff_count.mpr fun c => ?_)
      have hmk := (addrs_mk s w (.mk s j i₁ i₂) o).count_eq c
      have hmk' := (addrs_mk s j i₁ i₂).count_eq c
      simp only [ctxAddrs, List.count_append, List.count_cons] at hmk hmk' ⊢
      omega
    simp only [List.forall_mem_cons, List.forall_mem_append] at hapart'
    obtain ⟨hp, ⟨⟨⟨ht', hi₁'⟩, hi₂'⟩, ho'⟩, hfs'⟩ := hapart'
    have hturn : bag.turnSibling s t.addr = ((bag.paint j .black).paint w .red).rotate s.other w := by
      rw [Bag.turnSibling, hsib, hfar, hnear]
      exact if_pos (hoblack.mpr ho)
    rw [hturn]
    have hcolor (c : ℕ) : (((bag.paint j .black).paint w .red).rotate s.other w).color c =
        if c = w then .red else if c = j then .black else bag.color c := by
      rw [color_rotate, color_paint, color_paint]
    have hkeep {c : ℕ} (hc : c ≠ w ∧ c ≠ j) :
        (((bag.paint j .black).paint w .red).rotate s.other w).color c = bag.color c := by
      rw [hcolor, if_neg hc.1, if_neg hc.2]
    have hzero : (((bag.paint j .black).paint w .red).rotate s.other w).color nil = bag.color nil :=
      hkeep ⟨Ne.symm hw0, Ne.symm hj0⟩
    have hwred : (((bag.paint j .black).paint w .red).rotate s.other w).color w = .red := (hcolor w).trans (if_pos rfl)
    have hjblack : (((bag.paint j .black).paint w .red).rotate s.other w).color j = .black := by
      rw [hcolor, if_neg hwj.symm, if_pos rfl]
    have hlinked' : At (((bag.paint j .black).paint w .red).rotate s.other w).links
        (⟨s, p, .mk s j i₁ (.mk s w i₂ o)⟩ :: fs) t := by
      have hdown : At bag.links (⟨s.other, p, t⟩ :: fs) (.mk s.other w o (.mk s.other j i₂ i₁)) := by
        rw [mk_other, mk_other]
        exact hs.linked.up.down_other
      have hrotated := hdown.rotate.1.up
      rw [Frame.plug, mk_other, mk_other, mk_other] at hrotated
      rw [links_rotate]
      exact hrotated.down
    have hbred : Balanced (((bag.paint j .black).paint w .red).rotate s.other w).color (.mk s w i₂ o) h := by
      refine balanced_red hwred ?_ ?_ ?_ ?_
      · exact mt (redAt_congr fun c hc => hkeep (hi₂' c hc)).mp hi₂
      · exact mt (redAt_congr fun c hc => hkeep (ho' c hc)).mp ho
      · exact hbi₂.congr fun c hc => hkeep (hi₂' c hc)
      · exact hbo.congr fun c hc => hkeep (ho' c hc)
    have hbsib := balanced_black (s := s) hjblack (hbi₁.congr fun c hc => hkeep (hi₁' c hc)) hbred
    refine ⟨j, i₁, .mk s w i₂ o, ⟨hlinked', ?_, ?_, ?_, ?_, fun htnil => absurd htnil htne⟩, hjblack, redAt_mk.mpr hwred, ?_, ?_⟩
    · have ht0 : t.addr ≠ 0 := by
        cases t with
        | nil => exact absurd rfl htne
        | node => exact hs.linked.tree.1
      exact parent_addr hlinked' ht0
    · exact hs.balanced.congr fun c hc => hkeep (ht' c hc)
    · by_cases hpred : bag.color p = .red
      · obtain ⟨-, -, hne, htop, hrest⟩ := hs.frames.of_red hpred
        refine .red ((hkeep hp).trans hpred) ?_ hbsib hne ?_ (hrest.congr fun c hc => hkeep (hfs' c hc))
        · exact fun hred => Color.noConfusion (hjblack.symm.trans (redAt_mk.mp hred))
        · exact mt (redTop_congr fun c hc => hkeep (hfs' c hc)).mp htop
      · obtain ⟨hpblack, -, hrest⟩ := hs.frames.of_not_red hpred
        exact .black ((hkeep hp).trans hpblack) hbsib (hrest.congr fun c hc => hkeep (hfs' c hc))
    · rw [hzero]
      exact hs.sentinel
    · cases s <;> simp only [inorder, Shape.mk, Shape.addrs, List.append_assoc, List.cons_append]
    · have hpaint : SameItems bag ((bag.paint j .black).paint w .red) := ⟨rfl, rfl, rfl, rfl, rfl, rfl⟩
      exact hpaint.trans (sameItems_rotate _ _ _)

end Siblings

section Loop

lemma RedBlack.root_black (hrb : RedBlack bag.color T) (hT : T.addr ≠ 0) : bag.color T.addr = .black := by
  obtain ⟨⟨m, hm⟩, hroot⟩ := hrb
  cases T with
  | nil => exact absurd rfl hT
  | node a l r => exact (Balanced.of_not_red (s := .left) hm hroot).1

lemma Short.sideOf (hs : Short bag (f :: fs) t h) : bag.sideOf t.addr = f.side := by
  obtain ⟨s, p, sib⟩ := f
  by_cases ht : t.addr = 0
  · obtain ⟨w, i, o, rfl⟩ := hs.sibling
    obtain ⟨-, -, hhole, hsib, hlinked, -⟩ := hs.linked.ctx
    have hw0 : w ≠ 0 := (linked_mk.mp hlinked).1
    rw [addr_mk] at hsib
    rw [Bag.sideOf, hs.parent, top, Bag.left]
    cases s with
    | left => exact if_pos hhole.symm
    | right =>
      refine if_neg fun heq => hw0 ?_
      rw [← ht, heq]
      exact hsib.symm
  · exact sideOf_eq hs.linked ht

/-- The end of the loop: the node that it has come to is painted black. -/
lemma painted (hat : At bag.links fs t) (hb : Balanced bag.color t h) (hsentinel : bag.color nil ≠ .red)
    (hfs : RedAt bag.color t → FrameBalanced bag.color fs (h + 1)) (hroot : ¬RedAt bag.color t → fs = []) :
    Woven (bag.paint t.addr .black) (plugAll fs t) ∧ RedBlack (bag.paint t.addr .black).color (plugAll fs t) := by
  have hsentinel' : (bag.paint t.addr .black).color nil ≠ .red := by
    rw [color_paint]
    split_ifs
    · decide
    · exact hsentinel
  have hrb : RedBlack (bag.paint t.addr .black).color (plugAll fs t) := by
    by_cases ht : RedAt bag.color t
    · cases t with
      | nil => exact ht.elim
      | node a l r =>
        have hne := ne_of_perm hat.nodup ((addrs_mk .left a l r).append_right (ctxAddrs fs))
        have hkeep {c : ℕ} (hc : c ∈ l.addrs ++ r.addrs ++ ctxAddrs fs) : (bag.paint a .black).color c = bag.color c := by
          rw [color_paint, if_neg (hne c hc)]
        obtain ⟨-, -, hbl, hbr⟩ := Balanced.of_red (s := .left) hb ht
        have hblack : (bag.paint a .black).color a = .black := Function.update_self _ _ _
        have hbalanced : Balanced (bag.paint a .black).color (.node a l r) (h + 1) := by
          refine .black hblack (hbl.congr fun c hc => hkeep ?_) (hbr.congr fun c hc => hkeep ?_)
          · exact List.mem_append_left _ (List.mem_append_left _ hc)
          · exact List.mem_append_left _ (List.mem_append_right _ hc)
        refine ((hfs ht).congr fun c hc => hkeep (List.mem_append_right _ hc)).plug hbalanced fun _ hred => ?_
        exact Color.noConfusion (hblack.symm.trans hred)
    · obtain rfl := hroot ht
      rw [plugAll]
      cases t with
      | nil => exact ⟨⟨0, .nil⟩, id⟩
      | node a l r =>
        have hblack := (Balanced.of_not_red (s := .left) hb ht).1
        have hsame : (bag.paint a .black).color = bag.color := by
          rw [Bag.paint, ← hblack]
          exact Function.update_eq_self _ _
        rw [Shape.addr, hsame]
        exact ⟨⟨h, hb⟩, ht⟩
  exact ⟨⟨hat.root, hrb.root, hsentinel'⟩, hrb⟩

/-- The rotation that ends the loop. -/
lemma Short.closed (hs : Short bag (⟨s, p, .mk s w i o⟩ :: fs) t h) (hw : bag.color w = .black)
    (ho : RedAt bag.color o) :
    Woven (bag.closeGap s t.addr) (plugAll fs (.mk s w (.mk s p t i) o)) ∧
      RedBlack (bag.closeGap s t.addr).color (plugAll fs (.mk s w (.mk s p t i) o)) ∧
      SameItems bag (bag.closeGap s t.addr) := by
  obtain ⟨hbi, hbo⟩ := hs.near_far hw
  have hsib := hs.sibling_addr
  rw [addr_mk] at hsib
  obtain ⟨hp0, -, -, -, hlinked, -⟩ := hs.linked.ctx
  obtain ⟨hw0, -, -, hfar, -, hlinko⟩ := linked_mk.mp hlinked
  dsimp only at hp0
  cases o with
  | nil => exact ho.elim
  | node e l r =>
    have he0 : e ≠ 0 := hlinko.1
    obtain ⟨-, -, hbl, hbr⟩ := Balanced.of_red (s := .left) hbo ho
    obtain ⟨hpw, hpe, hwe, hapart⟩ : p ≠ w ∧ p ≠ e ∧ w ≠ e ∧
        ∀ c ∈ t.addrs ++ i.addrs ++ l.addrs ++ r.addrs ++ ctxAddrs fs, c ≠ p ∧ c ≠ w ∧ c ≠ e := by
      refine three_apart hs.linked.nodup (List.perm_iff_count.mpr fun c => ?_)
      have hmk := (addrs_mk s w i (.node e l r)).count_eq c
      simp only [ctxAddrs, Shape.addrs, List.count_append, List.count_cons] at hmk ⊢
      omega
    simp only [List.forall_mem_append] at hapart
    obtain ⟨⟨⟨⟨ht', hi'⟩, hl'⟩, hr'⟩, hfs'⟩ := hapart
    have hclose : bag.closeGap s t.addr =
        (((bag.paint w (bag.color p)).paint p .black).paint e .black).rotate s p := by
      rw [Bag.closeGap, hsib, hs.parent]
      dsimp only [links_paint, top]
      rw [hfar]
      change Bag.rotate s (bag.parent t.addr) _ = _
      rw [hs.parent]
      rfl
    rw [hclose]
    have hcolor (c : ℕ) : ((((bag.paint w (bag.color p)).paint p .black).paint e .black).rotate s p).color c =
        if c = e then .black else if c = p then .black else if c = w then bag.color p else bag.color c := by
      rw [color_rotate, color_paint, color_paint, color_paint]
    have hkeep {c : ℕ} (hc : c ≠ p ∧ c ≠ w ∧ c ≠ e) :
        ((((bag.paint w (bag.color p)).paint p .black).paint e .black).rotate s p).color c = bag.color c := by
      rw [hcolor, if_neg hc.2.2, if_neg hc.1, if_neg hc.2.1]
    have hpblack : ((((bag.paint w (bag.color p)).paint p .black).paint e .black).rotate s p).color p = .black := by
      rw [hcolor, if_neg hpe, if_pos rfl]
    have heblack : ((((bag.paint w (bag.color p)).paint p .black).paint e .black).rotate s p).color e = .black :=
      (hcolor e).trans (if_pos rfl)
    have hwcolor : ((((bag.paint w (bag.color p)).paint p .black).paint e .black).rotate s p).color w = bag.color p := by
      rw [hcolor, if_neg hwe, if_neg hpw.symm, if_pos rfl]
    have hlinked' : At ((((bag.paint w (bag.color p)).paint p .black).paint e .black).rotate s p).links fs
        (.mk s w (.mk s p t i) (.node e l r)) := by
      rw [links_rotate]
      exact hs.linked.up.rotate.1
    have hbnear := balanced_black (s := s) hpblack (hs.balanced.congr fun c hc => hkeep (ht' c hc))
      (hbi.congr fun c hc => hkeep (hi' c hc))
    have hbfar := balanced_black (s := .left) heblack (hbl.congr fun c hc => hkeep (hl' c hc))
      (hbr.congr fun c hc => hkeep (hr' c hc))
    have hrb : RedBlack ((((bag.paint w (bag.color p)).paint p .black).paint e .black).rotate s p).color
        (plugAll fs (.mk s w (.mk s p t i) (.node e l r))) := by
      by_cases hp : bag.color p = .red
      · obtain ⟨-, -, hne, htop, hrest⟩ := hs.frames.of_red hp
        refine (hrest.congr fun c hc => hkeep (hfs' c hc)).plug (balanced_red (hwcolor.trans hp) ?_ ?_ hbnear hbfar) ?_
        · exact fun hred => Color.noConfusion (hpblack.symm.trans (redAt_mk.mp hred))
        · exact fun hred => Color.noConfusion (heblack.symm.trans hred)
        · rintro (hred | hnil)
          · exact absurd ((redTop_congr fun c hc => hkeep (hfs' c hc)).mp hred) htop
          · exact absurd hnil hne
      · obtain ⟨hblack, -, hrest⟩ := hs.frames.of_not_red hp
        refine (hrest.congr fun c hc => hkeep (hfs' c hc)).plug (balanced_black (hwcolor.trans hblack) hbnear hbfar) ?_
        exact fun _ hred => hp (hwcolor.symm.trans (redAt_mk.mp hred))
    refine ⟨⟨hlinked'.root, hrb.root, ?_⟩, hrb, ?_⟩
    · rw [hkeep ⟨Ne.symm hp0, Ne.symm hw0, Ne.symm he0⟩]
      exact hs.sentinel
    · have hpaint : SameItems bag (((bag.paint w (bag.color p)).paint p .black).paint e .black) :=
        ⟨rfl, rfl, rfl, rfl, rfl, rfl⟩
      exact hpaint.trans (sameItems_rotate _ _ _)

lemma deleteFixup_settles (hs : Short bag fs t h) (ht : ¬RedAt bag.color t)
    (hinner : t = .nil → ∀ f ∈ fs.head?, ¬bag.InnerRed f.side f.a) (hn : fs.length < n) :
    Ensures (Bag.deleteFixup n t.addr bag) (Settled bag (inorder fs t.addrs) True) := by
  induction n generalizing bag fs t h with
  | zero => omega
  | succ n ih =>
    rw [Bag.deleteFixup]
    cases fs with
    | nil =>
      rw [if_neg fun hc => hc.1 (eq_root hs.linked)]
      have hpainted := painted hs.linked hs.balanced hs.sentinel (fun hred => absurd hred ht) fun _ => rfl
      exact ensures_some ⟨sameItems_paint _ _ bag, t, hpainted.1, rfl, fun _ => hpainted.2⟩
    | cons f fs =>
      obtain ⟨s, p, sib⟩ := f
      have hblack : bag.color t.addr = .black :=
        (black_iff hs.balanced fun htnil => hs.empty htnil (List.cons_ne_nil _ _)).mpr ht
      rw [if_pos ⟨ne_root hs.linked, hblack⟩, hs.sideOf]
      dsimp only
      obtain ⟨w, i, o, gs, hs', hw, hlength, hcolor, hinorder, hsame, hiff⟩ := hs.blackened
      generalize bag.blackenSibling s t.addr = bag' at *
      have ht' : ¬RedAt bag'.color t := mt (redAt_congr hcolor).mp ht
      rw [← hinorder, hs'.sibling_addr, addr_mk]
      obtain ⟨hbi, hbo⟩ := hs'.near_far hw
      have hiblack := black_iff hbi (hs'.nil_black ht' hbi)
      have hoblack := black_iff hbo (hs'.nil_black ht' hbo)
      obtain ⟨-, -, hnear, hfar, -, -⟩ := linked_mk.mp hs'.linked.ctx.2.2.2.2.1
      have hboth : (bag'.color (bag'.links.child .left w) = .black ∧ bag'.color (bag'.links.child .right w) = .black) ↔
          bag'.color i.addr = .black ∧ bag'.color o.addr = .black := by
        rw [← hnear, ← hfar]
        cases s
        · rfl
        · exact and_comm
      rw [if_congr hboth rfl rfl]
      rw [List.length_cons] at hn
      by_cases hblacks : bag'.color i.addr = .black ∧ bag'.color o.addr = .black
      · rw [if_pos hblacks, hs'.parent, top]
        have hi := hiblack.mp hblacks.1
        have ho := hoblack.mp hblacks.2
        have hw0 : w ≠ 0 := (linked_mk.mp hs'.linked.ctx.2.2.2.2.1).1
        have hevened := hs'.evened ht' hw hi ho
        obtain ⟨hlinked, hp, hbt, hbsib, ht'', hfs, hsentinel, hcolors⟩ := hevened
        have hp0 : p ≠ 0 := hs'.linked.ctx.1
        obtain ⟨n, rfl⟩ : ∃ m, n = m + 1 := ⟨n - 1, by omega⟩
        rw [inorder_mk]
        rcases hcolors with hpred | hpblack
        · rw [Bag.deleteFixup, hp, hpred, if_neg fun hc => Color.noConfusion hc.2]
          rw [if_pos hpred] at hfs
          have hne := ne_of_perm hlinked.nodup ((addrs_mk s p t (.mk s w i o)).append_right (ctxAddrs gs))
          have hkeep {c : ℕ} (hc : c ∈ t.addrs ++ (Shape.mk s w i o).addrs ++ ctxAddrs gs) :
              ((bag'.paint w .red).paint p .black).color c = (bag'.paint w .red).color c := by
            rw [color_paint, if_neg (hne c hc)]
          have hpblack : ((bag'.paint w .red).paint p .black).color p = .black := Function.update_self _ _ _
          have hrb : RedBlack ((bag'.paint w .red).paint p .black).color (plugAll gs (.mk s p t (.mk s w i o))) := by
            refine (hfs.congr fun c hc => hkeep (List.mem_append_right _ hc)).plug (balanced_black hpblack ?_ ?_) ?_
            · exact hbt.congr fun c hc => hkeep (List.mem_append_left _ (List.mem_append_left _ hc))
            · exact hbsib.congr fun c hc => hkeep (List.mem_append_left _ (List.mem_append_right _ hc))
            · exact fun _ hred => Color.noConfusion (hpblack.symm.trans (redAt_mk.mp hred))
          have hsentinel' : ((bag'.paint w .red).paint p .black).color nil ≠ .red := by
            rw [color_paint, if_neg hp0.symm]
            exact hsentinel
          have hpaint : SameItems bag' ((bag'.paint w .red).paint p .black) := ⟨rfl, rfl, rfl, rfl, rfl, rfl⟩
          exact ensures_some ⟨hsame.trans hpaint, _, ⟨hlinked.root, hrb.root, hsentinel'⟩, addrs_plugAll _ _, fun _ => hrb⟩
        · have hpne : bag'.color p ≠ .red := by
            rw [hpblack]
            decide
          rw [if_neg hpne] at hfs
          have hne : (Shape.mk s p t (.mk s w i o)).addr ≠ 0 := by
            rw [addr_mk]
            exact hp0
          have hparent : (bag'.paint w .red).parent (Shape.mk s p t (.mk s w i o)).addr = top gs := parent_addr hlinked hne
          have hshort : Short (bag'.paint w .red) gs (.mk s p t (.mk s w i o)) (h + 1) := by
            refine ⟨hlinked, hparent, balanced_black (hp.trans hpblack) hbt hbsib, hfs, hsentinel, fun hnil => ?_⟩
            rw [hnil] at hne
            exact absurd rfl hne
          have hnot : ¬RedAt (bag'.paint w .red).color (.mk s p t (.mk s w i o)) := fun hred =>
            hpne (hp.symm.trans (redAt_mk.mp hred))
          have hgs : gs.length < n + 1 := by
            rcases hlength with hlength | hpred
            · omega
            · exact absurd hpred hpne
          have hrest := ih hshort hnot (fun hnil => by rw [hnil] at hne; exact absurd rfl hne) hgs
          rw [addr_mk] at hrest
          refine hrest.imp fun bag'' hsettled => hsettled.after ?_ id
          exact hsame.trans (sameItems_paint _ _ _)
      · rw [if_neg hblacks]
        have hinner' : t = .nil → ¬(bag'.color i.addr = .red ∧ bag'.color o.addr = .black) := fun htnil hred =>
          hinner htnil _ rfl (hiff.mpr hred)
        obtain ⟨w', i', o', hs'', hw', ho', hinorder', hsame'⟩ := hs'.turned ht' hw hblacks hinner'
        obtain ⟨hwoven, hrb, hsame''⟩ := hs''.closed hw' ho'
        rw [← hinorder']
        generalize (bag'.turnSibling s t.addr).closeGap s t.addr = bag'' at *
        obtain ⟨m, rfl⟩ : ∃ m, n = m + 1 := ⟨n - 1, by omega⟩
        have hroot : bag''.color bag''.links.root = .black := by
          rw [hwoven.linked.ctx]
          refine RedBlack.root_black hrb (hwoven.linked.addr_ne_zero (a := w') ?_)
          rw [addrs_plugAll]
          exact (inorder_perm _ _).mem_iff.mpr (List.mem_append_left _ ((addrs_mk _ _ _ _).mem_iff.mpr List.mem_cons_self))
        have hrepaint : bag''.paint bag''.links.root .black = bag'' := by
          rw [Bag.paint, ← hroot, Function.update_eq_self]
        rw [Bag.deleteFixup, if_neg fun hc => hc.1 rfl, hrepaint]
        refine ensures_some ⟨((hsame.trans hsame').trans hsame''), _, hwoven, ?_, fun _ => hrb⟩
        rw [addrs_plugAll]
        cases s <;> simp only [inorder, Shape.mk, Shape.addrs, List.append_assoc, List.cons_append]

end Loop

section Removal

/-- The fixup has nothing to do for the node that is taken out of the tree. -/
def Bag.Idle (y : ℕ) (self : Bag α) : Prop :=
  self.color y = .red ∨ self.parent y = nil ∨ self.color (self.onlyChild y) ≠ .black

/-- The fixup is not skipped for a black node without children, and does not turn a red inner child beside it. -/
def Bag.Evens (y : ℕ) (self : Bag α) : Prop :=
  self.color y = .red ∨ self.parent y = nil ∨ self.onlyChild y ≠ nil ∨
    (self.color nil = .black ∧ ¬self.InnerRed (self.sideOf y) (self.parent y))

instance (y : ℕ) (bag : Bag α) : Decidable (bag.Idle y) := inferInstanceAs (Decidable (_ ∨ _))

instance (y : ℕ) (bag : Bag α) : Decidable (bag.Evens y) := inferInstanceAs (Decidable (_ ∨ _))

lemma erase_middle {A B : List ℕ} {y : ℕ} (h : (A ++ y :: B).Nodup) : (A ++ y :: B).erase y = A ++ B := by
  have hy : y ∉ A := fun hmem => (List.nodup_append.mp h).2.2 y hmem y List.mem_cons_self rfl
  rw [List.erase_append_right _ hy, List.erase_cons_head]

lemma exists_spliced (h : Sound bag T) (ha : a ∈ T.addrs) :
    ∃ y gs s x, bag.spliced a = some y ∧ At bag.links gs (.mk s y x .nil) ∧ plugAll gs (.mk s y x .nil) = T ∧
      bag.onlyChild y = x.addr ∧ inorder gs x.addrs = T.addrs.erase y ∧
      (y = a ∨ ∃ pre post, T.addrs = pre ++ a :: y :: post) := by
  have hnodup : T.addrs.Nodup := (List.nodup_append.mp h.woven.linked.nodup).1
  have hfocus {y : ℕ} {gs : List Frame} {s : Side} {x : Shape} (hat : At bag.links gs (.mk s y x .nil)) :
      plugAll gs (.mk s y x .nil) = T ∧ bag.onlyChild y = x.addr ∧ inorder gs x.addrs = T.addrs.erase y := by
    have hplug := hat.plugAll_eq h.woven.linked
    obtain ⟨-, -, hx, hnil, -, -⟩ := linked_mk.mp hat.tree
    refine ⟨hplug, ?_, ?_⟩
    · rw [Bag.onlyChild, Bag.left, Bag.right]
      cases s with
      | left =>
        rw [hx, show bag.links.child .right y = nil from hnil]
        split_ifs with hne
        · rfl
        · exact (not_not.mp hne).symm
      | right =>
        rw [show bag.links.child .left y = nil from hnil, hx, if_neg (fun hc => hc rfl)]
    · have haddrs := addrs_plugAll gs (.mk s y x .nil)
      rw [hplug, inorder_eq] at haddrs
      rw [haddrs] at hnodup ⊢
      rw [inorder_eq]
      cases s
      · simp only [Shape.mk, Shape.addrs, List.append_assoc, List.cons_append, List.nil_append] at hnodup ⊢
        rw [← List.append_assoc] at hnodup ⊢
        rw [← List.append_assoc (leftOf gs) x.addrs (y :: _)]
        exact (erase_middle hnodup).symm
      · simp only [Shape.mk, Shape.addrs, List.append_assoc, List.cons_append, List.nil_append] at hnodup ⊢
        exact (erase_middle hnodup).symm
  obtain ⟨fs, l, r, hat, hplug⟩ := h.woven.linked.focus ha
  rw [List.append_nil] at hat
  obtain ⟨-, -, hl, hr, -, hlinkr⟩ := hat.tree
  have here {s : Side} {x : Shape} (hmk : Shape.node a l r = .mk s a x .nil) (hspliced : bag.spliced a = some a) :
      ∃ y gs s x, bag.spliced a = some y ∧ At bag.links gs (.mk s y x .nil) ∧ plugAll gs (.mk s y x .nil) = T ∧
        bag.onlyChild y = x.addr ∧ inorder gs x.addrs = T.addrs.erase y ∧
        (y = a ∨ ∃ pre post, T.addrs = pre ++ a :: y :: post) := by
    rw [hmk] at hat
    obtain ⟨hplug, hchild, horder⟩ := hfocus hat
    exact ⟨a, fs, s, x, hspliced, hat, hplug, hchild, horder, .inl rfl⟩
  cases l with
  | nil => exact here (s := .right) rfl (if_pos (.inl hl))
  | node b l₁ l₂ =>
    cases r with
    | nil => exact here (s := .left) rfl (if_pos (.inr hr))
    | node c r₁ r₂ =>
      have hdown : At bag.links (⟨.right, a, .node b l₁ l₂⟩ :: fs) (.node c r₁ r₂) := At.down (s := .right) hat
      obtain ⟨gs, y, x, rest, hat', -, hrest, hextreme⟩ := exists_extreme hdown Shape.noConfusion .left
      have haddrs : T.addrs = (leftOf fs ++ (Shape.node b l₁ l₂).addrs) ++ a :: y :: (rest ++ rightOf fs) := by
        have hfirst : (Shape.node c r₁ r₂).addrs = y :: rest := hrest
        rw [← hplug, addrs_plugAll, inorder_eq, Shape.addrs, hfirst]
        simp only [List.append_assoc, List.cons_append]
      have hspliced : bag.spliced a = some y := by
        have hlength : (Shape.node c r₁ r₂).addrs.length ≤ bag.fuel := by
          have hlt := h.length_lt
          have hfirst : (Shape.node c r₁ r₂).addrs = y :: rest := hrest
          rw [haddrs] at hlt
          simp only [List.length_append, List.length_cons] at hlt
          rw [hfirst, List.length_cons, Bag.fuel]
          omega
        have hb0 : b ≠ nil := (linked_mk (s := .left).mp hat.tree).2.2.2.2.1.1
        have hc0 : c ≠ nil := hlinkr.1
        have hneither : ¬(bag.left a = nil ∨ bag.right a = nil) := by
          rw [Bag.left, Bag.right, hl, hr]
          exact fun hor => hor.elim hb0 hc0
        have hc : bag.links.child .right a ≠ 0 := by
          rw [hr]
          exact hc0
        rw [Bag.spliced, if_neg hneither, Bag.treeSuccessor, Links.neighbour, if_pos hc, hr]
        exact hextreme _ hlength
      have hmk : Shape.mk .left y .nil x = .mk .right y x .nil := rfl
      rw [hmk] at hat'
      obtain ⟨hplug', hchild, horder⟩ := hfocus hat'
      exact ⟨y, _, .right, x, hspliced, hat', hplug', hchild, horder, .inr ⟨_, _, haddrs⟩⟩

lemma innerRed_congr (h : At bag.links (⟨s, p, sib⟩ :: fs) t) (h' : At bag'.links (⟨s, p, sib⟩ :: fs) x)
    (hcolor : bag'.color = bag.color) : bag'.InnerRed s p ↔ bag.InnerRed s p := by
  have hchild {q : ℕ} {u : Shape} (hu : Linked bag.links q u) (hu' : Linked bag'.links q u) (s' : Side) :
      ∃ v, bag.links.child s' u.addr = v.addr ∧ bag'.links.child s' u.addr = v.addr ∧ Linked bag.links u.addr v ∧
        Linked bag'.links u.addr v := by
    cases u with
    | nil => exact ⟨.nil, h.leaf s', h'.leaf s', trivial, trivial⟩
    | node a l r =>
      obtain ⟨-, -, hl, hr, hlinkl, hlinkr⟩ := hu
      obtain ⟨-, -, hl', hr', hlinkl', hlinkr'⟩ := hu'
      cases s' with
      | left => exact ⟨l, hl, hl', hlinkl, hlinkl'⟩
      | right => exact ⟨r, hr, hr', hlinkr, hlinkr'⟩
  have hsib : bag.links.child s.other p = sib.addr := h.ctx.2.2.2.1
  have hsib' : bag'.links.child s.other p = sib.addr := h'.ctx.2.2.2.1
  have hlinked := h.ctx.2.2.2.2.1
  have hlinked' := h'.ctx.2.2.2.2.1
  obtain ⟨v, hv, hv', hlinkv, hlinkv'⟩ := hchild hlinked hlinked' s
  obtain ⟨u, hu, hu', -, -⟩ := hchild hlinked hlinked' s.other
  obtain ⟨v₁, hv₁, hv₁', -, -⟩ := hchild hlinkv hlinkv' s
  obtain ⟨v₂, hv₂, hv₂', -, -⟩ := hchild hlinkv hlinkv' s.other
  rw [Bag.InnerRed, Bag.InnerRed, hsib, hsib', hcolor]
  by_cases hred : bag.color sib.addr = .red
  · simp only [if_pos hred, hv, hv', hv₁, hv₁', hv₂, hv₂']
  · simp only [if_neg hred, hv, hv', hu, hu']

lemma length_le_ctxAddrs (fs : List Frame) : fs.length ≤ (ctxAddrs fs).length := by
  induction fs with
  | nil => exact le_refl _
  | cons f fs ih =>
    rw [ctxAddrs, List.length_cons, List.length_cons, List.length_append]
    omega

lemma sideOf_node {y : ℕ} (hat : At bag.links (f :: fs) (.mk s y x .nil)) :
    bag.parent y = f.a ∧ bag.sideOf y = f.side := by
  have hy : (Shape.mk s y x .nil).addr = y := addr_mk s y x .nil
  have hne : (Shape.mk s y x .nil).addr ≠ 0 := by
    rw [hy]
    exact (linked_mk.mp hat.tree).1
  have hparent : bag.parent y = f.a := by
    rw [← hy]
    exact parent_addr hat hne
  refine ⟨hparent, ?_⟩
  obtain ⟨side, p, sib⟩ := f
  obtain ⟨-, -, hhole, hsib, -, -⟩ := hat.ctx
  rw [Bag.sideOf, hparent, Bag.left]
  cases side with
  | left => exact if_pos (hhole.trans hy).symm
  | right =>
    refine if_neg fun heq => ?_
    have hysib : sib.addr = y := (heq.trans hsib).symm
    have hsib0 : sib.addr ≠ 0 := by
      rw [hysib, ← hy]
      exact hne
    have hmem : sib.addr ∈ ctxAddrs (⟨.right, p, sib⟩ :: fs) :=
      List.mem_cons_of_mem _ (List.mem_append_left _ (addr_mem hsib0))
    exact At.addr_ne hat hne hmem (hysib.trans hy.symm)

/-- What is left of a bag without the node. -/
def Removed (bag : Bag α) (T : Shape) (a y : ℕ) (bag' : Bag α) : Prop :=
  SameItems (bag.moveItem y a) bag' ∧ ∃ T', Sound bag' T' ∧ T'.addrs = T.addrs.erase y ∧ RedBlack bag'.color T'

lemma Settled.removed {bag₁ : Bag α} {nodes : List ℕ} {y : ℕ} (hs : Settled bag₁ nodes True bag') (h : Sound bag T)
    (hsame : SameItems (bag.moveItem y a) bag₁) (hnodes : nodes = T.addrs.erase y) : Removed bag T a y bag' := by
  obtain ⟨hsame', T', hwoven, haddrs, hrb⟩ := hs
  have hnext : bag'.next = bag.next := by
    rw [hsame'.next, hsame.next, Bag.moveItem]
    split_ifs <;> rfl
  refine ⟨hsame.trans hsame', T', ⟨hwoven, fun c hc => ?_, ?_⟩, haddrs.trans hnodes, hrb trivial⟩
  · rw [hnext]
    rw [haddrs, hnodes] at hc
    exact h.below c (List.mem_of_mem_erase hc)
  · rw [hnext]
    exact h.pos

lemma rbTreeDelete_eq {bag₁ : Bag α} {y x : ℕ} (hspliced : bag.spliced a = some y) (hchild : bag.onlyChild y = x)
    (hbag : Bag.moveItem y a { bag with links := bag.links.splice y x } = bag₁) :
    bag.rbTreeDelete a =
      (if bag₁.color y = .black then Bag.deleteFixup bag₁.fuel x bag₁ else some bag₁).map fun self => (y, self) := by
  subst hchild hbag
  rw [Bag.rbTreeDelete, hspliced]
  change (if _ then _ else _) = _
  split_ifs
  · exact (Option.map_eq_bind ..).symm
  · rfl

lemma rbTreeDelete_removes (h : Sound bag T) (hrb : RedBlack bag.color T) (ha : a ∈ T.addrs)
    (heven : ∀ y ∈ bag.spliced a, bag.Evens y) :
    Ensures (bag.rbTreeDelete a) fun r => bag.spliced a = some r.1 ∧ Removed bag T a r.1 r.2 := by
  obtain ⟨y, gs, s, x, hspliced, hat, hplug, hchild, horder, -⟩ := exists_spliced h ha
  have hev := heven y hspliced
  obtain ⟨hat', hparent⟩ := hat.splice
  obtain ⟨m, hbal, hfs, -⟩ := (hplug ▸ hrb : RedBlack bag.color (plugAll gs (.mk s y x .nil))).focus
  have hlength : gs.length < bag.next := by
    have hlt := h.length_lt
    have hperm := (inorder_perm gs (Shape.mk s y x .nil).addrs).length_eq
    rw [← addrs_plugAll, hplug, List.length_append] at hperm
    have hle := length_le_ctxAddrs gs
    omega
  generalize hbag : Bag.moveItem y a { bag with links := bag.links.splice y x.addr } = bag₁
  rw [rbTreeDelete_eq hspliced hchild hbag]
  have hlinks : bag₁.links = bag.links.splice y x.addr := by
    rw [← hbag, Bag.moveItem]
    split_ifs <;> rfl
  have hcolor : bag₁.color = bag.color := by
    rw [← hbag, Bag.moveItem]
    split_ifs <;> rfl
  have hsame : SameItems (bag.moveItem y a) bag₁ := by
    rw [← hbag, Bag.moveItem, Bag.moveItem]
    split_ifs <;> exact ⟨rfl, rfl, rfl, rfl, rfl, rfl⟩
  have hnext : bag₁.next = bag.next := by
    rw [hsame.next, Bag.moveItem]
    split_ifs <;> rfl
  have hat₁ : At bag₁.links gs x := by
    rw [hlinks]
    exact hat'
  have hsentinel : bag₁.color nil ≠ .red := by
    rw [hcolor]
    exact h.woven.sentinel
  refine Ensures.map (Ensures.imp (P := Settled bag₁ (inorder gs x.addrs) True) ?_ fun bag' hs =>
    ⟨hspliced, hs.removed h hsame horder⟩)
  by_cases hy : bag.color y = .red
  · obtain ⟨hx, -, hbx, hbnil⟩ := hbal.of_red hy
    obtain rfl : m = 0 := by
      cases hbnil
      rfl
    have hrb' : RedBlack bag₁.color (plugAll gs x) := by
      rw [hcolor]
      exact hfs.plug hbx fun _ => hx
    rw [if_neg fun hblack => Color.noConfusion (hy.symm.trans ((congrFun hcolor y).symm.trans hblack))]
    exact ensures_some ⟨SameItems.refl _, _, ⟨hat₁.root, hrb'.root, hsentinel⟩, addrs_plugAll _ _, fun _ => hrb'⟩
  · obtain ⟨hblack, k, rfl, hbx, hbnil⟩ := hbal.of_not_red hy
    obtain rfl : k = 0 := by
      cases hbnil
      rfl
    rw [if_pos ((congrFun hcolor y).trans hblack)]
    rw [← hcolor] at hbx hfs
    by_cases hx : RedAt bag₁.color x
    · have hred : bag₁.color x.addr = .red := by
        cases x with
        | nil => exact hx.elim
        | node b l r => exact hx
      obtain ⟨hwoven, hrb'⟩ := painted hat₁ hbx hsentinel (fun _ => hfs) fun hnot => absurd hx hnot
      rw [Bag.fuel, Bag.deleteFixup, if_neg fun hc => Color.noConfusion (hred.symm.trans hc.2)]
      exact ensures_some ⟨sameItems_paint _ _ _, _, hwoven, addrs_plugAll _ _, fun _ => hrb'⟩
    · obtain rfl := hbx.eq_nil hx
      have hbeside : ∀ f ∈ gs.head?, bag.color nil = .black ∧ ¬bag.InnerRed f.side f.a := by
        intro f hf
        cases gs with
        | nil => cases hf
        | cons g gs =>
          obtain rfl : g = f := Option.some.inj hf
          obtain ⟨hpar, hside⟩ := sideOf_node hat
          rcases hev with hev | hev | hev | hev
          · exact absurd hev hy
          · exact absurd (hpar.symm.trans hev) hat.ctx.1
          · exact absurd hchild hev
          · rwa [hside, hpar] at hev
      refine deleteFixup_settles ⟨hat₁, ?_, hbx, hfs, hsentinel, fun _ hne => ?_⟩ hx (fun _ f hf => ?_) ?_
      · rw [Bag.parent, hlinks]
        exact hparent
      · rw [hcolor]
        obtain ⟨g, gs, rfl⟩ := List.exists_cons_of_ne_nil hne
        exact (hbeside g rfl).1
      · cases gs with
        | nil => cases hf
        | cons g gs =>
          obtain rfl : g = f := Option.some.inj hf
          exact mt (innerRed_congr hat hat₁ hcolor).mp (hbeside g rfl).2
      · rw [Bag.fuel, hnext]
        omega

end Removal

end Xperimentum.WMcore.BagTree
