import Mathlib.Analysis.SpecialFunctions.Log.Base
import Xperimentum.Lib.LinkedTrees

/-! Red-black trees, and the frames that a part of one may hang in. -/

namespace Xperimentum.Lib.RedBlack

open LinkedTrees

/-- A node is `unset` until it has got a colour. -/
inductive Color where
  | unset
  | red
  | black
  deriving DecidableEq

def RedAt (color : ℕ → Color) : Shape → Prop
  | .nil => False
  | .node a _ _ => color a = .red

instance (color : ℕ → Color) : ∀ t, Decidable (RedAt color t)
  | .nil => inferInstanceAs (Decidable False)
  | .node a _ _ => inferInstanceAs (Decidable (color a = .red))

/-- No red node has a red child, and every way down meets `h` black nodes. -/
inductive Balanced (color : ℕ → Color) : Shape → ℕ → Prop
  | nil : Balanced color .nil 0
  | red {a x y h} : color a = .red → ¬RedAt color x → ¬RedAt color y → Balanced color x h → Balanced color y h →
    Balanced color (.node a x y) h
  | black {a x y h} : color a = .black → Balanced color x h → Balanced color y h → Balanced color (.node a x y) (h + 1)

def RedTop (color : ℕ → Color) (fs : List Frame) : Prop := ∃ f ∈ fs.head?, color f.a = .red

/-- With a part in them whose ways down meet `h` black nodes, the frames are those of a red-black tree. -/
inductive FrameBalanced (color : ℕ → Color) : List Frame → ℕ → Prop
  | nil {h} : FrameBalanced color [] h
  | red {f fs h} : color f.a = .red → ¬RedAt color f.sib → Balanced color f.sib h → fs ≠ [] → ¬RedTop color fs →
    FrameBalanced color fs h → FrameBalanced color (f :: fs) h
  | black {f fs h} : color f.a = .black → Balanced color f.sib h → FrameBalanced color fs (h + 1) →
    FrameBalanced color (f :: fs) h

structure RedBlack (color : ℕ → Color) (t : Shape) : Prop where
  balanced : ∃ h, Balanced color t h
  root : ¬RedAt color t

variable {color color' : ℕ → Color} {fs : List Frame} {f : Frame} {s : Side} {a h : ℕ} {t x y : Shape}

lemma redAt_mk : RedAt color (.mk s a x y) ↔ color a = .red := by
  cases s <;> rfl

lemma balanced_red (ha : color a = .red) (hx : ¬RedAt color x) (hy : ¬RedAt color y) (hbx : Balanced color x h)
    (hby : Balanced color y h) : Balanced color (.mk s a x y) h := by
  cases s
  · exact .red ha hx hy hbx hby
  · exact .red ha hy hx hby hbx

lemma balanced_black (ha : color a = .black) (hbx : Balanced color x h) (hby : Balanced color y h) :
    Balanced color (.mk s a x y) (h + 1) := by
  cases s
  · exact .black ha hbx hby
  · exact .black ha hby hbx

lemma Balanced.of_red (hb : Balanced color (.mk s a x y) h) (ha : color a = .red) :
    ¬RedAt color x ∧ ¬RedAt color y ∧ Balanced color x h ∧ Balanced color y h := by
  cases s
  · cases hb with
    | red _ hx hy hbx hby => exact ⟨hx, hy, hbx, hby⟩
    | black hblack => exact absurd (ha.symm.trans hblack) (by decide)
  · cases hb with
    | red _ hx hy hbx hby => exact ⟨hy, hx, hby, hbx⟩
    | black hblack => exact absurd (ha.symm.trans hblack) (by decide)

lemma Balanced.of_not_red (hb : Balanced color (.mk s a x y) h) (ha : color a ≠ .red) :
    color a = .black ∧ ∃ k, h = k + 1 ∧ Balanced color x k ∧ Balanced color y k := by
  cases s
  · cases hb with
    | red hred => exact absurd hred ha
    | black hblack hbx hby => exact ⟨hblack, _, rfl, hbx, hby⟩
  · cases hb with
    | red hred => exact absurd hred ha
    | black hblack hbx hby => exact ⟨hblack, _, rfl, hby, hbx⟩

lemma Balanced.eq_nil (hb : Balanced color t 0) (ht : ¬RedAt color t) : t = .nil := by
  cases hb with
  | nil => rfl
  | red ha => exact absurd ha ht

lemma Balanced.exists_mk (hb : Balanced color t (h + 1)) (s : Side) : ∃ a x y, t = .mk s a x y := by
  cases t with
  | nil => cases hb
  | node a l r =>
    cases s
    · exact ⟨a, l, r, rfl⟩
    · exact ⟨a, r, l, rfl⟩

lemma redAt_congr (heq : ∀ c ∈ t.addrs, color' c = color c) : RedAt color' t ↔ RedAt color t := by
  cases t with
  | nil => rfl
  | node a l r => rw [RedAt, RedAt, heq a (List.mem_append_right _ List.mem_cons_self)]

lemma Balanced.congr (hb : Balanced color t h) (heq : ∀ c ∈ t.addrs, color' c = color c) : Balanced color' t h := by
  induction hb with
  | nil => exact .nil
  | @red a x y h ha hx hy _ _ ihx ihy =>
    have hl : ∀ c ∈ x.addrs, color' c = color c := fun c hc => heq c (List.mem_append_left _ hc)
    have hr : ∀ c ∈ y.addrs, color' c = color c := fun c hc =>
      heq c (List.mem_append_right _ (List.mem_cons_of_mem a hc))
    have hroot : color' a = color a := heq a (List.mem_append_right _ List.mem_cons_self)
    exact .red (hroot.trans ha) (mt (redAt_congr hl).mp hx) (mt (redAt_congr hr).mp hy) (ihx hl) (ihy hr)
  | @black a x y h ha _ _ ihx ihy =>
    have hroot : color' a = color a := heq a (List.mem_append_right _ List.mem_cons_self)
    refine .black (hroot.trans ha) (ihx fun c hc => heq c (List.mem_append_left _ hc)) (ihy fun c hc => ?_)
    exact heq c (List.mem_append_right _ (List.mem_cons_of_mem a hc))

lemma redTop_cons : RedTop color (f :: fs) ↔ color f.a = .red := by
  simp only [RedTop, List.head?_cons, Option.mem_def, Option.some.injEq, exists_eq_left']

lemma redTop_congr (heq : ∀ c ∈ ctxAddrs fs, color' c = color c) : RedTop color' fs ↔ RedTop color fs := by
  cases fs with
  | nil => exact iff_of_false (by rintro ⟨f, hf, -⟩; cases hf) (by rintro ⟨f, hf, -⟩; cases hf)
  | cons f fs =>
    rw [redTop_cons, redTop_cons, heq f.a List.mem_cons_self]

lemma FrameBalanced.congr (hb : FrameBalanced color fs h) (heq : ∀ c ∈ ctxAddrs fs, color' c = color c) :
    FrameBalanced color' fs h := by
  induction hb with
  | nil => exact .nil
  | @red f fs h ha hsib hbal hfs htop _ ih =>
    have hs : ∀ c ∈ f.sib.addrs, color' c = color c := fun c hc =>
      heq c (List.mem_cons_of_mem _ (List.mem_append_left _ hc))
    have hrest : ∀ c ∈ ctxAddrs fs, color' c = color c := fun c hc =>
      heq c (List.mem_cons_of_mem _ (List.mem_append_right _ hc))
    exact .red ((heq _ List.mem_cons_self).trans ha) (mt (redAt_congr hs).mp hsib) (hbal.congr hs) hfs
      (mt (redTop_congr hrest).mp htop) (ih hrest)
  | @black f fs h ha hbal _ ih =>
    have hs : ∀ c ∈ f.sib.addrs, color' c = color c := fun c hc =>
      heq c (List.mem_cons_of_mem _ (List.mem_append_left _ hc))
    have hrest : ∀ c ∈ ctxAddrs fs, color' c = color c := fun c hc =>
      heq c (List.mem_cons_of_mem _ (List.mem_append_right _ hc))
    exact .black ((heq _ List.mem_cons_self).trans ha) (hbal.congr hs) (ih hrest)

lemma FrameBalanced.plug (hfs : FrameBalanced color fs h) (ht : Balanced color t h)
    (hred : RedTop color fs ∨ fs = [] → ¬RedAt color t) : RedBlack color (plugAll fs t) := by
  induction hfs generalizing t with
  | nil => exact ⟨⟨_, ht⟩, hred (.inr rfl)⟩
  | @red f fs h ha hsib hbal hfs htop _ ih =>
    refine ih (balanced_red ha (hred (.inl ⟨f, rfl, ha⟩)) hsib ht hbal) fun h => ?_
    exact absurd (h.resolve_right hfs) htop
  | @black f fs h ha hbal _ ih =>
    refine ih (balanced_black ha ht hbal) fun _ hr => ?_
    rw [Frame.plug, redAt_mk, ha] at hr
    cases hr

lemma RedBlack.focus (h : RedBlack color (plugAll fs t)) :
    ∃ n, Balanced color t n ∧ FrameBalanced color fs n ∧ (RedTop color fs ∨ fs = [] → ¬RedAt color t) := by
  induction fs generalizing t with
  | nil =>
    obtain ⟨⟨n, hn⟩, hroot⟩ := h
    exact ⟨n, hn, .nil, fun _ => hroot⟩
  | cons f fs ih =>
    obtain ⟨n, hbal, hfs, hred⟩ := ih h
    by_cases ha : color f.a = .red
    · obtain ⟨hx, hy, hbx, hby⟩ := hbal.of_red ha
      have hplug : RedAt color (f.plug t) := redAt_mk.mpr ha
      refine ⟨n, hbx, .red ha hy hby (fun h => hred (.inr h) hplug) (fun h => hred (.inl h) hplug) hfs, fun _ => hx⟩
    · obtain ⟨hblack, k, rfl, hbx, hby⟩ := hbal.of_not_red ha
      refine ⟨k, hbx, .black hblack hby hfs, fun h => ?_⟩
      rcases h with h | h
      · exact absurd (redTop_cons.mp h) ha
      · cases h

lemma FrameBalanced.of_red (hb : FrameBalanced color (f :: fs) h) (ha : color f.a = .red) :
    ¬RedAt color f.sib ∧ Balanced color f.sib h ∧ fs ≠ [] ∧ ¬RedTop color fs ∧ FrameBalanced color fs h := by
  cases hb with
  | red _ hsib hbal hfs htop hrest => exact ⟨hsib, hbal, hfs, htop, hrest⟩
  | black hblack => exact absurd (ha.symm.trans hblack) (by decide)

lemma FrameBalanced.of_not_red (hb : FrameBalanced color (f :: fs) h) (ha : color f.a ≠ .red) :
    color f.a = .black ∧ Balanced color f.sib h ∧ FrameBalanced color fs (h + 1) := by
  cases hb with
  | red hred => exact absurd hred ha
  | black hblack hbal hrest => exact ⟨hblack, hbal, hrest⟩

lemma FrameBalanced.root {k : Links} {hole : ℕ} (hb : FrameBalanced color fs h) (hfs : fs ≠ [])
    (hctx : CtxLinked k hole fs) : color k.root = .black := by
  induction hb generalizing hole with
  | nil => exact absurd rfl hfs
  | red _ _ _ hne _ _ ih => exact ih hne hctx.2.2.2.2.2
  | @black f fs h ha _ _ ih =>
    cases fs with
    | nil =>
      rw [hctx.2.2.2.2.2]
      exact ha
    | cons g fs => exact ih (List.cons_ne_nil g fs) hctx.2.2.2.2.2

section Height

def height : Shape → ℕ
  | .nil => 0
  | .node _ l r => max (height l) (height r) + 1

lemma Balanced.height_le (hb : Balanced color t h) : height t ≤ 2 * h + if RedAt color t then 1 else 0 := by
  induction hb with
  | nil => exact Nat.zero_le _
  | @red a x y h ha hx hy _ _ ihx ihy =>
    rw [if_neg hx] at ihx
    rw [if_neg hy] at ihy
    have hroot : RedAt color (.node a x y) := ha
    rw [if_pos hroot, height]
    omega
  | @black a x y h ha _ _ ihx ihy =>
    rw [height]
    split_ifs at ihx ihy ⊢ <;> omega

lemma Balanced.length_ge (hb : Balanced color t h) : 2 ^ h ≤ t.addrs.length + 1 := by
  induction hb with
  | nil => exact le_refl _
  | red _ _ _ _ _ ihx _ =>
    rw [Shape.addrs, List.length_append, List.length_cons]
    omega
  | black _ _ _ ihx ihy =>
    rw [Shape.addrs, List.length_append, List.length_cons, pow_succ]
    omega

lemma RedBlack.height_le (hrb : RedBlack color t) : 2 ^ height t ≤ (t.addrs.length + 1) ^ 2 := by
  obtain ⟨⟨h, hb⟩, hroot⟩ := hrb
  have hheight := hb.height_le
  rw [if_neg hroot, add_zero] at hheight
  calc 2 ^ height t ≤ 2 ^ (2 * h) := Nat.pow_le_pow_right (by decide) hheight
    _ = (2 ^ h) ^ 2 := by rw [mul_comm, pow_mul]
    _ ≤ (t.addrs.length + 1) ^ 2 := Nat.pow_le_pow_left hb.length_ge 2

lemma RedBlack.height_log (hrb : RedBlack color t) : (height t : ℝ) ≤ 2 * Real.logb 2 (t.addrs.length + 1) := by
  have hpow : ((2 : ℝ) ^ height t) ≤ ((t.addrs.length : ℝ) + 1) ^ 2 := by exact_mod_cast hrb.height_le
  have hpos : (0 : ℝ) < 2 ^ height t := by positivity
  have hlog := Real.logb_le_logb_of_le one_lt_two hpos hpow
  rw [Real.logb_pow, Real.logb_pow, Real.logb_self_eq_one one_lt_two, mul_one] at hlog
  exact_mod_cast hlog

end Height

end Xperimentum.Lib.RedBlack
