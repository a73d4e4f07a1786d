import Mathlib.Tactic
import Xperimentum.Terminal.Utf8Printing

/-! The calls one byte makes on the screen, from any state of the parser: a scroll is always followed by the
filling of the rows it uncovers, and one that saves lines scrolls by one. -/

namespace Xperimentum.Terminal.LinuxParser

open Xperimentum.Lib.Int32 Xperimentum.Terminal.Charmaps

variable {σ : Type} {p q : Parser σ} {o : Outcome σ} {host : Host σ} {c : UInt8}

def Scrolls : ScreenCall → Prop
  | .scrollUp _ _ _ _ | .scrollDown _ _ _ => True
  | _ => False

/-- Only an erasing byte writes at an offset, the filling after a scroll apart. Unless an exception is made, a
row is not shifted past the right margin and no region that ends at the row `cy` is scrolled. -/
def Single (width cy : ℤ) (erases excepted : Prop) : ScreenCall → Prop
  | .putCharAt _ count _ _ => 0 ≤ count
  | .putCharOffset _ _ _ => erases
  | .scrollUp _ b _ _ | .scrollDown _ b _ => b ≠ cy ∨ excepted
  | .shiftRow _ x0 delta => 0 ≤ x0 + delta ∧ (x0 < width → x0 + delta ≤ width ∨ excepted)
  | _ => True

inductive Block (width : ℤ) (Q : ScreenCall → Prop) : List ScreenCall → Prop
  | one {c : ScreenCall} (h : ¬Scrolls c) (hq : Q c) : Block width Q [c]
  | up {t b nr : ℤ} {save : Bool} (ch : ScreenChar) (hn : 1 ≤ nr) (hb : t + nr < b) (hs : save = true → nr = 1)
      (hq : Q (.scrollUp t b nr save)) : Block width Q [.scrollUp t b nr save, .putCharOffset ch (width * nr) (width * (b - nr))]
  | down {t b nr : ℤ} (ch : ScreenChar) (hn : 1 ≤ nr) (hb : t + nr < b) (hq : Q (.scrollDown t b nr)) :
    Block width Q [.scrollDown t b nr, .putCharOffset ch (width * nr) (t * width)]

inductive Blocks (width : ℤ) (Q : ScreenCall → Prop) : List ScreenCall → Prop
  | nil : Blocks width Q []
  | append {cs ds : List ScreenCall} (hc : Block width Q cs) (hd : Blocks width Q ds) : Blocks width Q (cs ++ ds)

section

variable {width : ℤ} {Q R : ScreenCall → Prop} {cs ds : List ScreenCall}

lemma Block.blocks (h : Block width Q cs) : Blocks width Q cs := by
  rw [← List.append_nil cs]
  exact .append h .nil

lemma Blocks.trans (hc : Blocks width Q cs) (hd : Blocks width Q ds) : Blocks width Q (cs ++ ds) := by
  induction hc with
  | nil => exact hd
  | append hb _ ih =>
    rw [List.append_assoc]
    exact .append hb ih

lemma Blocks.mono (h : Blocks width Q cs) (hq : ∀ c, Q c → R c) : Blocks width R cs := by
  induction h with
  | nil => exact .nil
  | append hb _ ih =>
    refine .append ?_ ih
    cases hb with
    | one hn hc => exact .one hn (hq _ hc)
    | up ch hn hb hs hc => exact .up ch hn hb hs (hq _ hc)
    | down ch hn hb hc => exact .down ch hn hb (hq _ hc)

lemma Block.saves (h : Block width Q cs) {t b nr : ℤ} (hc : .scrollUp t b nr true ∈ cs) : nr = 1 ∧ t + nr < b := by
  cases h with
  | one h =>
    obtain rfl := List.mem_singleton.mp hc
    exact absurd trivial h
  | up ch hn hb hs =>
    rcases List.mem_cons.mp hc with heq | hmem
    · cases heq
      exact ⟨hs rfl, hb⟩
    · cases List.mem_singleton.mp hmem
  | down ch hn hb =>
    rcases List.mem_cons.mp hc with heq | hmem
    · cases heq
    · cases List.mem_singleton.mp hmem

lemma Blocks.saves (h : Blocks width Q cs) {t b nr : ℤ} (hc : .scrollUp t b nr true ∈ cs) :
    nr = 1 ∧ t + nr < b := by
  induction h with
  | nil => cases hc
  | append hb _ ih =>
    rcases List.mem_append.mp hc with hl | hr
    · exact hb.saves hl
    · exact ih hr

end

/-- The cursor is on its row or behind its last column. -/
structure Placed (p : Parser σ) : Prop where
  width_pos : 1 ≤ p.width
  x_nonneg : 0 ≤ p.x
  x_le : p.x ≤ p.width

abbrev Asks (cy : ℤ) (p : Parser σ) (e i : Prop) (c : ScreenCall) : Prop := Placed p → Single p.width cy e i c

/-- The piece of code keeps the width, leaves the cursor in place and makes its calls in blocks. -/
structure InBlocks (cy : ℤ) (e i : Prop) (p : Parser σ) (o : Outcome σ) : Prop where
  width : o.parser.width = p.width
  placed : Placed p → 0 ≤ o.parser.x ∧ o.parser.x ≤ p.width
  calls : Blocks p.width (Asks cy p e i) o.calls

variable {cy : ℤ} {e i : Prop}

lemma Placed.of_mem (hp : Placed p) (hw : q.width = p.width) (hx : 0 ≤ q.x ∧ q.x ≤ p.width) : Placed q :=
  ⟨hw ▸ hp.width_pos, hx.1, hw ▸ hx.2⟩

lemma Placed.mem (hp : Placed p) : 0 ≤ p.x ∧ p.x ≤ p.width := ⟨hp.x_nonneg, hp.x_le⟩

lemma inBlocks_stay (hw : q.width = p.width) (hx : q.x = p.x) : InBlocks cy e i p (stay q) :=
  ⟨hw, fun h => hx ▸ h.mem, .nil⟩

lemma inBlocks_tell {call : ScreenCall} (hw : q.width = p.width) (hx : Placed p → 0 ≤ q.x ∧ q.x ≤ p.width)
    (h : ¬Scrolls call) (hs : Asks cy p e i call) : InBlocks cy e i p (tell call q) :=
  ⟨hw, hx, (Block.one h hs).blocks⟩

lemma inBlocks_ask {call : ScreenCall} (h : ¬Scrolls call) (hs : Asks cy p e i call) : InBlocks cy e i p (tell call p) :=
  inBlocks_tell rfl Placed.mem h hs

lemma inBlocks_goto (hw : q.width = p.width) (hx : Placed p → 0 ≤ q.x ∧ q.x ≤ p.width) : InBlocks cy e i p (tsGoto q) :=
  inBlocks_tell hw hx id fun _ => trivial

lemma InBlocks.of_eq (h : InBlocks cy e i q o) (hw : q.width = p.width) (hx : Placed p → 0 ≤ q.x ∧ q.x ≤ p.width) :
    InBlocks cy e i p o := by
  have hq : Placed p → Placed q := fun hp => hp.of_mem hw (hx hp)
  refine ⟨h.width.trans hw, fun hp => hw ▸ h.placed (hq hp), hw ▸ h.calls.mono fun c hc hp => ?_⟩
  exact hw ▸ hc (hq hp)

lemma InBlocks.followed {f : Parser σ → Outcome σ} (ho : InBlocks cy e i p o)
    (hf : o.returned = false → InBlocks cy e i o.parser (f o.parser)) : InBlocks cy e i p (o.andThen f) := by
  simp only [Outcome.andThen]
  split
  · exact ho
  · next hr =>
    have h := (hf (eq_false_of_ne_true hr)).of_eq ho.width ho.placed
    exact ⟨h.width, h.placed, ho.calls.trans h.calls⟩

lemma InBlocks.andThen {f : Parser σ → Outcome σ} (ho : InBlocks cy e i p o) (hf : ∀ q, InBlocks cy e i q (f q)) :
    InBlocks cy e i p (o.andThen f) :=
  ho.followed fun _ => hf o.parser

def Blocked (t b nr : ℤ) (p : Parser σ) : Prop := p.height < b ∨ b ≤ t ∨ scrollCount t b nr < 1

instance (t b nr : ℤ) (p : Parser σ) : Decidable (Blocked t b nr p) := inferInstanceAs (Decidable (_ ∨ _))

lemma asks_scroll {t b nr : ℤ} (hi : ¬(b = cy → Blocked t b nr p) → i) (hb : ¬Blocked t b nr p) : b ≠ cy ∨ i := by
  by_cases hcy : b = cy
  · exact .inr (hi fun h => hb (h hcy))
  · exact .inl hcy

lemma scrup_inBlocks {t b nr : ℤ} {save : Bool} (hs : save = true → nr = 1) (p : Parser σ)
    (hi : ¬(b = cy → Blocked t b nr p) → i) : InBlocks cy e i p (scrup t b nr save p) := by
  simp only [scrup]
  split_ifs with hb
  · exact ⟨rfl, Placed.mem, .nil⟩
  · have hq := asks_scroll hi hb
    push Not at hb
    obtain ⟨-, htb, hn⟩ := hb
    have hlt : t + scrollCount t b nr < b := by
      simp only [scrollCount]
      split_ifs <;> omega
    have hone : save = true → scrollCount t b nr = 1 := by
      intro hsave
      rw [hs hsave] at hn ⊢
      simp only [scrollCount] at hn ⊢
      split_ifs at hn ⊢ <;> omega
    exact ⟨rfl, Placed.mem, (Block.up p.videoEraseChar hn hlt hone fun _ => hq).blocks⟩

lemma scrdown_inBlocks (t b nr : ℤ) (p : Parser σ) (hi : ¬(b = cy → Blocked t b nr p) → i) :
    InBlocks cy e i p (scrdown t b nr p) := by
  simp only [scrdown]
  split_ifs with hb
  · exact ⟨rfl, Placed.mem, .nil⟩
  · have hq := asks_scroll hi hb
    push Not at hb
    obtain ⟨-, htb, hn⟩ := hb
    have hlt : t + scrollCount t b nr < b := by
      simp only [scrollCount]
      split_ifs <;> omega
    exact ⟨rfl, Placed.mem, (Block.down p.videoEraseChar hn hlt fun _ => hq).blocks⟩

/-- A line feed scrolls nothing, or not the region that ends at the row `cy`. -/
def FeedFits (cy : ℤ) (p : Parser σ) : Prop := p.y + 1 = p.bottom → p.bottom = cy → Blocked p.top p.bottom 1 p

instance (cy : ℤ) (p : Parser σ) : Decidable (FeedFits cy p) := inferInstanceAs (Decidable (_ → _))

lemma lf_inBlocks (p : Parser σ) (hi : ¬FeedFits cy p → i) : InBlocks cy e i p (lf p) := by
  simp only [lf]
  split_ifs with hy
  · exact scrup_inBlocks (fun _ => rfl) p fun h => hi fun hf => h (hf hy)
  · exact inBlocks_goto rfl Placed.mem
  · exact inBlocks_stay rfl rfl

/-- The same for a reverse line feed, and for the insertion and the deletion of lines. -/
def ReverseFits (cy : ℤ) (p : Parser σ) : Prop := p.y = p.top → p.bottom = cy → Blocked p.top p.bottom 1 p

instance (cy : ℤ) (p : Parser σ) : Decidable (ReverseFits cy p) := inferInstanceAs (Decidable (_ → _))

def LinesFit (cy vpar : ℤ) (p : Parser σ) : Prop :=
  p.bottom = cy → Blocked p.y p.bottom (csiCount vpar (p.height - p.y)) p

instance (cy vpar : ℤ) (p : Parser σ) : Decidable (LinesFit cy vpar p) := inferInstanceAs (Decidable (_ → _))

lemma ri_inBlocks (p : Parser σ) (hi : ¬ReverseFits cy p → i) : InBlocks cy e i p (ri p) := by
  simp only [ri]
  split_ifs with hy
  · exact scrdown_inBlocks _ _ _ p fun h => hi fun hf => h (hf hy)
  · exact inBlocks_goto rfl Placed.mem
  · exact inBlocks_stay rfl rfl

lemma cr_inBlocks (p : Parser σ) : InBlocks cy e i p (cr p) :=
  inBlocks_goto rfl fun hp => ⟨le_rfl, zero_le_one.trans hp.width_pos⟩

lemma tab_inBlocks (host : Host σ) (p : Parser σ) : InBlocks cy e i p (tab host p) := by
  obtain ⟨hl, hu⟩ := nextTab_mem host p (p.width - 1 - p.x).toNat p.x
  exact inBlocks_goto rfl fun hp => ⟨hp.x_nonneg.trans hl, hu hp.x_le⟩

lemma Placed.clampInto_mem (hp : Placed p) (n : ℤ) : 0 ≤ clampInto n 0 p.width ∧ clampInto n 0 p.width ≤ p.width := by
  have h := LinuxParser.clampInto_mem n (Int.lt_of_lt_of_le Int.zero_lt_one hp.width_pos)
  exact ⟨h.1, h.2.le⟩

lemma gotoxy_inBlocks (newX newY : ℤ) (p : Parser σ) : InBlocks cy e i p (gotoxy newX newY p) :=
  inBlocks_goto rfl fun hp => hp.clampInto_mem newX

lemma gotoxay_inBlocks (nx ny : ℤ) (p : Parser σ) : InBlocks cy e i p (gotoxay nx ny p) :=
  inBlocks_goto rfl fun hp => hp.clampInto_mem nx

lemma restoreCur_inBlocks (p : Parser σ) : InBlocks cy e i p (restoreCur p) :=
  (gotoxy_inBlocks _ _ p).andThen fun _ => inBlocks_stay rfl rfl

lemma csi_J_inBlocks (he : e) (vpar : ℤ) (p : Parser σ) : InBlocks cy e i p (csi_J vpar p) := by
  simp only [csi_J]
  split
  · exact inBlocks_ask id fun _ => he
  · exact inBlocks_ask id fun _ => he
  · exact inBlocks_ask id fun _ => he
  · exact inBlocks_stay rfl rfl

lemma csi_K_inBlocks (he : e) (vpar : ℤ) (p : Parser σ) : InBlocks cy e i p (csi_K vpar p) := by
  simp only [csi_K]
  split
  · exact inBlocks_ask id fun _ => he
  · exact inBlocks_ask id fun _ => he
  · exact inBlocks_ask id fun _ => he
  · exact inBlocks_stay rfl rfl

lemma csi_X_inBlocks (he : e) (vpar : ℤ) (p : Parser σ) : InBlocks cy e i p (csi_X vpar p) := inBlocks_ask id fun _ => he

lemma resetTerminal_inBlocks (he : e) (p : Parser σ) : InBlocks cy e i p (resetTerminal p) := by
  simp only [resetTerminal]
  refine (InBlocks.andThen (f := fun q => stay (saveCur q)) ?_ fun q => inBlocks_stay rfl rfl).andThen
    fun q => csi_J_inBlocks he 2 q
  exact (gotoxy_inBlocks 0 0 _).of_eq rfl Placed.mem

lemma csiCount_nonneg (vpar room : ℤ) : 0 ≤ csiCount vpar room := by
  have hr := toU32_nonneg room
  have hv := toU32_nonneg vpar
  simp only [csiCount]
  split_ifs <;> omega

lemma csi_at_inBlocks (vpar : ℤ) (p : Parser σ) : InBlocks cy e i p (csi_at vpar p) := by
  have hn := csiCount_nonneg vpar (p.width - p.x)
  refine InBlocks.andThen (inBlocks_ask id fun hp => ?_) fun _ => inBlocks_ask id fun _ => hn
  refine ⟨add_nonneg hp.x_nonneg hn, fun hx => .inl ?_⟩
  have hle := csiCount_mem vpar (by omega : 0 ≤ p.width - p.x) le_rfl (by omega)
  omega

lemma csi_P_inBlocks (vpar : ℤ) (p : Parser σ) : InBlocks cy e i p (csi_P vpar p) := by
  refine InBlocks.andThen (inBlocks_ask id fun hp => ?_) fun _ => inBlocks_ask id fun _ => csiCount_nonneg _ _
  have hx := hp.x_nonneg
  have hw := hp.x_le
  refine ⟨by omega, fun _ => .inl (by omega)⟩

lemma setMode_inBlocks (onOff : Bool) (p : Parser σ) : InBlocks cy e i p (setMode onOff p) := by
  have hprivate : ∀ (n : ℤ) (q : Parser σ), InBlocks cy e i q (setPrivateMode onOff n q) := by
    intro n q
    simp only [setPrivateMode]
    split
    · split_ifs <;> exact inBlocks_stay rfl rfl
    · exact (gotoxay_inBlocks 0 0 _).of_eq rfl Placed.mem
    all_goals exact inBlocks_stay rfl rfl
  have hansi : ∀ (n : ℤ) (q : Parser σ), InBlocks cy e i q (setAnsiMode onOff n q) := by
    intro n q
    simp only [setAnsiMode]
    split <;> exact inBlocks_stay rfl rfl
  have hfold : ∀ (ns : List ℤ) (o : Outcome σ), InBlocks cy e i p o → InBlocks cy e i p (ns.foldl
      (fun o n => o.andThen (if p.ques then setPrivateMode onOff n else setAnsiMode onOff n)) o) := by
    intro ns
    induction ns with
    | nil => exact fun o ho => ho
    | cons n ns ih =>
      intro o ho
      apply ih
      refine ho.andThen fun q => ?_
      split_ifs
      · exact hprivate n q
      · exact hansi n q
  exact hfold (pars p) (stay p) (inBlocks_stay rfl rfl)

/-- The parameters may have changed, but not the width or the cursor. -/
structure SamePlace (p q : Parser σ) : Prop where
  width : q.width = p.width
  x : q.x = p.x

lemma SamePlace.trans {r : Parser σ} (h : SamePlace p q) (h' : SamePlace q r) : SamePlace p r :=
  ⟨h'.width.trans h.width, h'.x.trans h.x⟩

lemma InBlocks.after (h : InBlocks cy e i q o) (hq : SamePlace p q) : InBlocks cy e i p o :=
  h.of_eq hq.width fun hp => hq.x ▸ hp.mem

lemma defaultPar_samePlace (i : ℕ) (n : ℤ) (p : Parser σ) : SamePlace p (defaultPar i n p) := by
  simp only [defaultPar]
  split_ifs <;> exact ⟨rfl, rfl⟩

lemma decrementPar_samePlace (i : ℕ) (p : Parser σ) : SamePlace p (decrementPar i p) := by
  simp only [decrementPar]
  split_ifs <;> exact ⟨rfl, rfl⟩

lemma setScrollRegion_inBlocks (p : Parser σ) : InBlocks cy e i p (setScrollRegion p) := by
  have hq := (defaultPar_samePlace 0 1 p).trans (defaultPar_samePlace 1 p.height _)
  simp only [setScrollRegion]
  split_ifs
  · exact (gotoxay_inBlocks 0 0 _).of_eq hq.width fun hp => hq.x ▸ hp.mem
  · exact inBlocks_stay hq.width hq.x

lemma bell_inBlocks (p : Parser σ) : InBlocks cy e i p (bell p) := by
  simp only [bell]
  split_ifs
  · exact inBlocks_tell rfl Placed.mem id fun _ => trivial
  · exact inBlocks_stay rfl rfl

lemma respondID_inBlocks (p : Parser σ) : InBlocks cy e i p (respondID p) := inBlocks_ask id fun _ => trivial

lemma deviceReport_inBlocks (p : Parser σ) : InBlocks cy e i p (deviceReport p) := by
  simp only [deviceReport]
  split_ifs
  · exact inBlocks_stay rfl rfl
  · exact inBlocks_ask id fun _ => trivial
  · exact inBlocks_ask id fun _ => trivial
  · exact inBlocks_stay rfl rfl

/-- What is left of `InBlocks` for a whole byte: the state may be lost unless `k` holds. -/
structure ByteBlocks (cy : ℤ) (k e i : Prop) (p : Parser σ) (o : Outcome σ) : Prop where
  width : k → o.parser.width = p.width
  placed : k → Placed p → 0 ≤ o.parser.x ∧ o.parser.x ≤ p.width
  calls : Blocks p.width (Asks cy p e i) o.calls

variable {k : Prop}

lemma InBlocks.byteBlocks (h : InBlocks cy e i p o) : ByteBlocks cy k e i p o :=
  ⟨fun _ => h.width, fun _ => h.placed, h.calls⟩

lemma ByteBlocks.imp {j d g : Prop} (h : ByteBlocks cy k e i p o) (hj : j → k) (hd : e → d) (hg : i → g) :
    ByteBlocks cy j d g p o := by
  refine ⟨h.width ∘ hj, h.placed ∘ hj, h.calls.mono fun c hc hp => ?_⟩
  have hs := hc hp
  cases c with
  | putCharOffset ch n ofs => exact hd hs
  | scrollUp t b nr save => exact hs.imp_right hg
  | scrollDown t b nr => exact hs.imp_right hg
  | shiftRow y x0 delta => exact ⟨hs.1, fun hx => (hs.2 hx).imp_right hg⟩
  | _ => exact hs

lemma ByteBlocks.after (h : ByteBlocks cy k e i q o) (hq : SamePlace p q) : ByteBlocks cy k e i p o := by
  have hp : Placed p → Placed q := fun hp => hp.of_mem hq.width (hq.x ▸ hp.mem)
  refine ⟨fun hk => (h.width hk).trans hq.width, fun hk hpl => hq.width ▸ h.placed hk (hp hpl), ?_⟩
  exact hq.width ▸ h.calls.mono fun c hc hpl => hq.width ▸ hc (hp hpl)

lemma byteBlocks_stay (h : k → SamePlace p q) : ByteBlocks cy k e i p (stay q) :=
  ⟨fun hk => (h hk).width, fun hk hp => (h hk).x ▸ hp.mem, .nil⟩

lemma storeTabWord_samePlace {x : ℤ} (hx : hasTabWord x) (word : ℕ) : SamePlace p (storeTabWord host p x word) := by
  simp only [storeTabWord, if_pos hx]
  exact ⟨rfl, rfl⟩


def EscFits (cy : ℤ) (c : UInt8) (p : Parser σ) : Prop :=
  (byteChar c = 'E' ∨ byteChar c = 'D' → FeedFits cy p) ∧ (byteChar c = 'M' → ReverseFits cy p)

instance (cy : ℤ) (c : UInt8) (p : Parser σ) : Decidable (EscFits cy c p) := inferInstanceAs (Decidable (_ ∧ _))

lemma escState_byteBlocks (host : Host σ) (c : UInt8) (p : Parser σ) (hi : ¬EscFits cy c p → i) :
    ByteBlocks cy (byteChar c = 'H' → hasTabWord p.x) (byteChar c = 'c') i p (escState host c p) := by
  have hq : SamePlace p (setState .normal p) := ⟨rfl, rfl⟩
  simp only [escState]
  split
  case h_4 hE =>
    have hlf : InBlocks cy (byteChar c = 'c') i (setX 0 (setState .normal p)) (lf (setX 0 (setState .normal p))) :=
      lf_inBlocks _ fun h => hi fun hf => h (hf.1 (.inl hE))
    exact (((cr_inBlocks (setState .normal p)).followed fun _ => hlf).after hq).byteBlocks
  case h_5 hM => exact ((ri_inBlocks (setState .normal p) fun h => hi fun hf => h (hf.2 hM)).after hq).byteBlocks
  case h_6 hD => exact ((lf_inBlocks (setState .normal p) fun h => hi fun hf => h (hf.1 (.inr hD))).after hq).byteBlocks
  case h_7 hH => exact byteBlocks_stay fun hk => hq.trans (storeTabWord_samePlace (hk hH) _)
  case h_8 => exact ((respondID_inBlocks (setState .normal p)).after hq).byteBlocks
  case h_10 => exact ((restoreCur_inBlocks (setState .normal p)).after hq).byteBlocks
  case h_14 hc => exact ((resetTerminal_inBlocks hc (setState .normal p)).after hq).byteBlocks
  all_goals exact byteBlocks_stay fun _ => ⟨rfl, rfl⟩

lemma clearTabs_samePlace (hx : parAt p 0 = 0 → hasTabWord p.x) : SamePlace p (clearTabs host p) := by
  simp only [clearTabs]
  split_ifs with h0
  · exact storeTabWord_samePlace (hx h0) _
  · exact ⟨rfl, rfl⟩
  · exact ⟨rfl, rfl⟩

lemma Frame.samePlace (h : Frame p q) : SamePlace p q := ⟨h.width, h.x⟩

/-- The final bytes of the erasing control sequences. -/
def CsiErases (c : UInt8) : Prop := byteChar c = 'J' ∨ byteChar c = 'K' ∨ byteChar c = 'X'

instance (c : UInt8) : Decidable (CsiErases c) := inferInstanceAs (Decidable (_ ∨ _))

def CsiFits (cy : ℤ) (c : UInt8) (p : Parser σ) : Prop :=
  byteChar c = 'L' ∨ byteChar c = 'M' → LinesFit cy (parAt p 0) p

instance (cy : ℤ) (c : UInt8) (p : Parser σ) : Decidable (CsiFits cy c p) := inferInstanceAs (Decidable (_ → _))

lemma csiFinal_byteBlocks (host : Host σ) (c : UInt8) (p : Parser σ) (hi : ¬CsiFits cy c p → i) :
    ByteBlocks cy (byteChar c = 'g' → parAt p 0 = 0 → hasTabWord p.x) (CsiErases c) i p (csiFinal host c p) := by
  have hdec := decrementPar_samePlace 0 p
  have hdef := defaultPar_samePlace 0 1 p
  simp only [csiFinal]
  split
  case h_1 | h_2 => exact ((gotoxy_inBlocks _ _ _).after hdec).byteBlocks
  case h_3 | h_4 | h_5 | h_6 | h_7 | h_8 | h_9 | h_10 => exact ((gotoxy_inBlocks _ _ _).after hdef).byteBlocks
  case h_11 => exact ((gotoxay_inBlocks _ _ _).after hdec).byteBlocks
  case h_12 | h_13 => exact ((gotoxay_inBlocks _ _ _).after (hdec.trans (decrementPar_samePlace 1 _))).byteBlocks
  case h_14 hc => exact (csi_J_inBlocks (.inl hc) _ p).byteBlocks
  case h_15 hc => exact (csi_K_inBlocks (.inr (.inl hc)) _ p).byteBlocks
  case h_16 hL => exact (scrdown_inBlocks _ _ _ p fun h => hi fun hf => h (hf (.inl hL))).byteBlocks
  case h_17 hM => exact (scrup_inBlocks (fun h => by cases h) p fun h => hi fun hf => h (hf (.inr hM))).byteBlocks
  case h_18 => exact (csi_P_inBlocks _ p).byteBlocks
  case h_19 =>
    split_ifs
    · exact (respondID_inBlocks p).byteBlocks
    · exact byteBlocks_stay fun _ => ⟨rfl, rfl⟩
  case h_20 hg => exact byteBlocks_stay fun hk => clearTabs_samePlace (hk hg)
  case h_21 => exact byteBlocks_stay fun _ => (csi_m_frame p).samePlace
  case h_22 => exact (setScrollRegion_inBlocks p).byteBlocks
  case h_24 => exact (restoreCur_inBlocks p).byteBlocks
  case h_25 hc => exact (csi_X_inBlocks (.inr (.inr hc)) _ p).byteBlocks
  case h_26 => exact (csi_at_inBlocks _ p).byteBlocks
  case h_27 => exact byteBlocks_stay fun _ => (settermCommand_frame p).samePlace
  all_goals exact byteBlocks_stay fun _ => ⟨rfl, rfl⟩

/-- If the byte clears the tab stop of a column, that column has a word. -/
def ClearsOwnTab (c : UInt8) (p : Parser σ) : Prop :=
  p.ques = false → byteChar c = 'g' → parAt p 0 = 0 → hasTabWord p.x

lemma gotparsState_byteBlocks (host : Host σ) (c : UInt8) (p : Parser σ) (hi : ¬(p.ques = false → CsiFits cy c p) → i) :
    ByteBlocks cy (ClearsOwnTab c p) (CsiErases c) i p (gotparsState host c p) := by
  have hq : SamePlace p (setState .normal p) := ⟨rfl, rfl⟩
  simp only [gotparsState]
  split
  · exact ((setMode_inBlocks true (setState .normal p)).after hq).byteBlocks
  · exact ((setMode_inBlocks false (setState .normal p)).after hq).byteBlocks
  · exact ((deviceReport_inBlocks (setState .normal p)).after hq).byteBlocks
  · split_ifs with hques
    · exact byteBlocks_stay fun _ => ⟨rfl, rfl⟩
    · have hnot := eq_false_of_ne_true hques
      have h : ByteBlocks cy _ _ i _ (csiFinal host c (setState .normal p)) :=
        csiFinal_byteBlocks host c _ fun h => hi fun hf => h (hf hnot)
      exact (h.after hq).imp (fun hk => hk hnot) id id

lemma getparsState_byteBlocks (host : Host σ) (c : UInt8) (p : Parser σ) (hi : ¬(p.ques = false → CsiFits cy c p) → i) :
    ByteBlocks cy (ClearsOwnTab c p) (CsiErases c) i p (getparsState host c p) := by
  simp only [getparsState]
  split_ifs
  · exact byteBlocks_stay fun _ => ⟨rfl, rfl⟩
  · exact byteBlocks_stay fun _ => ⟨rfl, rfl⟩
  · exact (gotparsState_byteBlocks host c (setState .gotpars p) hi).after ⟨rfl, rfl⟩

lemma squareState_byteBlocks (host : Host σ) (c : UInt8) (p : Parser σ)
    (hi : ¬(byteChar c = 'L' ∨ byteChar c = 'M' → LinesFit cy 0 p) → i) : ByteBlocks cy (byteChar c = 'g' → hasTabWord p.x) (CsiErases c) i p (squareState host c p) := by
  simp only [squareState]
  split_ifs
  · exact byteBlocks_stay fun _ => ⟨rfl, rfl⟩
  · exact byteBlocks_stay fun _ => ⟨rfl, rfl⟩
  · refine ByteBlocks.imp ((getparsState_byteBlocks host c _ ?_).after ⟨rfl, rfl⟩) (fun hk => ?_) id id
    · exact fun h => hi fun hf => h fun _ => hf
    · exact fun _ hg _ => hk hg

section Characters

lemma markCells_inBlocks (ch : ScreenChar) {count : ℤ} (p : Parser σ) (hc : p.x + count ≤ p.width) :
    InBlocks cy e i p (markCells ch count p) := by
  simp only [markCells]
  split_ifs with hpos
  · refine inBlocks_tell rfl (fun hp => ?_) id fun _ => hpos.le
    exact ⟨add_nonneg hp.x_nonneg hpos.le, hc⟩
  · exact inBlocks_stay rfl rfl

lemma advance_inBlocks (ch : ScreenChar) (charWidth : ℤ) (p : Parser σ) : InBlocks cy e i p (advance ch charWidth p) := by
  simp only [advance]
  split_ifs with hin
  · refine InBlocks.andThen ?_ fun q => inBlocks_goto rfl Placed.mem
    refine (markCells_inBlocks ch (setX (p.x + 1) p) (markedCells_le charWidth _)).of_eq rfl fun hp => ?_
    exact ⟨add_nonneg hp.x_nonneg zero_le_one, hin⟩
  · exact inBlocks_stay rfl rfl

lemma putCell_inBlocks (ch : ScreenChar) (p : Parser σ) : InBlocks cy e i p (putCell ch p) := by
  refine ⟨rfl, Placed.mem, Block.blocks (.one ?_ fun _ => zero_le_one)⟩
  exact id

/-- A character that is inserted in front of the right margin fits in what is left of its row. -/
def GlyphFits (host : Host σ) (ch : ℕ) (p : Parser σ) : Prop :=
  p.decim = true → p.x < p.width → p.x + relativeWidthOfCharacter host ch ≤ p.width

instance (host : Host σ) (ch : ℕ) (p : Parser σ) : Decidable (GlyphFits host ch p) :=
  inferInstanceAs (Decidable (_ → _))

lemma putGlyph_inBlocks (host : Host σ) (ch : ScreenChar) (p : Parser σ) (hi : ¬GlyphFits host ch.ch p → i) :
    InBlocks cy e i p (putGlyph host ch p) := by
  have hw := relativeWidth_pos host ch.ch
  simp only [putGlyph]
  refine (InBlocks.andThen ?_ (putCell_inBlocks ch)).andThen (advance_inBlocks ch _)
  split_ifs with hd
  · refine inBlocks_ask id fun hp => ⟨add_nonneg hp.x_nonneg (zero_le_one.trans hw), fun hx => ?_⟩
    by_cases hfit : GlyphFits host ch.ch p
    · exact .inl (hfit hd hx)
    · exact .inr (hi hfit)
  · exact inBlocks_stay rfl rfl

lemma autowrap_inBlocks (p : Parser σ) (hi : ¬(p.width ≤ p.x ∧ p.decawm = true → FeedFits cy p) → i) :
    InBlocks cy e i p (autowrap p) := by
  simp only [autowrap]
  split_ifs with hw
  · have hlf : InBlocks cy e i (setX 0 p) (lf (setX 0 p)) := lf_inBlocks _ fun h => hi fun hf => h (hf hw)
    exact (cr_inBlocks p).followed fun _ => hlf
  · exact inBlocks_stay rfl rfl

/-- The same for a character that is wrapped to the next row first, if the line feed lets it be put. -/
def PutFits (cy : ℤ) (host : Host σ) (ch : ℕ) (p : Parser σ) : Prop :=
  if p.width ≤ p.x ∧ p.decawm = true then BlockedFeed p ∨ FeedFits cy p ∧ GlyphFits host ch (setX 0 p)
  else GlyphFits host ch p

instance (cy : ℤ) (host : Host σ) (ch : ℕ) (p : Parser σ) : Decidable (PutFits cy host ch p) :=
  inferInstanceAs (Decidable (if p.width ≤ p.x ∧ p.decawm = true then
    BlockedFeed p ∨ FeedFits cy p ∧ GlyphFits host ch (setX 0 p) else GlyphFits host ch p))

lemma putFits_setUnich (cy : ℤ) (host : Host σ) (ch n : ℕ) (p : Parser σ) :
    PutFits cy host ch (setUnich n p) = PutFits cy host ch p := rfl

lemma lf_setY (p : Parser σ) : ∃ y, (lf p).parser = setY y p := by
  simp only [lf, scrup]
  split_ifs
  · exact ⟨p.y, rfl⟩
  · exact ⟨p.y, rfl⟩
  · exact ⟨p.y + 1, rfl⟩
  · exact ⟨p.y, rfl⟩

lemma putch_inBlocks (host : Host σ) (ch : ScreenChar) (p : Parser σ) (hi : ¬PutFits cy host ch.ch p → i) :
    InBlocks cy e i p (putch host ch p) := by
  have hwrap : InBlocks cy e i p (autowrap p) := autowrap_inBlocks p fun h => hi fun hput => h fun hw => by
    rw [PutFits, if_pos hw] at hput
    exact hput.elim (fun hb _ _ => hb.2) And.left
  refine hwrap.followed fun hr => putGlyph_inBlocks host ch _ fun hfit => hi fun hput => hfit ?_
  simp only [PutFits] at hput
  simp only [autowrap] at hr ⊢
  split_ifs at hput hr ⊢ with hw
  · have hcr : (cr p).andThen lf = { (lf (setX 0 p)) with calls := [.goto 0 p.y] ++ (lf (setX 0 p)).calls } := rfl
    rw [hcr] at hr ⊢
    rcases hput with hb | ⟨-, hg⟩
    · have hblocked : (lf (setX 0 p)).returned = true := by
        rw [lf_blocked (p := setX 0 p) hb]
      exact absurd (hblocked.symm.trans hr) (by decide)
    · obtain ⟨y, hy⟩ := lf_setY (setX 0 p)
      simp only [hy]
      exact hg
  · exact hput

def putOutput (host : Host σ) (ch : ScreenChar) (r : Conversion σ) (p : Parser σ) : Outcome σ :=
  match r.output with
  | some u => putch host { ch with ch := u % 65536 } (setUnich (ntohl u) p)
  | none => stay p

/-- The same for the characters that the converter makes of `inp`, at most `n` of them. -/
def ConvertFits (cy : ℤ) (host : Host σ) (ch : ScreenChar) : ℕ → σ → List UInt8 → Parser σ → Prop
  | 0, _, _, _ => True
  | n + 1, cd, inp, p =>
    let r := host.iconv cd inp
    let o := putOutput host ch r (setIconvState r.descriptor p)
    (∀ u ∈ r.output, PutFits cy host (u % 65536) p) ∧
      (o.returned = false → (r.status = .eilseq → PutFits cy host 0xfffd o.parser) ∧
        (r.status = .e2big → ConvertFits cy host ch n r.descriptor (inp.drop (inp.length - r.inSize)) o.parser))

instance decidableConvertFits (cy : ℤ) (host : Host σ) (ch : ScreenChar) :
    ∀ n cd inp p, Decidable (ConvertFits cy host ch n cd inp p)
  | 0, _, _, _ => inferInstanceAs (Decidable True)
  | n + 1, _, _, _ =>
    have : ∀ cd inp p, Decidable (ConvertFits cy host ch n cd inp p) := decidableConvertFits cy host ch n
    inferInstanceAs (Decidable (_ ∧ _))

lemma putOutput_inBlocks (host : Host σ) (ch : ScreenChar) (r : Conversion σ) (p : Parser σ)
    (hi : ¬(∀ u ∈ r.output, PutFits cy host (u % 65536) p) → i) : InBlocks cy e i p (putOutput host ch r p) := by
  simp only [putOutput]
  cases ho : r.output with
  | none => exact inBlocks_stay rfl rfl
  | some u =>
    refine (putch_inBlocks host _ _ fun hput => hi fun hfit => hput ?_).after ⟨rfl, rfl⟩
    exact hfit u ho

lemma convert_inBlocks (host : Host σ) (ch : ScreenChar) (n : ℕ) (cd : σ) (inp : List UInt8) (p : Parser σ)
    (hn : inp.length < n) (hi : ¬ConvertFits cy host ch n cd inp p → i) : InBlocks cy e i p (convert host ch cd inp p) := by
  induction n generalizing cd inp p with
  | zero => exact absurd hn (Nat.not_lt_zero _)
  | succ n ih =>
    have hout : InBlocks cy e i p (putOutput host ch (host.iconv cd inp) (setIconvState (host.iconv cd inp).descriptor p)) := by
      refine (putOutput_inBlocks host ch _ _ fun hput => hi fun hfit => hput ?_).after ⟨rfl, rfl⟩
      exact hfit.1
    rw [convert]
    refine hout.followed fun hr => ?_
    have hrest : ConvertFits cy host ch (n + 1) cd inp p → _ := fun hfit => hfit.2 hr
    generalize (putOutput host ch (host.iconv cd inp) (setIconvState (host.iconv cd inp).descriptor p)).parser = q at hrest
    split
    · exact inBlocks_stay rfl rfl
    · exact inBlocks_stay rfl rfl
    · next hs =>
      refine InBlocks.andThen (putch_inBlocks host _ q fun hput => hi fun hfit => hput ?_) fun _ => inBlocks_stay rfl rfl
      exact (hrest hfit).1 hs
    · next hs =>
      split_ifs
      · exact inBlocks_stay rfl rfl
      · have hlt := host.iconv_e2big cd inp hs
        refine ih _ _ q ?_ fun hnot => hi fun hfit => hnot ((hrest hfit).2 hs)
        rw [List.length_drop]
        omega

def bufferedInput (c : UInt8) (p : Parser σ) : List UInt8 :=
  (if p.inputBuf.length = inputBufSize then [] else p.inputBuf) ++ [metaByte c p]

/-- The same for what becomes of a byte that is not part of a UTF-8 sequence. -/
def BufferFits (cy : ℤ) (host : Host σ) (c : UInt8) (p : Parser σ) : Option σ → Bool → Prop
  | some cd, true =>
    ConvertFits cy host (charOf 0 p) ((bufferedInput c p).length + 1) cd (bufferedInput c p)
      (setInputBuf (bufferedInput c p) p)
  | _, _ => PutFits cy host (translateMaps p.translate (metaByte c p).toNat % 65536) p

def NormalFits (cy : ℤ) (host : Host σ) (c : UInt8) (p : Parser σ) : Prop :=
  if p.utf = true ∧ 0x7f < c.toNat then
    p.utfCount ≠ 0 → c.toNat &&& 0xc0 = 0x80 → (contByte c.toNat p).utfCount = 0 →
      PutFits cy host ((contByte c.toNat p).unich % 65536) p
  else BufferFits cy host c p p.iconvState (decide (p.translate = 0))

instance (cy : ℤ) (host : Host σ) (c : UInt8) (p : Parser σ) : ∀ s b, Decidable (BufferFits cy host c p s b)
  | some _, true => inferInstanceAs (Decidable (ConvertFits _ _ _ _ _ _ _))
  | some _, false | none, _ => inferInstanceAs (Decidable (PutFits _ _ _ _))

instance (cy : ℤ) (host : Host σ) (c : UInt8) (p : Parser σ) : Decidable (NormalFits cy host c p) :=
  inferInstanceAs (Decidable (if p.utf = true ∧ 0x7f < c.toNat then _ → _ → _ → PutFits _ _ _ _
    else BufferFits _ _ _ _ _ _))

lemma bufferFits_other {s : Option σ} {b : Bool} (h : ∀ cd, s = some cd → b = true → False) :
    BufferFits cy host c p s b = PutFits cy host (translateMaps p.translate (metaByte c p).toNat % 65536) p := by
  match s, b with
  | some cd, true => exact (h cd rfl rfl).elim
  | some cd, false => rfl
  | none, b => rfl

lemma utfByte_inBlocks (host : Host σ) (n : ℕ) (p : Parser σ)
    (hi : ¬(p.utfCount ≠ 0 → n &&& 0xc0 = 0x80 → (contByte n p).utfCount = 0 →
      PutFits cy host ((contByte n p).unich % 65536) p) → i) : InBlocks cy e i p (utfByte host n p) := by
  simp only [utfByte]
  split_ifs with hc hm
  · exact inBlocks_stay rfl rfl
  · refine (putch_inBlocks host _ (contByte n p) fun hput => hi fun hfit => hput ?_).after ⟨rfl, rfl⟩
    exact hfit hc.1 hc.2 (not_not.mp hm)
  · exact inBlocks_stay (leadByte_frame n p).width (leadByte_frame n p).x

lemma normalState_inBlocks (host : Host σ) (c : UInt8) (p : Parser σ)
    (hi : ¬NormalFits cy host c (setState .normal p) → i) : InBlocks cy e i p (normalState host c p) := by
  have hq : SamePlace p (setState .normal p) := ⟨rfl, rfl⟩
  simp only [NormalFits] at hi
  simp only [normalState]
  split_ifs at hi ⊢
  · exact (utfByte_inBlocks host _ (setState .normal p) hi).after hq
  · split
    · next hcd htr =>
      rw [hcd, htr] at hi
      exact (convert_inBlocks host _ _ _ _ _ (Nat.lt_succ_self _) hi).after ⟨rfl, rfl⟩
    · next hno =>
      rw [bufferFits_other hno] at hi
      refine (putch_inBlocks host _ _ fun hput => hi fun hfit => hput ?_).after ⟨rfl, rfl⟩
      rw [putFits_setUnich]
      exact hfit

end Characters

def KeepsTabs (c : UInt8) (p : Parser σ) : Prop :=
  (p.vcState = .esc → byteChar c = 'H' → hasTabWord p.x) ∧ (p.vcState = .square → byteChar c = 'g' → hasTabWord p.x) ∧
    (p.vcState = .getpars ∨ p.vcState = .gotpars → ClearsOwnTab c p)

def Erases (c : UInt8) (p : Parser σ) : Prop :=
  p.vcState = .esc ∧ byteChar c = 'c' ∨
    (p.vcState = .square ∨ p.vcState = .getpars ∨ p.vcState = .gotpars) ∧ CsiErases c

instance (c : UInt8) (p : Parser σ) : Decidable (Erases c p) := inferInstanceAs (Decidable (_ ∨ _))

/-- A character inserted by the byte fits in what is left of its row, and no region is scrolled that ends at
the row `cy`. -/
def StateFits (cy : ℤ) (host : Host σ) (c : UInt8) (p : Parser σ) : Prop :=
  (p.vcState = .esc → EscFits cy c p) ∧
    (p.vcState = .square → byteChar c = 'L' ∨ byteChar c = 'M' → LinesFit cy 0 p) ∧
    (p.vcState = .getpars ∨ p.vcState = .gotpars → p.ques = false → CsiFits cy c p) ∧
    (p.vcState = .normal ∨ p.vcState = .ignore → NormalFits cy host c (setState .normal p))

lemma processState_byteBlocks (host : Host σ) (c : UInt8) (p : Parser σ)
    (hi : ¬StateFits cy host c p → i) : ByteBlocks cy (KeepsTabs c p) (Erases c p) i p (processState host c p) := by
  simp only [processState]
  split
  case h_1 hv =>
    refine (escState_byteBlocks host c p fun h => hi fun hf => h (hf.1 hv)).imp (fun hk => hk.1 hv) (fun hc => ?_) id
    exact .inl ⟨hv, hc⟩
  case h_6 hv =>
    refine (squareState_byteBlocks host c p fun h => hi fun hf => h (hf.2.1 hv)).imp (fun hk => hk.2.1 hv) (fun hc => ?_) id
    exact .inr ⟨.inl hv, hc⟩
  case h_7 hv =>
    refine (getparsState_byteBlocks host c p fun h => hi fun hf => h (hf.2.2.1 (.inl hv))).imp (fun hk => hk.2.2 (.inl hv))
      (fun hc => ?_) id
    exact .inr ⟨.inr (.inl hv), hc⟩
  case h_8 hv =>
    refine (gotparsState_byteBlocks host c p fun h => hi fun hf => h (hf.2.2.1 (.inr hv))).imp (fun hk => hk.2.2 (.inr hv))
      (fun hc => ?_) id
    exact .inr ⟨.inr (.inr hv), hc⟩
  case h_2 =>
    simp only [nonstdState]
    split <;> exact byteBlocks_stay fun _ => ⟨rfl, rfl⟩
  case h_3 =>
    simp only [titleSemiState]
    split_ifs <;> exact byteBlocks_stay fun _ => ⟨rfl, rfl⟩
  case h_4 =>
    simp only [titleBufState]
    split_ifs <;> exact byteBlocks_stay fun _ => ⟨rfl, rfl⟩
  case h_9 =>
    simp only [percentState]
    split <;> exact byteBlocks_stay fun _ => ⟨rfl, rfl⟩
  case h_12 =>
    simp only [setG0State]
    split_ifs <;> exact byteBlocks_stay fun _ => ⟨rfl, rfl⟩
  case h_13 =>
    simp only [setG1State]
    split_ifs <;> exact byteBlocks_stay fun _ => ⟨rfl, rfl⟩
  case h_14 hv => exact (normalState_inBlocks host c p fun h => hi fun hf => h (hf.2.2.2 (.inl hv))).byteBlocks
  case h_15 hv => exact (normalState_inBlocks host c p fun h => hi fun hf => h (hf.2.2.2 (.inr hv))).byteBlocks
  all_goals exact byteBlocks_stay fun _ => ⟨rfl, rfl⟩

/-- The bytes that `processByte:` handles before it looks at its state. -/
def controlCodes : List ℕ := [0, 7, 8, 9, 10, 11, 12, 13, 14, 15, 24, 26, 27, 127, 155]

instance (cy : ℤ) (host : Host σ) (c : UInt8) (p : Parser σ) : Decidable (StateFits cy host c p) :=
  inferInstanceAs (Decidable (_ ∧ _))

def ByteFits (cy : ℤ) (host : Host σ) (c : UInt8) (p : Parser σ) : Prop :=
  (c.toNat = 10 ∨ c.toNat = 11 ∨ c.toNat = 12 → FeedFits cy p) ∧ (c.toNat ∉ controlCodes → StateFits cy host c p)

instance (cy : ℤ) (host : Host σ) (c : UInt8) (p : Parser σ) : Decidable (ByteFits cy host c p) :=
  inferInstanceAs (Decidable (_ ∧ _))

lemma processByte_byteBlocks (host : Host σ) (c : UInt8) (p : Parser σ) (hi : ¬ByteFits cy host c p → i) :
    ByteBlocks cy (KeepsTabs c p) (Erases c p) i p (processByte host c p) := by
  simp only [processByte]
  split
  case h_2 => exact (bell_inBlocks p).byteBlocks
  case h_3 =>
    split_ifs with hpos
    · have hback : InBlocks cy (Erases c p) i p (tsGoto (setX (p.x - 1) p)) := inBlocks_goto rfl fun hp =>
        ⟨Int.sub_nonneg_of_le hpos, (sub_le_self _ zero_le_one).trans hp.x_le⟩
      exact hback.byteBlocks
    · exact byteBlocks_stay fun _ => ⟨rfl, rfl⟩
  case h_4 => exact (tab_inBlocks host p).byteBlocks
  case h_5 h => exact (lf_inBlocks p fun hnot => hi fun hf => hnot (hf.1 (.inl h))).byteBlocks
  case h_6 h => exact (lf_inBlocks p fun hnot => hi fun hf => hnot (hf.1 (.inr (.inl h)))).byteBlocks
  case h_7 h => exact (lf_inBlocks p fun hnot => hi fun hf => hnot (hf.1 (.inr (.inr h)))).byteBlocks
  case h_8 => exact (cr_inBlocks p).byteBlocks
  case h_16 h0 h7 h8 h9 h10 h11 h12 h13 h14 h15 h24 h26 h27 h127 h155 =>
    refine processState_byteBlocks host c p fun hnot => hi fun hfits => hnot (hfits.2 ?_)
    simp only [controlCodes, List.mem_cons, List.not_mem_nil, or_false, not_or]
    exact ⟨h0, h7, h8, h9, h10, h11, h12, h13, h14, h15, h24, h26, h27, h127, h155⟩
  all_goals exact byteBlocks_stay fun _ => ⟨rfl, rfl⟩

end Xperimentum.Terminal.LinuxParser
