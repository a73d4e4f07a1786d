import Mathlib.Tactic
import Xperimentum.Terminal.ProcessByte

/-! What one byte can do to the geometry of the parser: every piece of `processByte:` keeps the cursor and
the scrolling region inside the screen and asks the screen only for cells it has. -/

namespace Xperimentum.Terminal.LinuxParser

open Xperimentum.Lib.Int32 Xperimentum.Terminal.Charmaps

variable {σ : Type} {p q r : Parser σ} {o : Outcome σ}

structure Inv (p : Parser σ) : Prop where
  x_nonneg : 0 ≤ p.x
  x_le : p.x ≤ p.width
  y_nonneg : 0 ≤ p.y
  y_lt : p.y < p.height
  top_nonneg : 0 ≤ p.top
  top_lt : p.top < p.bottom
  bottom_le : p.bottom ≤ p.height
  npar_lt : p.npar < nparMax
  title_le : p.titleBuf.length ≤ titleBufSize
  input_le : p.inputBuf.length ≤ inputBufSize

structure Sane (p : Parser σ) : Prop extends Inv p where
  width_pos : 1 ≤ p.width
  height_lt : p.height < 2 ^ 31
  par_length : p.par.length = nparMax

/-- The arguments of a call stay on a screen of the given size. A row shift keeps to its left margin only. -/
def Fits (width height : ℤ) : ScreenCall → Prop
  | .putCharAt _ _ x _ => 0 ≤ x ∧ x ≤ width
  | .putCharOffset _ _ ofs => 0 ≤ ofs
  | .scrollUp t b nr _ => 0 ≤ t ∧ 1 ≤ nr ∧ t + nr < b ∧ b ≤ height
  | .scrollDown t b nr => 0 ≤ t ∧ 1 ≤ nr ∧ t + nr < b ∧ b ≤ height
  | .shiftRow _ _ delta => -width ≤ delta
  | _ => True

structure Keeps (p : Parser σ) (o : Outcome σ) : Prop where
  sane : Sane o.parser
  width : o.parser.width = p.width
  height : o.parser.height = p.height
  fits : ∀ c ∈ o.calls, Fits p.width p.height c

/-- Everything the invariant reads is the same in both states. -/
structure Frame (p q : Parser σ) : Prop where
  width : q.width = p.width
  height : q.height = p.height
  x : q.x = p.x
  y : q.y = p.y
  top : q.top = p.top
  bottom : q.bottom = p.bottom
  npar : q.npar = p.npar
  titleBuf : q.titleBuf = p.titleBuf
  inputBuf : q.inputBuf = p.inputBuf
  par : q.par.length = p.par.length

lemma Frame.refl (p : Parser σ) : Frame p p := by constructor <;> rfl

lemma Frame.trans (h : Frame p q) (h' : Frame q r) : Frame p r :=
  ⟨h'.width.trans h.width, h'.height.trans h.height, h'.x.trans h.x, h'.y.trans h.y, h'.top.trans h.top,
    h'.bottom.trans h.bottom, h'.npar.trans h.npar, h'.titleBuf.trans h.titleBuf, h'.inputBuf.trans h.inputBuf,
    h'.par.trans h.par⟩

lemma Sane.frame (hp : Sane p) (h : Frame p q) : Sane q := by
  obtain ⟨hw, hh, hx, hy, ht, hb, hn, htl, hin, hpar⟩ := h
  refine ⟨⟨?_, ?_, ?_, ?_, ?_, ?_, ?_, ?_, ?_, ?_⟩, ?_, ?_, ?_⟩
  all_goals simp only [hw, hh, hx, hy, ht, hb, hn, htl, hin, hpar]
  exacts [hp.x_nonneg, hp.x_le, hp.y_nonneg, hp.y_lt, hp.top_nonneg, hp.top_lt, hp.bottom_le, hp.npar_lt,
    hp.title_le, hp.input_le, hp.width_pos, hp.height_lt, hp.par_length]

lemma Sane.setX (hp : Sane p) {x : ℤ} (h0 : 0 ≤ x) (hx : x ≤ p.width) : Sane (setX x p) :=
  { hp with x_nonneg := h0, x_le := hx }

lemma Sane.setY (hp : Sane p) {y : ℤ} (h0 : 0 ≤ y) (hy : y < p.height) : Sane (setY y p) :=
  { hp with y_nonneg := h0, y_lt := hy }

lemma Sane.setInputBuf (hp : Sane p) {inp : List UInt8} (h : inp.length ≤ inputBufSize) :
    Sane (setInputBuf inp p) :=
  { hp with input_le := h }

lemma setUnich_frame (n : ℕ) (p : Parser σ) : Frame p (setUnich n p) := by
  constructor <;> rfl

lemma setState_frame (s : ESstate) (p : Parser σ) : Frame p (setState s p) := by
  constructor <;> rfl

lemma keeps_stay (h : Sane q) (hw : q.width = p.width) (hh : q.height = p.height) : Keeps p (stay q) :=
  ⟨h, hw, hh, by simp [stay]⟩

lemma keeps_frame (hp : Sane p) (h : Frame p q) : Keeps p (stay q) := keeps_stay (hp.frame h) h.width h.height

lemma keeps_tell {c : ScreenCall} (hp : Sane p) (hc : Fits p.width p.height c) : Keeps p (tell c p) :=
  ⟨hp, rfl, rfl, by simpa [tell] using hc⟩

lemma keeps_returned (hp : Sane p) : Keeps p { parser := p, returned := true } := ⟨hp, rfl, rfl, by simp⟩

lemma Keeps.of_eq (h : Keeps q o) (hw : q.width = p.width) (hh : q.height = p.height) : Keeps p o :=
  ⟨h.sane, h.width.trans hw, h.height.trans hh, by simpa only [hw, hh] using h.fits⟩

lemma Keeps.after (h : Keeps q o) (hf : Frame p q) : Keeps p o := h.of_eq hf.width hf.height

lemma keeps_goto (hq : Sane q) (hw : q.width = p.width) (hh : q.height = p.height) : Keeps p (tsGoto q) := by
  have hf : Fits q.width q.height (.goto q.x q.y) := trivial
  exact (keeps_tell hq hf).of_eq hw hh

lemma Keeps.andThen {f : Parser σ → Outcome σ} (ho : Keeps p o)
    (hf : ∀ q, Sane q → q.width = p.width → q.height = p.height → Keeps q (f q)) :
    Keeps p (o.andThen f) := by
  have hr := hf o.parser ho.sane ho.width ho.height
  unfold Outcome.andThen
  split
  · exact ho
  · refine ⟨hr.sane, hr.width.trans ho.width, hr.height.trans ho.height, ?_⟩
    intro c hc
    rcases List.mem_append.mp hc with h | h
    · exact ho.fits c h
    · simpa only [ho.width, ho.height] using hr.fits c h

lemma clampInto_mem (n : ℤ) {lower upper : ℤ} (h : lower < upper) :
    lower ≤ clampInto n lower upper ∧ clampInto n lower upper < upper := by
  unfold clampInto
  split_ifs <;> omega

lemma Sane.height_pos (hp : Sane p) : 0 < p.height := lt_of_le_of_lt hp.y_nonneg hp.y_lt

lemma gotoxy_keeps (hp : Sane p) (newX newY : ℤ) : Keeps p (gotoxy newX newY p) := by
  have hx := clampInto_mem newX (Int.lt_of_lt_of_le Int.zero_lt_one hp.width_pos)
  have hrow := clampInto_mem newY hp.top_lt
  have hcol := clampInto_mem newY hp.height_pos
  have ht := hp.top_nonneg
  have hb := hp.bottom_le
  refine keeps_goto { hp with x_nonneg := hx.1, x_le := hx.2.le, y_nonneg := ?_, y_lt := ?_ } rfl rfl
  · show 0 ≤ if p.decom then _ else _
    split <;> omega
  · show (if p.decom then _ else _) < p.height
    split <;> omega

lemma gotoxay_keeps (hp : Sane p) (nx ny : ℤ) : Keeps p (gotoxay nx ny p) := by
  have hx := clampInto_mem nx (Int.lt_of_lt_of_le Int.zero_lt_one hp.width_pos)
  have hcol := clampInto_mem ny hp.height_pos
  have ht := hp.top_nonneg
  have hlt := hp.top_lt
  have hb := hp.bottom_le
  have hh := hp.height_pos
  refine keeps_goto { hp with x_nonneg := hx.1, x_le := hx.2.le, y_nonneg := ?_, y_lt := ?_ } rfl rfl
  · show 0 ≤ if p.decom then _ else _
    split_ifs <;> omega
  · show (if p.decom then _ else _) < p.height
    split_ifs <;> omega

lemma saveCur_frame (p : Parser σ) : Frame p (saveCur p) := by constructor <;> rfl

lemma updateAttr_frame (p : Parser σ) : Frame p (updateAttr p) := by constructor <;> rfl

lemma setGraphicRendition_frame (n : ℤ) (p : Parser σ) : Frame p (setGraphicRendition n p) := by
  unfold setGraphicRendition
  split
  all_goals first
    | constructor <;> rfl
    | split_ifs <;> constructor <;> rfl

lemma csi_m_frame (p : Parser σ) : Frame p (csi_m p) := by
  have hfold : ∀ (ns : List ℤ) (q : Parser σ), Frame q (ns.foldl (fun q n => setGraphicRendition n q) q) := by
    intro ns
    induction ns with
    | nil => exact Frame.refl
    | cons n ns ih => exact fun q => (setGraphicRendition_frame n q).trans (ih _)
  exact (hfold (pars p) p).trans (updateAttr_frame _)

lemma settermCommand_frame (p : Parser σ) : Frame p (settermCommand p) := by
  unfold settermCommand
  split
  · constructor <;> rfl
  · exact Frame.refl p

lemma restoreCur_keeps (hp : Sane p) : Keeps p (restoreCur p) :=
  (gotoxy_keeps hp _ _).andThen fun _ hq _ _ => keeps_frame hq (by constructor <;> rfl)

lemma screen_nonneg (hp : Sane p) {x y : ℤ} (hx : 0 ≤ x) (hy : 0 ≤ y) : 0 ≤ screen p x y := by
  have hw : 0 ≤ p.width := by linarith [hp.width_pos]
  exact add_nonneg hx (mul_nonneg hy hw)

lemma csi_J_keeps (hp : Sane p) (vpar : ℤ) : Keeps p (csi_J vpar p) := by
  unfold csi_J
  split
  · exact keeps_tell hp (screen_nonneg hp hp.x_nonneg hp.y_nonneg)
  · exact keeps_tell hp (screen_nonneg hp le_rfl le_rfl)
  · exact keeps_tell hp (screen_nonneg hp le_rfl le_rfl)
  · exact keeps_frame hp (Frame.refl p)

lemma csi_K_keeps (hp : Sane p) (vpar : ℤ) : Keeps p (csi_K vpar p) := by
  unfold csi_K
  split
  · exact keeps_tell hp (screen_nonneg hp hp.x_nonneg hp.y_nonneg)
  · exact keeps_tell hp (screen_nonneg hp le_rfl hp.y_nonneg)
  · exact keeps_tell hp (screen_nonneg hp le_rfl hp.y_nonneg)
  · exact keeps_frame hp (Frame.refl p)

lemma csi_X_keeps (hp : Sane p) (vpar : ℤ) : Keeps p (csi_X vpar p) :=
  keeps_tell hp (screen_nonneg hp hp.x_nonneg hp.y_nonneg)

lemma scrollCount_lt {t b : ℤ} (nr : ℤ) (htb : t < b) : t + scrollCount t b nr < b := by
  unfold scrollCount
  split_ifs <;> omega

lemma scrup_keeps (hp : Sane p) {t b nr : ℤ} {save : Bool} (ht : 0 ≤ t) : Keeps p (scrup t b nr save p) := by
  unfold scrup
  split_ifs with hb
  · exact keeps_returned hp
  · push Not at hb
    obtain ⟨hh, htb, hn⟩ := hb
    have hlt := scrollCount_lt nr htb
    have hfit : Fits p.width p.height (.scrollUp t b (scrollCount t b nr) save) := ⟨ht, hn, hlt, hh⟩
    refine (keeps_tell hp hfit).andThen fun q hq hqw hqh => ?_
    have hqp := hq.width_pos
    exact keeps_tell hq (mul_nonneg (by omega) (by omega))

lemma scrdown_keeps (hp : Sane p) {t b nr : ℤ} (ht : 0 ≤ t) : Keeps p (scrdown t b nr p) := by
  unfold scrdown
  split_ifs with hb
  · exact keeps_returned hp
  · push Not at hb
    obtain ⟨hh, htb, hn⟩ := hb
    have hlt := scrollCount_lt nr htb
    have hfit : Fits p.width p.height (.scrollDown t b (scrollCount t b nr)) := ⟨ht, hn, hlt, hh⟩
    refine (keeps_tell hp hfit).andThen fun q hq hqw hqh => ?_
    have hqp := hq.width_pos
    exact keeps_tell hq (mul_nonneg ht (by omega))

lemma csiCount_mem (vpar : ℤ) {room limit : ℤ} (h0 : 0 ≤ room) (hr : room ≤ limit) (h1 : 1 ≤ limit) :
    0 ≤ csiCount vpar room ∧ csiCount vpar room ≤ limit := by
  have hroom : toU32 room ≤ room := by
    unfold toU32
    omega
  have hz := toU32_nonneg room
  have hv := toU32_nonneg vpar
  unfold csiCount
  split_ifs <;> omega

lemma csi_at_keeps (hp : Sane p) (vpar : ℤ) : Keeps p (csi_at vpar p) := by
  have hx := hp.x_nonneg
  have hw := hp.width_pos
  have hn := csiCount_mem vpar (sub_nonneg.mpr hp.x_le) (by omega : p.width - p.x ≤ p.width) hw
  unfold csi_at insertChar
  refine (keeps_tell hp ?_).andThen fun q hq hqw hqh => keeps_tell hq ?_
  · show -p.width ≤ _
    omega
  · exact ⟨hq.x_nonneg, hq.x_le⟩

lemma csi_P_keeps (hp : Sane p) (vpar : ℤ) : Keeps p (csi_P vpar p) := by
  have hx := hp.x_nonneg
  have hn := csiCount_mem vpar (sub_nonneg.mpr hp.x_le) (by omega : p.width - p.x ≤ p.width) hp.width_pos
  unfold csi_P deleteChar
  refine (keeps_tell hp ?_).andThen fun q hq hqw hqh => keeps_tell hq ?_
  · exact neg_le_neg hn.2
  · show 0 ≤ q.width - _ ∧ q.width - _ ≤ q.width
    omega

lemma csi_L_keeps (hp : Sane p) (vpar : ℤ) : Keeps p (csi_L vpar p) := scrdown_keeps hp hp.y_nonneg

lemma csi_M_keeps (hp : Sane p) (vpar : ℤ) : Keeps p (csi_M vpar p) := scrup_keeps hp hp.y_nonneg

lemma setPrivateMode_keeps (hp : Sane p) (onOff : Bool) (n : ℤ) : Keeps p (setPrivateMode onOff n p) := by
  unfold setPrivateMode
  split
  · split_ifs <;> exact keeps_frame hp (by constructor <;> rfl)
  · have hd : Frame p { p with decom := onOff } := by constructor <;> rfl
    exact (gotoxay_keeps (hp.frame hd) 0 0).after hd
  all_goals exact keeps_frame hp (by constructor <;> rfl)

lemma setAnsiMode_keeps (hp : Sane p) (onOff : Bool) (n : ℤ) : Keeps p (setAnsiMode onOff n p) := by
  unfold setAnsiMode
  split
  all_goals exact keeps_frame hp (by constructor <;> rfl)

lemma setMode_keeps (hp : Sane p) (onOff : Bool) : Keeps p (setMode onOff p) := by
  have hfold : ∀ (ns : List ℤ) (o : Outcome σ), Keeps p o → Keeps p (ns.foldl
      (fun o n => o.andThen (if p.ques then setPrivateMode onOff n else setAnsiMode onOff n)) o) := by
    intro ns
    induction ns with
    | nil => exact fun o ho => ho
    | cons n ns ih =>
      intro o ho
      apply ih
      refine ho.andThen fun q hq _ _ => ?_
      split_ifs
      · exact setPrivateMode_keeps hq onOff n
      · exact setAnsiMode_keeps hq onOff n
  exact hfold (pars p) (stay p) (keeps_frame hp (Frame.refl p))

end Xperimentum.Terminal.LinuxParser
