import Mathlib.Tactic
import Xperimentum.Terminal.CallBlocks
import Xperimentum.Terminal.ParserRuns

/-! What a byte leaves alone: `tab_stop`, unless it is one of the control functions for tab stops, and the
converter with its input, unless it goes through the converter. The cursor stays in the row. -/

namespace Xperimentum.Terminal.LinuxParser

variable {σ : Type} {host : Host σ} {c : UInt8} {p q r : Parser σ} {o : Outcome σ}

structure TabFrame (p q : Parser σ) : Prop where
  tabStop : q.tabStop = p.tabStop
  width : q.width = p.width
  placed : Placed p → Placed q

lemma TabFrame.trans (h : TabFrame p q) (h' : TabFrame q r) : TabFrame p r :=
  ⟨h'.tabStop.trans h.tabStop, h'.width.trans h.width, h'.placed ∘ h.placed⟩

lemma tabFrame_of_eq (ht : q.tabStop = p.tabStop) (hw : q.width = p.width) (hx : q.x = p.x) : TabFrame p q := by
  refine ⟨ht, hw, fun h => h.of_mem hw ?_⟩
  rw [hx]
  exact h.mem

lemma TabFrame.andThen {f : Parser σ → Outcome σ} (ho : TabFrame p o.parser)
    (hf : ∀ q, TabFrame q (f q).parser) : TabFrame p (o.andThen f).parser := by
  rw [Outcome.andThen]
  split_ifs
  · exact ho
  · exact ho.trans (hf o.parser)

structure ByteFrame (p q : Parser σ) : Prop extends TabFrame p q where
  inputBuf : q.inputBuf = p.inputBuf
  iconvState : q.iconvState = p.iconvState

lemma ByteFrame.trans (h : ByteFrame p q) (h' : ByteFrame q r) : ByteFrame p r :=
  ⟨h.toTabFrame.trans h'.toTabFrame, h'.inputBuf.trans h.inputBuf, h'.iconvState.trans h.iconvState⟩

lemma byteFrame_of_eq (ht : q.tabStop = p.tabStop) (hw : q.width = p.width) (hx : q.x = p.x)
    (hi : q.inputBuf = p.inputBuf) (hs : q.iconvState = p.iconvState) : ByteFrame p q :=
  ⟨tabFrame_of_eq ht hw hx, hi, hs⟩

lemma byteFrame_refl (p : Parser σ) : ByteFrame p p := byteFrame_of_eq rfl rfl rfl rfl rfl

lemma ByteFrame.after (h : ByteFrame q r) (ht : q.tabStop = p.tabStop) (hw : q.width = p.width) (hx : q.x = p.x)
    (hi : q.inputBuf = p.inputBuf) (hs : q.iconvState = p.iconvState) : ByteFrame p r :=
  (byteFrame_of_eq ht hw hx hi hs).trans h

lemma ByteFrame.andThen {f : Parser σ → Outcome σ} (ho : ByteFrame p o.parser)
    (hf : ∀ q, ByteFrame q (f q).parser) : ByteFrame p (o.andThen f).parser := by
  rw [Outcome.andThen]
  split_ifs
  · exact ho
  · exact ho.trans (hf o.parser)

lemma byteFrame_setX {x : ℤ} (h : Placed p → 0 ≤ x ∧ x ≤ p.width) : ByteFrame p (setX x p) :=
  ⟨⟨rfl, rfl, fun hp => hp.of_mem rfl (h hp)⟩, rfl, rfl⟩

lemma gotoxy_byteFrame (newX newY : ℤ) (p : Parser σ) : ByteFrame p (gotoxy newX newY p).parser :=
  ⟨⟨rfl, rfl, fun hp => hp.of_mem rfl (hp.clampInto_mem newX)⟩, rfl, rfl⟩

lemma gotoxay_byteFrame (nx ny : ℤ) (p : Parser σ) : ByteFrame p (gotoxay nx ny p).parser :=
  ⟨⟨rfl, rfl, fun hp => hp.of_mem rfl (hp.clampInto_mem nx)⟩, rfl, rfl⟩

lemma restoreCur_byteFrame (p : Parser σ) : ByteFrame p (restoreCur p).parser :=
  (gotoxy_byteFrame _ _ p).andThen fun _ => byteFrame_of_eq rfl rfl rfl rfl rfl

lemma cr_byteFrame (p : Parser σ) : ByteFrame p (cr p).parser :=
  byteFrame_setX fun hp => ⟨le_rfl, zero_le_one.trans hp.width_pos⟩

lemma scrup_byteFrame (t b nr : ℤ) (save : Bool) (p : Parser σ) : ByteFrame p (scrup t b nr save p).parser := by
  rw [scrup]
  split_ifs <;> exact byteFrame_refl p

lemma scrdown_byteFrame (t b nr : ℤ) (p : Parser σ) : ByteFrame p (scrdown t b nr p).parser := by
  rw [scrdown]
  split_ifs <;> exact byteFrame_refl p

lemma lf_byteFrame (p : Parser σ) : ByteFrame p (lf p).parser := by
  rw [lf]
  split_ifs
  · exact scrup_byteFrame _ _ _ _ p
  · exact byteFrame_of_eq rfl rfl rfl rfl rfl
  · exact byteFrame_refl p

lemma ri_byteFrame (p : Parser σ) : ByteFrame p (ri p).parser := by
  rw [ri]
  split_ifs
  · exact scrdown_byteFrame _ _ _ p
  · exact byteFrame_of_eq rfl rfl rfl rfl rfl
  · exact byteFrame_refl p

lemma markCells_byteFrame (ch : ScreenChar) {count : ℤ} (h : p.x + count ≤ p.width) :
    ByteFrame p (markCells ch count p).parser := by
  rw [markCells]
  split_ifs with hpos
  · exact byteFrame_setX fun hp => ⟨by have := hp.x_nonneg; omega, h⟩
  · exact byteFrame_refl p

lemma advance_byteFrame (ch : ScreenChar) (charWidth : ℤ) (p : Parser σ) :
    ByteFrame p (advance ch charWidth p).parser := by
  rw [advance]
  split_ifs with hlt
  · have hone : ByteFrame p (setX (p.x + 1) p) :=
      byteFrame_setX fun hp => ⟨by have := hp.x_nonneg; omega, by omega⟩
    have hmarked := markCells_byteFrame ch (markedCells_le charWidth (setX (p.x + 1) p))
    exact (hone.trans hmarked).andThen fun _ => byteFrame_refl _
  · exact byteFrame_refl p

lemma putch_byteFrame (host : Host σ) (ch : ScreenChar) (p : Parser σ) : ByteFrame p (putch host ch p).parser := by
  have hwrap : ByteFrame p (autowrap p).parser := by
    rw [autowrap]
    split_ifs
    · exact (cr_byteFrame p).andThen lf_byteFrame
    · exact byteFrame_refl p
  refine hwrap.andThen fun q => ?_
  have hshift : ByteFrame q (if q.decim then tell (.shiftRow q.y q.x (relativeWidthOfCharacter host ch.ch)) q
      else stay q).parser := by
    split_ifs <;> exact byteFrame_refl q
  exact (hshift.andThen fun _ => byteFrame_refl _).andThen (advance_byteFrame ch _)

lemma convert_tabFrame (ch : ScreenChar) (cd : σ) (inp : List UInt8) (p : Parser σ) :
    TabFrame p (convert host ch cd inp p).parser := by
  have hbuffer (bs : List UInt8) (q : Parser σ) : TabFrame q (setInputBuf bs q) := tabFrame_of_eq rfl rfl rfl
  induction hn : inp.length using Nat.strong_induction_on generalizing inp cd p with
  | _ n ih =>
    rw [convert]
    refine TabFrame.andThen ?_ fun q => ?_
    · have hstate : TabFrame p (setIconvState (host.iconv cd inp).descriptor p) := tabFrame_of_eq rfl rfl rfl
      cases (host.iconv cd inp).output with
      | none => exact hstate
      | some u =>
        have hput := (putch_byteFrame host { ch with ch := u % 65536 } (setUnich (ntohl u) (setIconvState
          (host.iconv cd inp).descriptor p))).toTabFrame
        have hunich : TabFrame p (setUnich (ntohl u) (setIconvState (host.iconv cd inp).descriptor p)) :=
          tabFrame_of_eq rfl rfl rfl
        exact hunich.trans hput
    · split
      · exact hbuffer _ q
      · exact hbuffer _ q
      · exact (putch_byteFrame host _ q).toTabFrame.andThen fun q => hbuffer _ q
      · next hs =>
        split_ifs
        · exact hbuffer _ q
        · have hlt := host.iconv_e2big cd inp hs
          refine ih _ ?_ _ _ q rfl
          rw [List.length_drop]
          omega

lemma utfByte_byteFrame (n : ℕ) (p : Parser σ) : ByteFrame p (utfByte host n p).parser := by
  simp only [utfByte]
  split_ifs
  · exact byteFrame_of_eq rfl rfl rfl rfl rfl
  · exact (putch_byteFrame host _ (contByte n p)).after rfl rfl rfl rfl rfl
  · simp only [leadByte]
    split_ifs <;> exact byteFrame_of_eq rfl rfl rfl rfl rfl

/-- The character goes through the converter. -/
def Converts (c : UInt8) (p : Parser σ) : Prop :=
  ¬(p.utf = true ∧ 0x7f < c.toNat) ∧ p.iconvState.isSome ∧ p.translate = 0

instance (c : UInt8) (p : Parser σ) : Decidable (Converts c p) := inferInstanceAs (Decidable (_ ∧ _))

lemma normalState_byteFrame (h : ¬Converts c p) : ByteFrame p (normalState host c p).parser := by
  simp only [normalState]
  split_ifs with hutf
  · exact (utfByte_byteFrame c.toNat (setState .normal p)).after rfl rfl rfl rfl rfl
  · split
    · next hcd h0 =>
      have hcd' : p.iconvState.isSome = true := Option.isSome_of_mem hcd
      exact absurd ⟨hutf, hcd', of_decide_eq_true h0⟩ h
    · exact (putch_byteFrame host _ (setUnich _ (setState .normal p))).after rfl rfl rfl rfl rfl

/-- The state in which the converter is called. -/
def buffering (c : UInt8) (p : Parser σ) : Parser σ := setInputBuf (bufferedInput c p) (setState .normal p)

lemma normalState_converts {cd : σ} (h : Converts c p) (hcd : p.iconvState = some cd) :
    normalState host c p = convert host (charOf 0 p) cd (bufferedInput c p) (buffering c p) := by
  obtain ⟨hutf, _, h0⟩ := h
  have hutf' : ¬((setState .normal p).utf = true ∧ 0x7f < c.toNat) := hutf
  have hcd' : (setState .normal p).iconvState = some cd := hcd
  have h0' : decide ((setState .normal p).translate = 0) = true := decide_eq_true h0
  simp only [normalState, hcd', h0']
  rw [if_neg hutf']
  rfl

lemma normalState_tabFrame (c : UInt8) (p : Parser σ) : TabFrame p (normalState host c p).parser := by
  by_cases h : Converts c p
  · obtain ⟨cd, hcd⟩ := Option.isSome_iff_exists.mp h.2.1
    have hbuffer : TabFrame p (buffering c p) := tabFrame_of_eq rfl rfl rfl
    rw [normalState_converts h hcd]
    exact hbuffer.trans (convert_tabFrame _ _ _ _)
  · exact (normalState_byteFrame h).toTabFrame

lemma updateAttr_byteFrame (p : Parser σ) : ByteFrame p (updateAttr p) := byteFrame_of_eq rfl rfl rfl rfl rfl

lemma csi_m_byteFrame (p : Parser σ) : ByteFrame p (csi_m p) := by
  have hone (p : Parser σ) (n : ℤ) : ByteFrame p (setGraphicRendition n p) := by
    simp only [setGraphicRendition]
    split
    case h_18 => split_ifs <;> exact byteFrame_of_eq rfl rfl rfl rfl rfl
    all_goals exact byteFrame_of_eq rfl rfl rfl rfl rfl
  have hall (ns : List ℤ) (p : Parser σ) : ByteFrame p (ns.foldl (fun p n => setGraphicRendition n p) p) := by
    induction ns generalizing p with
    | nil => exact byteFrame_refl p
    | cons n ns ih => exact (hone p n).trans (ih _)
  exact (hall (pars p) p).trans (updateAttr_byteFrame _)

lemma setMode_byteFrame (onOff : Bool) (p : Parser σ) : ByteFrame p (setMode onOff p).parser := by
  have hprivate (n : ℤ) (q : Parser σ) : ByteFrame q (setPrivateMode onOff n q).parser := by
    simp only [setPrivateMode]
    split
    case h_1 => split_ifs <;> exact byteFrame_of_eq rfl rfl rfl rfl rfl
    case h_2 => exact (gotoxay_byteFrame 0 0 { q with decom := onOff }).after rfl rfl rfl rfl rfl
    all_goals exact byteFrame_of_eq rfl rfl rfl rfl rfl
  have hansi (n : ℤ) (q : Parser σ) : ByteFrame q (setAnsiMode onOff n q).parser := by
    simp only [setAnsiMode]
    split <;> exact byteFrame_of_eq rfl rfl rfl rfl rfl
  have hone (n : ℤ) (q : Parser σ) :
      ByteFrame q ((if p.ques then setPrivateMode onOff n else setAnsiMode onOff n) q).parser := by
    split_ifs
    · exact hprivate n q
    · exact hansi n q
  have hall (ns : List ℤ) (o : Outcome σ) (ho : ByteFrame p o.parser) : ByteFrame p (ns.foldl
      (fun o n => o.andThen (if p.ques then setPrivateMode onOff n else setAnsiMode onOff n)) o).parser := by
    induction ns generalizing o with
    | nil => exact ho
    | cons n ns ih => exact ih _ (ho.andThen (hone n))
  exact hall (pars p) (stay p) (byteFrame_refl p)

lemma setPar_byteFrame (i : ℕ) (n : ℤ) (p : Parser σ) : ByteFrame p (setPar i n p) := byteFrame_of_eq rfl rfl rfl rfl rfl

lemma decrementPar_byteFrame (i : ℕ) (p : Parser σ) : ByteFrame p (decrementPar i p) := by
  rw [decrementPar]
  split_ifs
  · exact setPar_byteFrame i _ p
  · exact byteFrame_refl p

lemma defaultPar_byteFrame (i : ℕ) (n : ℤ) (p : Parser σ) : ByteFrame p (defaultPar i n p) := by
  rw [defaultPar]
  split_ifs
  · exact setPar_byteFrame i _ p
  · exact byteFrame_refl p

lemma setScrollRegion_byteFrame (p : Parser σ) : ByteFrame p (setScrollRegion p).parser := by
  have hdefault := (defaultPar_byteFrame 0 1 p).trans (defaultPar_byteFrame 1 p.height _)
  simp only [setScrollRegion]
  split_ifs
  · exact hdefault.trans ((gotoxay_byteFrame 0 0 _).after rfl rfl rfl rfl rfl)
  · exact hdefault

lemma csiFinal_byteFrame (h : byteChar c ≠ 'g') (p : Parser σ) : ByteFrame p (csiFinal host c p).parser := by
  have hdec := decrementPar_byteFrame 0 p
  have hdecs := hdec.trans (decrementPar_byteFrame 1 _)
  have hdef := defaultPar_byteFrame 0 1 p
  simp only [csiFinal]
  split
  case h_1 | h_2 => exact hdec.trans (gotoxy_byteFrame _ _ _)
  case h_3 | h_4 | h_5 | h_6 | h_7 | h_8 | h_9 | h_10 => exact hdef.trans (gotoxy_byteFrame _ _ _)
  case h_11 => exact hdec.trans (gotoxay_byteFrame _ _ _)
  case h_12 | h_13 => exact hdecs.trans (gotoxay_byteFrame _ _ _)
  case h_14 =>
    simp only [csi_J]
    split <;> exact byteFrame_refl p
  case h_15 =>
    simp only [csi_K]
    split <;> exact byteFrame_refl p
  case h_16 => exact scrdown_byteFrame _ _ _ p
  case h_17 => exact scrup_byteFrame _ _ _ _ p
  case h_19 => split_ifs <;> exact byteFrame_refl p
  case h_20 hc => exact absurd hc h
  case h_21 => exact csi_m_byteFrame p
  case h_22 => exact setScrollRegion_byteFrame p
  case h_24 => exact restoreCur_byteFrame p
  case h_27 =>
    simp only [settermCommand]
    split <;> exact byteFrame_of_eq rfl rfl rfl rfl rfl
  all_goals exact byteFrame_of_eq rfl rfl rfl rfl rfl

lemma gotparsState_byteFrame (h : p.ques = false → byteChar c ≠ 'g') : ByteFrame p (gotparsState host c p).parser := by
  have hstate : ByteFrame p (setState .normal p) := byteFrame_of_eq rfl rfl rfl rfl rfl
  simp only [gotparsState]
  split
  · exact hstate.trans (setMode_byteFrame true _)
  · exact hstate.trans (setMode_byteFrame false _)
  · simp only [deviceReport]
    split_ifs <;> exact byteFrame_of_eq rfl rfl rfl rfl rfl
  · split_ifs with hques
    · exact byteFrame_of_eq rfl rfl rfl rfl rfl
    · exact hstate.trans (csiFinal_byteFrame (h (eq_false_of_ne_true hques)) _)

lemma getparsState_byteFrame (h : p.ques = false → byteChar c ≠ 'g') : ByteFrame p (getparsState host c p).parser := by
  simp only [getparsState]
  split_ifs
  · exact byteFrame_of_eq rfl rfl rfl rfl rfl
  · exact setPar_byteFrame _ _ p
  · exact (gotparsState_byteFrame (p := setState .gotpars p) h).after rfl rfl rfl rfl rfl

lemma squareState_byteFrame (h : byteChar c ≠ 'g') (p : Parser σ) : ByteFrame p (squareState host c p).parser := by
  simp only [squareState]
  split_ifs
  · exact byteFrame_of_eq rfl rfl rfl rfl rfl
  · exact byteFrame_of_eq rfl rfl rfl rfl rfl
  · exact (getparsState_byteFrame (fun _ => h)).after rfl rfl rfl rfl rfl

lemma escState_byteFrame (hH : byteChar c ≠ 'H') (hc : byteChar c ≠ 'c') (p : Parser σ) :
    ByteFrame p (escState host c p).parser := by
  have hstate : ByteFrame p (setState .normal p) := byteFrame_of_eq rfl rfl rfl rfl rfl
  simp only [escState]
  split
  case h_4 => exact hstate.trans ((cr_byteFrame _).andThen lf_byteFrame)
  case h_5 => exact hstate.trans (ri_byteFrame _)
  case h_6 => exact hstate.trans (lf_byteFrame _)
  case h_7 h => exact absurd h hH
  case h_10 => exact hstate.trans (restoreCur_byteFrame _)
  case h_14 h => exact absurd h hc
  all_goals exact byteFrame_of_eq rfl rfl rfl rfl rfl

lemma plainState_byteFrame (h : p.vcState ∉ [.esc, .square, .getpars, .gotpars, .normal, .ignore]) :
    ByteFrame p (processState host c p).parser := by
  rw [processState]
  cases hs : p.vcState with
  | esc | square | getpars | gotpars | normal | ignore =>
    rw [hs] at h
    exact absurd (by decide) h
  | nonstd =>
    simp only [nonstdState]
    split <;> exact byteFrame_of_eq rfl rfl rfl rfl rfl
  | titleSemi =>
    simp only [titleSemiState]
    split_ifs <;> exact byteFrame_of_eq rfl rfl rfl rfl rfl
  | titleBuf =>
    simp only [titleBufState]
    split_ifs <;> exact byteFrame_of_eq rfl rfl rfl rfl rfl
  | percent =>
    simp only [percentState]
    split <;> exact byteFrame_of_eq rfl rfl rfl rfl rfl
  | setG0 =>
    simp only [setG0State]
    split_ifs <;> exact byteFrame_of_eq rfl rfl rfl rfl rfl
  | setG1 =>
    simp only [setG1State]
    split_ifs <;> exact byteFrame_of_eq rfl rfl rfl rfl rfl
  | palette | funckey | hash => exact byteFrame_of_eq rfl rfl rfl rfl rfl

lemma processByte_state (h : c.toNat ∉ controlCodes) : processByte host c p = processState host c p := by
  simp only [processByte]
  split
  case h_16 => rfl
  all_goals
    next hc =>
    rw [hc] at h
    exact absurd (by decide) h

lemma control_byteFrame (hc : c.toNat ∈ controlCodes) (h9 : c.toNat ≠ 9) :
    ByteFrame p (processByte host c p).parser := by
  simp only [processByte]
  split
  case h_2 =>
    simp only [bell]
    split_ifs <;> exact byteFrame_of_eq rfl rfl rfl rfl rfl
  case h_3 =>
    split_ifs with hpos
    · refine byteFrame_setX fun hp => ⟨by omega, ?_⟩
      have hx := hp.x_le
      omega
    · exact byteFrame_refl p
  case h_4 h => exact absurd h h9
  case h_5 | h_6 | h_7 => exact lf_byteFrame p
  case h_8 => exact cr_byteFrame p
  case h_16 h0 h7 h8 h9 h10 h11 h12 h13 h14 h15 h24 h26 h27 h127 h155 =>
    simp only [controlCodes, List.mem_cons, List.not_mem_nil, or_false] at hc
    tauto
  all_goals exact byteFrame_of_eq rfl rfl rfl rfl rfl

end Xperimentum.Terminal.LinuxParser
