import Mathlib.Tactic
import Xperimentum.Lib.Runs
import Xperimentum.Terminal.ParserInvariant

/-! The invariant of the parser across `processByte:`, and along every run of bytes and resizes. -/

namespace Xperimentum.Terminal.LinuxParser

open Xperimentum.Lib.Int32 Xperimentum.Lib.Runs Xperimentum.Terminal.Charmaps

variable {σ : Type} {p : Parser σ} {host : Host σ} {c : UInt8}

lemma cr_keeps (hp : Sane p) : Keeps p (cr p) :=
  keeps_goto (hp.setX le_rfl (hp.x_nonneg.trans hp.x_le)) rfl rfl

lemma lf_keeps (hp : Sane p) : Keeps p (lf p) := by
  have hy := hp.y_nonneg
  simp only [lf]
  split_ifs with hb hh
  · exact scrup_keeps hp hp.top_nonneg
  · exact keeps_goto (hp.setY (by omega) (by omega)) rfl rfl
  · exact keeps_frame hp (Frame.refl p)

lemma ri_keeps (hp : Sane p) : Keeps p (ri p) := by
  have hy := hp.y_lt
  simp only [ri]
  split_ifs with ht hpos
  · exact scrdown_keeps hp hp.top_nonneg
  · exact keeps_goto (hp.setY (by omega) (by omega)) rfl rfl
  · exact keeps_frame hp (Frame.refl p)

lemma nextTab_mem (host : Host σ) (p : Parser σ) (n : ℕ) (x : ℤ) :
    x ≤ nextTab host p n x ∧ (x ≤ p.width → nextTab host p n x ≤ p.width) := by
  induction n generalizing x with
  | zero => exact ⟨le_rfl, fun h => h⟩
  | succ n ih =>
    obtain ⟨hl, hu⟩ := ih (x + 1)
    simp only [nextTab]
    split_ifs
    · omega
    · omega
    · omega

lemma tab_keeps (hp : Sane p) : Keeps p (tab host p) := by
  obtain ⟨hl, hu⟩ := nextTab_mem host p (p.width - 1 - p.x).toNat p.x
  exact keeps_goto (hp.setX (hp.x_nonneg.trans hl) (hu hp.x_le)) rfl rfl

lemma bell_keeps (hp : Sane p) : Keeps p (bell p) := by
  simp only [bell]
  split_ifs
  · have hf := setState_frame .normal p
    exact (keeps_tell (hp.frame hf) (by trivial)).after hf
  · exact keeps_frame hp (Frame.refl p)

lemma resetTerminal_keeps (hp : Sane p) : Keeps p (resetTerminal p) := by
  have hh := hp.height_pos
  simp only [resetTerminal]
  refine (Keeps.andThen ?_ ?_).andThen fun q hq _ _ => csi_J_keeps hq 2
  · refine (gotoxy_keeps ?_ 0 0).of_eq rfl rfl
    exact { hp with top_nonneg := le_rfl, top_lt := hh, bottom_le := le_rfl, title_le := Nat.zero_le _ }
  · exact fun q hq _ _ => keeps_frame hq (saveCur_frame q)

lemma storeTabWord_frame (hx : hasTabWord p.x) (word : ℕ) : Frame p (storeTabWord host p p.x word) := by
  simp only [storeTabWord, if_pos hx]
  constructor <;> rfl

lemma setTabStop_frame (hx : hasTabWord p.x) : Frame p (setTabStop host p) := storeTabWord_frame hx _

lemma clearTabs_frame (hx : parAt p 0 = 0 → hasTabWord p.x) : Frame p (clearTabs host p) := by
  simp only [clearTabs]
  split_ifs with h0
  · exact storeTabWord_frame (hx h0) _
  · constructor <;> rfl
  · exact Frame.refl p

lemma escState_keeps (hp : Sane p) (ht : byteChar c = 'H' → hasTabWord p.x) :
    Keeps p (escState host c p) := by
  have hf := setState_frame .normal p
  have hq := hp.frame hf
  simp only [escState]
  split
  case h_4 => exact ((cr_keeps hq).andThen fun r hr _ _ => lf_keeps hr).after hf
  case h_5 => exact (ri_keeps hq).after hf
  case h_6 => exact (lf_keeps hq).after hf
  case h_7 hc => exact (keeps_frame hq (setTabStop_frame (ht hc))).after hf
  case h_8 => exact (keeps_tell hq (by trivial)).after hf
  case h_9 => exact (keeps_frame hq (saveCur_frame _)).after hf
  case h_10 => exact (restoreCur_keeps hq).after hf
  case h_14 => exact (resetTerminal_keeps hq).after hf
  all_goals exact keeps_frame hp (by constructor <;> rfl)

lemma nonstdState_keeps (hp : Sane p) : Keeps p (nonstdState c p) := by
  simp only [nonstdState]
  split
  all_goals exact keeps_frame hp (by constructor <;> rfl)

lemma titleSemiState_keeps (hp : Sane p) : Keeps p (titleSemiState c p) := by
  simp only [titleSemiState]
  split_ifs
  · exact keeps_stay { hp with title_le := Nat.zero_le _ } rfl rfl
  · exact keeps_frame hp (by constructor <;> rfl)

lemma titleBufState_keeps (hp : Sane p) : Keeps p (titleBufState c p) := by
  simp only [titleBufState]
  split_ifs with hl
  · exact keeps_frame hp (by constructor <;> rfl)
  · have hlt := Nat.succ_le_of_lt (lt_of_le_of_ne hp.title_le hl)
    refine keeps_stay { hp with title_le := ?_ } rfl rfl
    simpa only [List.length_append, List.length_singleton] using hlt

lemma setPar_frame (i : ℕ) (n : ℤ) (p : Parser σ) : Frame p (setPar i n p) :=
  ⟨rfl, rfl, rfl, rfl, rfl, rfl, rfl, rfl, rfl, List.length_set⟩

lemma decrementPar_frame (i : ℕ) (p : Parser σ) : Frame p (decrementPar i p) := by
  simp only [decrementPar]
  split_ifs
  · exact setPar_frame i _ p
  · exact Frame.refl p

lemma defaultPar_frame (i : ℕ) (n : ℤ) (p : Parser σ) : Frame p (defaultPar i n p) := by
  simp only [defaultPar]
  split_ifs
  · exact setPar_frame i _ p
  · exact Frame.refl p

lemma parAt_setPar (hp : Sane p) {i : ℕ} (hi : i < nparMax) (j : ℕ) (n : ℤ) :
    parAt (setPar i n p) j = if j = i then n else parAt p j := by
  have hl : i < p.par.length := by rwa [hp.par_length]
  simp only [parAt, setPar, List.getD_eq_getElem?_getD, List.getElem?_set]
  by_cases h : j = i
  · subst h
    simp [hl]
  · simp [h, Ne.symm h]

lemma parAt_defaultPar (hp : Sane p) {i : ℕ} (hi : i < nparMax) (j : ℕ) (n : ℤ) :
    parAt (defaultPar i n p) j = if j = i ∧ parAt p i = 0 then n else parAt p j := by
  simp only [defaultPar]
  split_ifs with h0 hj hj
  · rw [parAt_setPar hp hi, if_pos hj.1]
  · rw [parAt_setPar hp hi, if_neg fun h => hj ⟨h, h0⟩]
  · exact absurd hj.2 h0
  · rfl

def regionLower (p : Parser σ) : ℤ := if parAt p 0 = 0 then 1 else parAt p 0

def regionUpper (p : Parser σ) : ℤ := if parAt p 1 = 0 then p.height else parAt p 1

lemma setScrollRegion_eq (hp : Sane p) :
    setScrollRegion p =
      let q := defaultPar 1 p.height (defaultPar 0 1 p)
      if regionLower p < regionUpper p ∧ regionUpper p ≤ p.height then
        gotoxay 0 0 { q with top := wrap32 (regionLower p - 1), bottom := regionUpper p }
      else stay q := by
  have hf := defaultPar_frame 0 1 p
  have hg := defaultPar_frame 1 p.height (defaultPar 0 1 p)
  have h0 : parAt (defaultPar 1 p.height (defaultPar 0 1 p)) 0 = regionLower p := by
    rw [parAt_defaultPar (hp.frame hf) (by decide), if_neg (by simp), parAt_defaultPar hp (by decide)]
    simp [regionLower]
  have h1 : parAt (defaultPar 1 p.height (defaultPar 0 1 p)) 1 = regionUpper p := by
    have hb : parAt (defaultPar 0 1 p) 1 = parAt p 1 := by
      rw [parAt_defaultPar hp (by decide), if_neg (by simp)]
    rw [parAt_defaultPar (hp.frame hf) (by decide), hb]
    simp [regionUpper]
  simp only [setScrollRegion, h0, h1, hg.height, hf.height]

/-- A region that `CSI r` accepts and whose first line is negative. -/
def NegativeRegion (p : Parser σ) : Prop :=
  parAt p 0 < 0 ∧ parAt p 0 < regionUpper p ∧ regionUpper p ≤ p.height

instance (p : Parser σ) : Decidable (NegativeRegion p) := inferInstanceAs (Decidable (_ ∧ _))

lemma setScrollRegion_keeps (hp : Sane p) (hn : ¬NegativeRegion p) : Keeps p (setScrollRegion p) := by
  have hf := (defaultPar_frame 0 1 p).trans (defaultPar_frame 1 p.height _)
  have hq := hp.frame hf
  rw [setScrollRegion_eq hp]
  simp only
  split_ifs with ha
  · obtain ⟨hlu, huh⟩ := ha
    have hl : 1 ≤ regionLower p := by
      by_contra hlt
      refine hn ⟨?_, ?_, huh⟩
      · simp only [regionLower] at hlt
        split_ifs at hlt <;> omega
      · simp only [regionLower] at hlt hlu
        split_ifs at hlt hlu <;> omega
    have hh := hp.height_lt
    have hw : wrap32 (regionLower p - 1) = regionLower p - 1 := wrap32_of_mem (by omega) (by omega)
    refine (gotoxay_keeps ?_ 0 0).of_eq hf.width hf.height
    refine { hq with top_nonneg := ?_, top_lt := ?_, bottom_le := ?_ }
    · simp only [hw]
      omega
    · simp only [hw]
      omega
    · simpa only [hf.height] using huh
  · exact keeps_frame hp hf

lemma csiFinal_keeps (hp : Sane p) (hr : byteChar c = 'r' → ¬NegativeRegion p)
    (ht : byteChar c = 'g' → parAt p 0 = 0 → hasTabWord p.x) : Keeps p (csiFinal host c p) := by
  have hd := defaultPar_frame 0 1 p
  have hm := decrementPar_frame 0 p
  have hmm := hm.trans (decrementPar_frame 1 _)
  simp only [csiFinal]
  split
  case h_1 | h_2 => exact (gotoxy_keeps (hp.frame hm) _ _).after hm
  case h_3 | h_4 | h_5 | h_6 | h_7 | h_8 | h_9 | h_10 => exact (gotoxy_keeps (hp.frame hd) _ _).after hd
  case h_11 => exact (gotoxay_keeps (hp.frame hm) _ _).after hm
  case h_12 | h_13 => exact (gotoxay_keeps (hp.frame hmm) _ _).after hmm
  case h_14 => exact csi_J_keeps hp _
  case h_15 => exact csi_K_keeps hp _
  case h_16 => exact csi_L_keeps hp _
  case h_17 => exact csi_M_keeps hp _
  case h_18 => exact csi_P_keeps hp _
  case h_19 =>
    split_ifs
    · exact keeps_tell hp (by trivial)
    · exact keeps_frame hp (Frame.refl p)
  case h_20 hc => exact keeps_frame hp (clearTabs_frame (ht hc))
  case h_21 => exact keeps_frame hp (csi_m_frame p)
  case h_22 hc => exact setScrollRegion_keeps hp (hr hc)
  case h_23 => exact keeps_frame hp (saveCur_frame p)
  case h_24 => exact restoreCur_keeps hp
  case h_25 => exact csi_X_keeps hp _
  case h_26 => exact csi_at_keeps hp _
  case h_27 => exact keeps_frame hp (settermCommand_frame p)
  case h_28 => exact keeps_frame hp (Frame.refl p)

lemma deviceReport_keeps (hp : Sane p) : Keeps p (deviceReport p) := by
  simp only [deviceReport]
  split_ifs
  · exact keeps_frame hp (Frame.refl p)
  · exact keeps_tell hp (by trivial)
  · exact keeps_tell hp (by trivial)
  · exact keeps_frame hp (Frame.refl p)

/-- The byte makes the parser accept a scrolling region whose first line is negative. -/
def SetsNegativeRegion (c : UInt8) (p : Parser σ) : Prop :=
  (p.vcState = .getpars ∨ p.vcState = .gotpars) ∧ p.ques = false ∧ byteChar c = 'r' ∧ NegativeRegion p

/-- The byte sets or clears a tab stop in a column that has no word in `tab_stop`. -/
def StoresStrayTab (c : UInt8) (p : Parser σ) : Prop :=
  ¬hasTabWord p.x ∧ ((p.vcState = .esc ∧ byteChar c = 'H') ∨ (p.vcState = .square ∧ byteChar c = 'g') ∨
    ((p.vcState = .getpars ∨ p.vcState = .gotpars) ∧ p.ques = false ∧ byteChar c = 'g' ∧ parAt p 0 = 0))

instance (c : UInt8) (p : Parser σ) : Decidable (SetsNegativeRegion c p) := inferInstanceAs (Decidable (_ ∧ _))

instance (c : UInt8) (p : Parser σ) : Decidable (StoresStrayTab c p) := inferInstanceAs (Decidable (_ ∧ _))

lemma gotparsState_keeps (hp : Sane p) (hr : p.ques = false → byteChar c = 'r' → ¬NegativeRegion p)
    (ht : p.ques = false → byteChar c = 'g' → parAt p 0 = 0 → hasTabWord p.x) :
    Keeps p (gotparsState host c p) := by
  have hf := setState_frame .normal p
  have hq := hp.frame hf
  simp only [gotparsState]
  split
  · exact (setMode_keeps hq true).after hf
  · exact (setMode_keeps hq false).after hf
  · exact (deviceReport_keeps hq).after hf
  · split_ifs with hques
    · exact keeps_frame hp (by constructor <;> rfl)
    · have hnot : p.ques = false := eq_false_of_ne_true hques
      exact (csiFinal_keeps hq (hr hnot) (ht hnot)).after hf

lemma getparsState_keeps (hp : Sane p) (hr : p.ques = false → byteChar c = 'r' → ¬NegativeRegion p)
    (ht : p.ques = false → byteChar c = 'g' → parAt p 0 = 0 → hasTabWord p.x) :
    Keeps p (getparsState host c p) := by
  have hf := setState_frame .gotpars p
  simp only [getparsState]
  split_ifs with hsep
  · refine keeps_stay { hp with npar_lt := ?_ } rfl rfl
    exact Nat.add_lt_of_lt_sub hsep.2
  · exact keeps_frame hp (setPar_frame _ _ p)
  · exact (gotparsState_keeps (hp.frame hf) hr ht).after hf

lemma squareState_keeps (hp : Sane p) (ht : byteChar c = 'g' → hasTabWord p.x) :
    Keeps p (squareState host c p) := by
  have hcleared : ∀ (s : ESstate) (b : Bool),
      Sane { p with par := List.replicate nparMax 0, npar := 0, vcState := s, ques := b } := by
    intro s b
    exact { hp with npar_lt := Nat.succ_pos 15, par_length := List.length_replicate }
  simp only [squareState]
  split_ifs
  · exact keeps_stay (hcleared .funckey p.ques) rfl rfl
  · exact keeps_stay (hcleared .getpars _) rfl rfl
  · refine (getparsState_keeps (hcleared .getpars _) ?_ ?_).of_eq rfl rfl
    · rintro _ _ ⟨hneg, _⟩
      simp [parAt, nparMax] at hneg
    · exact fun _ hg _ => ht hg

lemma percentState_keeps (hp : Sane p) : Keeps p (percentState c p) := by
  simp only [percentState]
  split
  all_goals exact keeps_frame hp (by constructor <;> rfl)

lemma setG0State_keeps (hp : Sane p) : Keeps p (setG0State c p) := by
  simp only [setG0State]
  split_ifs
  all_goals exact keeps_frame hp (by constructor <;> rfl)

lemma setG1State_keeps (hp : Sane p) : Keeps p (setG1State c p) := by
  simp only [setG1State]
  split_ifs
  all_goals exact keeps_frame hp (by constructor <;> rfl)

lemma markedCells_le (charWidth : ℤ) (p : Parser σ) : p.x + markedCells charWidth p ≤ p.width := by
  simp only [markedCells]
  split_ifs <;> omega

lemma markCells_keeps (hp : Sane p) (ch : ScreenChar) {count : ℤ} (hc : p.x + count ≤ p.width) :
    Keeps p (markCells ch count p) := by
  have hx := hp.x_nonneg
  have hxw := hp.x_le
  simp only [markCells]
  split_ifs with hpos
  · have hq := hp.setX (by omega) hc
    refine ⟨hq, rfl, rfl, ?_⟩
    simpa [tell, Fits] using ⟨hx, hxw⟩
  · exact keeps_frame hp (Frame.refl p)

lemma advance_keeps (hp : Sane p) (ch : ScreenChar) (charWidth : ℤ) : Keeps p (advance ch charWidth p) := by
  have hx := hp.x_nonneg
  simp only [advance]
  split_ifs with hin
  · have hq := hp.setX (by omega : 0 ≤ p.x + 1) (by omega)
    have hk := (markCells_keeps hq ch (markedCells_le charWidth _)).andThen
      fun r hr _ _ => keeps_goto hr rfl rfl
    exact hk.of_eq rfl rfl
  · exact keeps_frame hp (Frame.refl p)

lemma relativeWidth_pos (host : Host σ) (ch : ℕ) : 1 ≤ relativeWidthOfCharacter host ch := by
  simp only [relativeWidthOfCharacter]
  split_ifs <;> omega

lemma putGlyph_keeps (hp : Sane p) (ch : ScreenChar) : Keeps p (putGlyph host ch p) := by
  have hw := hp.width_pos
  have hg := relativeWidth_pos host ch.ch
  simp only [putGlyph]
  refine Keeps.andThen ?_ fun q hq _ _ => advance_keeps hq ch _
  refine Keeps.andThen ?_ fun q hq _ _ => ?_
  · split_ifs
    · refine keeps_tell hp ?_
      show -p.width ≤ _
      omega
    · exact keeps_frame hp (Frame.refl p)
  · refine ⟨hq, rfl, rfl, ?_⟩
    simpa [putCell, Fits] using ⟨hq.x_nonneg, hq.x_le⟩

lemma autowrap_keeps (hp : Sane p) : Keeps p (autowrap p) := by
  simp only [autowrap]
  split_ifs
  · exact (cr_keeps hp).andThen fun q hq _ _ => lf_keeps hq
  · exact keeps_frame hp (Frame.refl p)

lemma putch_keeps (hp : Sane p) (ch : ScreenChar) : Keeps p (putch host ch p) :=
  (autowrap_keeps hp).andThen fun _ hq _ _ => putGlyph_keeps hq ch

lemma keeps_inputBuf (hp : Sane p) {inp : List UInt8} (h : inp.length ≤ inputBufSize) :
    Keeps p (stay (setInputBuf inp p)) :=
  keeps_stay (hp.setInputBuf h) rfl rfl

lemma convert_keeps (ch : ScreenChar) (cd : σ) (inp : List UInt8) (hp : Sane p)
    (hl : inp.length ≤ inputBufSize) : Keeps p (convert host ch cd inp p) := by
  induction hn : inp.length using Nat.strong_induction_on generalizing inp cd p with
  | _ n ih =>
    have hrest : (inp.drop (inp.length - (host.iconv cd inp).inSize)).length ≤ inputBufSize := by
      rw [List.length_drop]
      omega
    rw [convert]
    refine Keeps.andThen ?_ fun q hq hqw hqh => ?_
    · cases (host.iconv cd inp).output with
      | none => exact keeps_frame hp (by constructor <;> rfl)
      | some u =>
        have hf : Frame p (setUnich (ntohl u) (setIconvState (host.iconv cd inp).descriptor p)) := by
          constructor <;> rfl
        exact (putch_keeps (hp.frame hf) _).after hf
    · split
      · exact keeps_inputBuf hq hrest
      · exact keeps_inputBuf hq hrest
      · refine (putch_keeps hq _).andThen fun r hr _ _ => keeps_inputBuf hr ?_
        rw [List.length_drop]
        exact (Nat.sub_le _ _).trans hrest
      · next hs =>
        split_ifs
        · exact keeps_inputBuf hq (Nat.zero_le _)
        · have hlt := host.iconv_e2big cd inp hs
          refine ih _ ?_ _ _ hq hrest rfl
          rw [List.length_drop]
          omega

lemma iconvInput_keeps (hp : Sane p) (cd : σ) : Keeps p (iconvInput host cd c p) := by
  have hl : ((if p.inputBuf.length = inputBufSize then [] else p.inputBuf) ++ [metaByte c p]).length ≤
      inputBufSize := by
    have hle := hp.input_le
    split_ifs with hfull
    · simp [inputBufSize]
    · rw [List.length_append, List.length_singleton]
      omega
  exact (convert_keeps _ cd _ (hp.setInputBuf hl) hl).of_eq rfl rfl

lemma putUnich_keeps (hp : Sane p) : Keeps p (putUnich host p) := putch_keeps hp _

lemma leadByte_frame (n : ℕ) (p : Parser σ) : Frame p (leadByte n p) := by
  simp only [leadByte]
  split_ifs
  all_goals constructor <;> rfl

lemma utfByte_keeps (hp : Sane p) (n : ℕ) : Keeps p (utfByte host n p) := by
  simp only [utfByte]
  split_ifs with hcont hmore
  · exact keeps_frame hp (by constructor <;> rfl)
  · have hf : Frame p (contByte n p) := by constructor <;> rfl
    exact (putUnich_keeps (hp.frame hf)).after hf
  · exact keeps_frame hp (leadByte_frame n p)

lemma normalState_keeps (hp : Sane p) : Keeps p (normalState host c p) := by
  have hf := setState_frame .normal p
  have hq := hp.frame hf
  simp only [normalState]
  split_ifs
  · exact (utfByte_keeps hq _).after hf
  · split
    · exact (iconvInput_keeps hq _).after hf
    · have hu := setUnich_frame (translateMaps p.translate (metaByte c (setState .normal p)).toNat) (setState .normal p)
      exact ((putUnich_keeps (hq.frame hu)).after hu).after hf

lemma processState_keeps (hp : Sane p) (hr : ¬SetsNegativeRegion c p) (ht : ¬StoresStrayTab c p) :
    Keeps p (processState host c p) := by
  have htab : ∀ {a : Prop}, (¬hasTabWord p.x → a → StoresStrayTab c p) → a → hasTabWord p.x := by
    intro a h ha
    by_contra hx
    exact ht (h hx ha)
  have hgr : (p.vcState = .getpars ∨ p.vcState = .gotpars) → p.ques = false → byteChar c = 'r' →
      ¬NegativeRegion p := fun hv hq hc hneg => hr ⟨hv, hq, hc, hneg⟩
  have hgt : (p.vcState = .getpars ∨ p.vcState = .gotpars) → p.ques = false → byteChar c = 'g' →
      parAt p 0 = 0 → hasTabWord p.x := fun hv hq hc h0 =>
    htab (fun hx (h : parAt p 0 = 0) => ⟨hx, .inr (.inr ⟨hv, hq, hc, h⟩)⟩) h0
  unfold processState
  split
  case h_1 hv => exact escState_keeps hp (htab fun hx hc => ⟨hx, .inl ⟨hv, hc⟩⟩)
  case h_2 => exact nonstdState_keeps hp
  case h_3 => exact titleSemiState_keeps hp
  case h_4 => exact titleBufState_keeps hp
  case h_6 hv => exact squareState_keeps hp (htab fun hx hc => ⟨hx, .inr (.inl ⟨hv, hc⟩)⟩)
  case h_7 hv => exact getparsState_keeps hp (hgr (.inl hv)) (hgt (.inl hv))
  case h_8 hv => exact gotparsState_keeps hp (hgr (.inr hv)) (hgt (.inr hv))
  case h_9 => exact percentState_keeps hp
  case h_12 => exact setG0State_keeps hp
  case h_13 => exact setG1State_keeps hp
  case h_14 | h_15 => exact normalState_keeps hp
  all_goals exact keeps_frame hp (setState_frame .normal p)

lemma processByte_keeps (hp : Sane p) (hr : ¬SetsNegativeRegion c p) (ht : ¬StoresStrayTab c p) :
    Keeps p (processByte host c p) := by
  have hx := hp.x_nonneg
  have hxw := hp.x_le
  unfold processByte
  split
  case h_2 => exact bell_keeps hp
  case h_3 =>
    split_ifs with hpos
    · exact keeps_goto (hp.setX (by omega) (by omega)) rfl rfl
    · exact keeps_frame hp (Frame.refl p)
  case h_4 => exact tab_keeps hp
  case h_5 | h_6 | h_7 => exact lf_keeps hp
  case h_8 => exact cr_keeps hp
  case h_16 => exact processState_keeps hp hr ht
  all_goals exact keeps_frame hp (by constructor <;> rfl)

end Xperimentum.Terminal.LinuxParser
