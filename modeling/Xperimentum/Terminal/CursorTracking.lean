import Mathlib.Tactic
import Xperimentum.Terminal.ByteInvariant

/-! Every move of the cursor is told to the screen, and the character for erasing has the colours of the
current rendition, unless a byte restores a saved one. -/

namespace Xperimentum.Terminal.LinuxParser

variable {σ : Type} {host : Host σ} {c : UInt8} {p q : Parser σ} {o : Outcome σ} {r : Prop}

def moved (cursor : ℤ × ℤ) : ScreenCall → ℤ × ℤ
  | .goto x y => (x, y)
  | _ => cursor

def EraseCurrent (p : Parser σ) : Prop :=
  p.videoEraseChar.color = p.color % 256 ∧ p.videoEraseChar.attr = attrByte p

instance (p : Parser σ) : Decidable (EraseCurrent p) := inferInstanceAs (Decidable (_ ∧ _))

/-- What one piece of code does; with `r` it may restore a rendition. -/
structure Tracks (r : Prop) (p : Parser σ) (o : Outcome σ) : Prop where
  published : o.calls.foldl moved (p.x, p.y) = (o.parser.x, o.parser.y)
  erase : ¬r → EraseCurrent p → EraseCurrent o.parser

lemma tracks_stay (hx : q.x = p.x) (hy : q.y = p.y) (he : EraseCurrent p → EraseCurrent q) : Tracks r p (stay q) := by
  refine ⟨?_, fun _ => he⟩
  rw [stay, hx, hy]
  rfl

lemma tracks_refl (p : Parser σ) : Tracks r p (stay p) := tracks_stay rfl rfl id

lemma tracks_returned (p : Parser σ) : Tracks r p { parser := p, returned := true } := ⟨rfl, fun _ => id⟩

lemma tracks_tell {call : ScreenCall} (h : moved (p.x, p.y) call = (p.x, p.y)) : Tracks r p (tell call p) :=
  ⟨h, fun _ => id⟩

lemma tracks_goto (he : EraseCurrent p → EraseCurrent q) : Tracks r p (tsGoto q) := ⟨rfl, fun _ => he⟩

lemma Tracks.after (h : Tracks r q o) (hx : q.x = p.x) (hy : q.y = p.y) (he : EraseCurrent p → EraseCurrent q) :
    Tracks r p o := by
  refine ⟨?_, fun hr hp => h.erase hr (he hp)⟩
  rw [← hx, ← hy]
  exact h.published

lemma Tracks.andThen {f : Parser σ → Outcome σ} (ho : Tracks r p o) (hf : ∀ q, Tracks r q (f q)) :
    Tracks r p (o.andThen f) := by
  rw [Outcome.andThen]
  split_ifs
  · exact ho
  · have hrest := hf o.parser
    refine ⟨?_, fun hr hp => hrest.erase hr (ho.erase hr hp)⟩
    rw [List.foldl_append, ho.published]
    exact hrest.published

section Cursor

lemma gotoxy_tracks (newX newY : ℤ) (p : Parser σ) : Tracks r p (gotoxy newX newY p) := tracks_goto id

lemma gotoxay_tracks (nx ny : ℤ) (p : Parser σ) : Tracks r p (gotoxay nx ny p) := tracks_goto id

lemma restoreCur_tracks (hr : r) (p : Parser σ) : Tracks r p (restoreCur p) := by
  have hgoto := gotoxy_tracks (r := r) p.savedX p.savedY p
  refine ⟨?_, fun hno => absurd hr hno⟩
  rw [restoreCur, Outcome.andThen]
  exact hgoto.published

lemma cr_tracks (p : Parser σ) : Tracks r p (cr p) := tracks_goto id

lemma scrup_tracks (t b nr : ℤ) (save : Bool) (p : Parser σ) : Tracks r p (scrup t b nr save p) := by
  rw [scrup]
  split_ifs
  · exact tracks_returned p
  · exact (tracks_tell rfl).andThen fun q => tracks_tell rfl

lemma scrdown_tracks (t b nr : ℤ) (p : Parser σ) : Tracks r p (scrdown t b nr p) := by
  rw [scrdown]
  split_ifs
  · exact tracks_returned p
  · exact (tracks_tell rfl).andThen fun q => tracks_tell rfl

lemma lf_tracks (p : Parser σ) : Tracks r p (lf p) := by
  rw [lf]
  split_ifs
  · exact scrup_tracks _ _ _ _ p
  · exact tracks_goto id
  · exact tracks_refl p

lemma ri_tracks (p : Parser σ) : Tracks r p (ri p) := by
  rw [ri]
  split_ifs
  · exact scrdown_tracks _ _ _ p
  · exact tracks_goto id
  · exact tracks_refl p

lemma bell_tracks (p : Parser σ) : Tracks r p (bell p) := by
  rw [bell]
  split_ifs
  · exact ⟨rfl, fun _ => id⟩
  · exact tracks_refl p

end Cursor

section Printing

lemma advance_tracks (ch : ScreenChar) (charWidth : ℤ) (p : Parser σ) : Tracks r p (advance ch charWidth p) := by
  rw [advance]
  split_ifs
  · simp only [markCells]
    split_ifs
    · exact ⟨rfl, fun _ => id⟩
    · exact tracks_goto id
  · exact tracks_refl p

lemma putch_tracks (host : Host σ) (ch : ScreenChar) (p : Parser σ) : Tracks r p (putch host ch p) := by
  have hwrap : Tracks r p (autowrap p) := by
    rw [autowrap]
    split_ifs
    · exact (cr_tracks p).andThen lf_tracks
    · exact tracks_refl p
  refine hwrap.andThen fun q => ?_
  have hshift : Tracks r q (if q.decim then tell (.shiftRow q.y q.x (relativeWidthOfCharacter host ch.ch)) q
      else stay q) := by
    split_ifs
    · exact tracks_tell rfl
    · exact tracks_refl q
  exact (hshift.andThen fun _ => ⟨rfl, fun _ => id⟩).andThen (advance_tracks ch _)

lemma convert_tracks (ch : ScreenChar) (cd : σ) (inp : List UInt8) (p : Parser σ) :
    Tracks r p (convert host ch cd inp p) := by
  have hbuffer (bs : List UInt8) (q : Parser σ) : Tracks r q (stay (setInputBuf bs q)) := tracks_stay rfl rfl id
  induction hn : inp.length using Nat.strong_induction_on generalizing inp cd p with
  | _ n ih =>
    rw [convert]
    refine Tracks.andThen ?_ fun q => ?_
    · cases (host.iconv cd inp).output with
      | none => exact tracks_stay rfl rfl id
      | some u => exact (putch_tracks host _ _).after rfl rfl id
    · split
      · exact hbuffer _ q
      · exact hbuffer _ q
      · exact (putch_tracks host _ q).andThen fun q => hbuffer _ q
      · next hs =>
        split_ifs
        · exact hbuffer _ q
        · have hlt := host.iconv_e2big cd inp hs
          refine ih _ ?_ _ _ q rfl
          rw [List.length_drop]
          omega

lemma utfByte_tracks (n : ℕ) (p : Parser σ) : Tracks r p (utfByte host n p) := by
  simp only [utfByte]
  split_ifs
  · exact tracks_stay rfl rfl id
  · exact (putch_tracks host _ (contByte n p)).after rfl rfl id
  · simp only [leadByte]
    split_ifs <;> exact tracks_stay rfl rfl id

lemma normalState_tracks (c : UInt8) (p : Parser σ) : Tracks r p (normalState host c p) := by
  simp only [normalState]
  split_ifs
  · exact (utfByte_tracks _ _).after rfl rfl id
  · split
    · exact (convert_tracks _ _ _ _).after rfl rfl id
    · exact (putch_tracks host _ _).after rfl rfl id

end Printing

section Sequences

lemma updateAttr_erase (p : Parser σ) : EraseCurrent (updateAttr p) := ⟨rfl, rfl⟩

lemma csi_m_tracks (p : Parser σ) : Tracks r p (stay (csi_m p)) := by
  have hframe := csi_m_frame p
  exact tracks_stay hframe.x hframe.y fun _ => updateAttr_erase _

lemma csi_J_tracks (vpar : ℤ) (p : Parser σ) : Tracks r p (csi_J vpar p) := by
  simp only [csi_J]
  split
  all_goals first
    | exact tracks_tell rfl
    | exact tracks_refl p

lemma csi_K_tracks (vpar : ℤ) (p : Parser σ) : Tracks r p (csi_K vpar p) := by
  simp only [csi_K]
  split
  all_goals first
    | exact tracks_tell rfl
    | exact tracks_refl p

lemma resetTerminal_tracks (p : Parser σ) : Tracks r p (resetTerminal p) := by
  refine Tracks.andThen (Tracks.andThen ?_ fun q => tracks_stay rfl rfl id) fun q => csi_J_tracks 2 q
  exact (gotoxy_tracks 0 0 _).after rfl rfl fun _ => updateAttr_erase _

lemma setMode_tracks (onOff : Bool) (p : Parser σ) : Tracks r p (setMode onOff p) := by
  have hprivate (n : ℤ) (q : Parser σ) : Tracks r q (setPrivateMode onOff n q) := by
    simp only [setPrivateMode]
    split
    case h_1 =>
      split_ifs
      · exact tracks_stay rfl rfl fun _ => updateAttr_erase _
      · exact tracks_refl q
    case h_2 => exact (gotoxay_tracks 0 0 _).after rfl rfl id
    all_goals exact tracks_stay rfl rfl id
  have hansi (n : ℤ) (q : Parser σ) : Tracks r q (setAnsiMode onOff n q) := by
    simp only [setAnsiMode]
    split <;> exact tracks_stay rfl rfl id
  have hall (ns : List ℤ) (o : Outcome σ) (ho : Tracks r p o) : Tracks r p (ns.foldl
      (fun o n => o.andThen (if p.ques then setPrivateMode onOff n else setAnsiMode onOff n)) o) := by
    induction ns generalizing o with
    | nil => exact ho
    | cons n ns ih =>
      refine ih _ (ho.andThen fun q => ?_)
      split_ifs
      · exact hprivate n q
      · exact hansi n q
  exact hall (pars p) (stay p) (tracks_refl p)

lemma decrementPar_same (i : ℕ) (p : Parser σ) :
    (decrementPar i p).x = p.x ∧ (decrementPar i p).y = p.y ∧ (EraseCurrent p → EraseCurrent (decrementPar i p)) := by
  rw [decrementPar]
  split_ifs <;> exact ⟨rfl, rfl, id⟩

lemma defaultPar_same (i : ℕ) (n : ℤ) (p : Parser σ) :
    (defaultPar i n p).x = p.x ∧ (defaultPar i n p).y = p.y ∧ (EraseCurrent p → EraseCurrent (defaultPar i n p)) := by
  rw [defaultPar]
  split_ifs <;> exact ⟨rfl, rfl, id⟩

lemma Tracks.afterDecrement {i : ℕ} (h : Tracks r (decrementPar i p) o) : Tracks r p o := by
  obtain ⟨hx, hy, he⟩ := decrementPar_same i p
  exact h.after hx hy he

lemma Tracks.afterDefault {i : ℕ} {n : ℤ} (h : Tracks r (defaultPar i n p) o) : Tracks r p o := by
  obtain ⟨hx, hy, he⟩ := defaultPar_same i n p
  exact h.after hx hy he

lemma setScrollRegion_tracks (p : Parser σ) : Tracks r p (setScrollRegion p) := by
  have hregion : Tracks r (defaultPar 1 p.height (defaultPar 0 1 p)) (setScrollRegion p) := by
    simp only [setScrollRegion]
    split_ifs
    · exact (gotoxay_tracks 0 0 _).after rfl rfl id
    · exact tracks_refl _
  exact hregion.afterDefault.afterDefault

lemma storeTabWord_tracks {x : ℤ} (hx : hasTabWord x) (word : ℕ) (p : Parser σ) :
    Tracks r p (stay (storeTabWord host p x word)) := by
  rw [storeTabWord, if_pos hx]
  exact tracks_stay rfl rfl id

lemma clearTabs_tracks (h : parAt p 0 = 0 → hasTabWord p.x) : Tracks r p (stay (clearTabs host p)) := by
  rw [clearTabs]
  split_ifs with hzero
  · exact storeTabWord_tracks (h hzero) _ p
  · exact tracks_stay rfl rfl id
  · exact tracks_refl p

lemma settermCommand_tracks (p : Parser σ) : Tracks r p (stay (settermCommand p)) := by
  simp only [settermCommand]
  split
  · exact tracks_stay rfl rfl fun _ => updateAttr_erase _
  · exact tracks_refl p

lemma csiFinal_tracks (hr : byteChar c = 'u' → r) (ht : byteChar c = 'g' → parAt p 0 = 0 → hasTabWord p.x) :
    Tracks r p (csiFinal host c p) := by
  simp only [csiFinal]
  split
  case h_1 | h_2 => exact (gotoxy_tracks _ _ _).afterDecrement
  case h_3 | h_4 | h_5 | h_6 | h_7 | h_8 | h_9 | h_10 => exact (gotoxy_tracks _ _ _).afterDefault
  case h_11 => exact (gotoxay_tracks _ _ _).afterDecrement
  case h_12 | h_13 => exact (gotoxay_tracks _ _ _).afterDecrement.afterDecrement
  case h_14 => exact csi_J_tracks _ p
  case h_15 => exact csi_K_tracks _ p
  case h_16 => exact scrdown_tracks _ _ _ p
  case h_17 => exact scrup_tracks _ _ _ _ p
  case h_18 => exact (tracks_tell rfl).andThen fun q => tracks_tell rfl
  case h_19 =>
    split_ifs
    · exact tracks_tell rfl
    · exact tracks_refl p
  case h_20 hc => exact clearTabs_tracks (ht hc)
  case h_21 => exact csi_m_tracks p
  case h_22 => exact setScrollRegion_tracks p
  case h_23 => exact tracks_stay rfl rfl id
  case h_24 hc => exact restoreCur_tracks (hr hc) p
  case h_25 => exact tracks_tell rfl
  case h_26 => exact (tracks_tell rfl).andThen fun q => tracks_tell rfl
  case h_27 => exact settermCommand_tracks p
  case h_28 => exact tracks_refl p

lemma gotparsState_tracks (hr : p.ques = false → byteChar c = 'u' → r)
    (ht : p.ques = false → byteChar c = 'g' → parAt p 0 = 0 → hasTabWord p.x) :
    Tracks r p (gotparsState host c p) := by
  simp only [gotparsState]
  split
  · exact (setMode_tracks true _).after rfl rfl id
  · exact (setMode_tracks false _).after rfl rfl id
  · simp only [deviceReport]
    split_ifs
    · exact tracks_stay rfl rfl id
    · exact ⟨rfl, fun _ => id⟩
    · exact ⟨rfl, fun _ => id⟩
    · exact tracks_stay rfl rfl id
  · split_ifs with hques
    · exact tracks_stay rfl rfl id
    · have hno : p.ques = false := eq_false_of_ne_true hques
      exact Tracks.after (csiFinal_tracks (hr hno) (ht hno)) rfl rfl id

lemma getparsState_tracks (hr : p.ques = false → byteChar c = 'u' → r)
    (ht : p.ques = false → byteChar c = 'g' → parAt p 0 = 0 → hasTabWord p.x) :
    Tracks r p (getparsState host c p) := by
  simp only [getparsState]
  split_ifs
  · exact tracks_stay rfl rfl id
  · exact tracks_stay rfl rfl id
  · exact (gotparsState_tracks (p := setState .gotpars p) hr ht).after rfl rfl id

lemma squareState_tracks (hr : byteChar c = 'u' → r) (ht : byteChar c = 'g' → hasTabWord p.x) :
    Tracks r p (squareState host c p) := by
  simp only [squareState]
  split_ifs
  · exact tracks_stay rfl rfl id
  · exact tracks_stay rfl rfl id
  · exact Tracks.after (getparsState_tracks (fun _ => hr) fun _ hc _ => ht hc) rfl rfl id

lemma escState_tracks (hr : byteChar c = '8' → r) (ht : byteChar c = 'H' → hasTabWord p.x) :
    Tracks r p (escState host c p) := by
  simp only [escState]
  split
  case h_4 => exact ((cr_tracks _).andThen lf_tracks).after rfl rfl id
  case h_5 => exact (ri_tracks _).after rfl rfl id
  case h_6 => exact (lf_tracks _).after rfl rfl id
  case h_7 hc => exact (storeTabWord_tracks (p := setState .normal p) (ht hc) _).after rfl rfl id
  case h_8 => exact ⟨rfl, fun _ => id⟩
  case h_10 hc => exact (restoreCur_tracks (hr hc) _).after rfl rfl id
  case h_14 => exact (resetTerminal_tracks _).after rfl rfl id
  all_goals exact tracks_stay rfl rfl id

end Sequences

section Bytes

/-- The byte ends a sequence that restores what has been saved. -/
def Restores (c : UInt8) (p : Parser σ) : Prop :=
  p.vcState = .esc ∧ byteChar c = '8' ∨ p.vcState = .square ∧ byteChar c = 'u' ∨
    (p.vcState = .getpars ∨ p.vcState = .gotpars) ∧ p.ques = false ∧ byteChar c = 'u'

instance (c : UInt8) (p : Parser σ) : Decidable (Restores c p) := inferInstanceAs (Decidable (_ ∨ _))

lemma processState_tracks (ht : ¬StoresStrayTab c p) : Tracks (Restores c p) p (processState host c p) := by
  have hword {a : Prop} (h : a → ¬hasTabWord p.x → StoresStrayTab c p) : a → hasTabWord p.x := fun ha => by
    by_contra hx
    exact ht (h ha hx)
  rw [processState]
  split
  case h_1 hs =>
    exact escState_tracks (fun hc => .inl ⟨hs, hc⟩) (hword fun hc hx => ⟨hx, .inl ⟨hs, hc⟩⟩)
  case h_2 =>
    simp only [nonstdState]
    split <;> exact tracks_stay rfl rfl id
  case h_3 =>
    rw [titleSemiState]
    split_ifs <;> exact tracks_stay rfl rfl id
  case h_4 =>
    rw [titleBufState]
    split_ifs <;> exact tracks_stay rfl rfl id
  case h_6 hs =>
    exact squareState_tracks (fun hc => .inr (.inl ⟨hs, hc⟩)) (hword fun hc hx => ⟨hx, .inr (.inl ⟨hs, hc⟩)⟩)
  case h_7 hs =>
    exact getparsState_tracks (fun hq hc => .inr (.inr ⟨.inl hs, hq, hc⟩)) fun hq hc =>
      hword fun hzero hx => ⟨hx, .inr (.inr ⟨.inl hs, hq, hc, hzero⟩)⟩
  case h_8 hs =>
    exact gotparsState_tracks (fun hq hc => .inr (.inr ⟨.inr hs, hq, hc⟩)) fun hq hc =>
      hword fun hzero hx => ⟨hx, .inr (.inr ⟨.inr hs, hq, hc, hzero⟩)⟩
  case h_9 =>
    simp only [percentState]
    split <;> exact tracks_stay rfl rfl id
  case h_12 =>
    simp only [setG0State]
    split_ifs <;> exact tracks_stay rfl rfl id
  case h_13 =>
    simp only [setG1State]
    split_ifs <;> exact tracks_stay rfl rfl id
  case h_14 | h_15 => exact normalState_tracks c p
  all_goals exact tracks_stay rfl rfl id

lemma processByte_tracks (ht : ¬StoresStrayTab c p) : Tracks (Restores c p) p (processByte host c p) := by
  rw [processByte]
  split
  case h_2 => exact bell_tracks p
  case h_3 =>
    split_ifs
    · exact tracks_goto id
    · exact tracks_refl p
  case h_4 => exact tracks_goto id
  case h_5 | h_6 | h_7 => exact lf_tracks p
  case h_8 => exact cr_tracks p
  case h_16 => exact processState_tracks ht
  all_goals exact tracks_stay rfl rfl id

end Bytes

end Xperimentum.Terminal.LinuxParser
