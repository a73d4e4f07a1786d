import Mathlib.Tactic
import Xperimentum.Lib.IncrementalDecoding
import Xperimentum.Terminal.TabStops
import Xperimentum.Terminal.Utf8Printing

/-! What stays in `input_buf` after each byte, with a converter that is an incremental decoder. -/

namespace Xperimentum.Terminal.LinuxParser

open Xperimentum.Lib.IncrementalDecoding Xperimentum.Lib.Runs

variable {σ : Type} {host : Host σ} {c : UInt8} {p q : Parser σ} {d : Decoder UInt8 ℕ σ}

/-- The returns of `iconv`, with room for one character, for input of each kind. -/
structure Follows (d : Decoder UInt8 ℕ σ) (host : Host σ) : Prop where
  complete : ∀ {cd bs n u cd'}, d.piece cd bs = .complete n u cd' →
    (host.iconv cd bs).output = some u ∧ (host.iconv cd bs).inSize = bs.length - n ∧
      (host.iconv cd bs).descriptor = cd' ∧ (n = bs.length → (host.iconv cd bs).status = .done)
  incomplete : ∀ {cd bs n cd'}, d.piece cd bs = .incomplete n cd' →
    host.iconv cd bs = ⟨cd', bs.length - n, none, if n = bs.length then .done else .einval⟩
  invalid : ∀ {cd bs n cd'}, d.piece cd bs = .invalid n cd' →
    host.iconv cd bs = ⟨cd', bs.length - n, none, .eilseq⟩

/-- Nothing that can be printed is left in the buffer. -/
def Flushed (d : Decoder UInt8 ℕ σ) (p : Parser σ) : Prop :=
  ∀ cd, p.iconvState = some cd → ¬d.Deliverable cd p.inputBuf

/-- The first character is put without a `return`, and there is none behind an invalid byte. -/
def LeavesNothing (d : Decoder UInt8 ℕ σ) (c : UInt8) (p : Parser σ) (cd : σ) : Prop :=
  match d.piece cd (bufferedInput c p) with
  | .complete _ _ _ => ¬BlockedWrap p
  | .incomplete _ _ => True
  | .invalid n cd' => ¬BlockedWrap p ∧ ¬d.Deliverable cd' ((bufferedInput c p).drop (n + 1))

def ReachesConverter (c : UInt8) (p : Parser σ) : Prop :=
  c.toNat ∉ controlCodes ∧ (p.vcState = .normal ∨ p.vcState = .ignore) ∧ Converts c p

def Passes (d : Decoder UInt8 ℕ σ) (p : Parser σ) : Event → Prop
  | .byte c => ¬StoresStrayTab c p ∧ (ReachesConverter c p → ∀ cd, p.iconvState = some cd → LeavesNothing d c p cd)
  | .resize _ _ => True

instance (p : Parser σ) (cd : σ) : Decidable (LeavesNothing d c p cd) :=
  match h : d.piece cd (bufferedInput c p) with
  | .complete _ _ _ => decidable_of_iff (¬BlockedWrap p) (by rw [LeavesNothing, h])
  | .incomplete _ _ => isTrue (by rw [LeavesNothing, h]; trivial)
  | .invalid n cd' =>
    decidable_of_iff (¬BlockedWrap p ∧ ¬d.Deliverable cd' ((bufferedInput c p).drop (n + 1))) (by rw [LeavesNothing, h])

instance (c : UInt8) (p : Parser σ) : Decidable (ReachesConverter c p) := inferInstanceAs (Decidable (_ ∧ _))

instance (c : UInt8) (p : Parser σ) : Decidable (∀ cd, p.iconvState = some cd → LeavesNothing d c p cd) :=
  match h : p.iconvState with
  | none => isTrue nofun
  | some cd => decidable_of_iff (LeavesNothing d c p cd) ⟨fun hl cd' hcd => by cases hcd; exact hl, fun hl => hl cd rfl⟩

instance (p : Parser σ) : ∀ e, Decidable (Passes d p e)
  | .byte _ => inferInstanceAs (Decidable (_ ∧ (_ → _)))
  | .resize _ _ => isTrue trivial

/-! Bytes that do not reach the converter. -/

structure SameInput (p q : Parser σ) : Prop where
  inputBuf : q.inputBuf = p.inputBuf
  iconvState : q.iconvState = p.iconvState

lemma ByteFrame.sameInput (h : ByteFrame p q) : SameInput p q := ⟨h.inputBuf, h.iconvState⟩

lemma SameInput.flushed (h : SameInput p q) (hp : Flushed d p) : Flushed d q := by
  intro cd hcd
  rw [h.inputBuf]
  apply hp cd
  rw [← h.iconvState]
  exact hcd

lemma storeTabWord_sameInput (host : Host σ) {x : ℤ} (hx : hasTabWord x) (word : ℕ) (p : Parser σ) :
    SameInput p (storeTabWord host p x word) := by
  rw [storeTabWord, if_pos hx]
  exact ⟨rfl, rfl⟩

lemma clearTabs_sameInput (host : Host σ) (h : parAt p 0 = 0 → hasTabWord p.x) : SameInput p (clearTabs host p) := by
  rw [clearTabs]
  split_ifs with h0
  · exact storeTabWord_sameInput host (h h0) _ p
  · exact ⟨rfl, rfl⟩
  · exact ⟨rfl, rfl⟩

lemma escState_sameInput (host : Host σ) (h : byteChar c = 'H' → hasTabWord p.x) :
    SameInput p (escState host c p).parser := by
  by_cases hH : byteChar c = 'H'
  · have hstore := storeTabWord_sameInput host (h hH) (tabWord host (setState .normal p) p.x ||| 1 <<< tabBit p.x)
      (setState .normal p)
    rw [escState_sets host hH]
    exact ⟨hstore.inputBuf, hstore.iconvState⟩
  · by_cases hc : byteChar c = 'c'
    · rw [escState_resets host hc]
      exact ⟨rfl, rfl⟩
    · exact (escState_byteFrame hH hc p).sameInput

lemma squareState_sameInput (host : Host σ) (h : byteChar c = 'g' → hasTabWord p.x) :
    SameInput p (squareState host c p).parser := by
  by_cases hc : byteChar c = 'g'
  · have hclear := clearTabs_sameInput host (p := setState .normal (setState .gotpars (opened p))) fun _ => h hc
    rw [squareState_clears host hc]
    exact ⟨hclear.inputBuf, hclear.iconvState⟩
  · exact (squareState_byteFrame hc p).sameInput

lemma getparsState_sameInput (host : Host σ) (h : p.ques = false → byteChar c = 'g' → parAt p 0 = 0 → hasTabWord p.x) :
    SameInput p (getparsState host c p).parser := by
  by_cases hc : p.ques = false ∧ byteChar c = 'g'
  · have hclear := clearTabs_sameInput host (p := setState .normal (setState .gotpars p)) (h hc.1 hc.2)
    rw [getparsState_clears host hc.2 hc.1]
    exact ⟨hclear.inputBuf, hclear.iconvState⟩
  · exact (getparsState_byteFrame fun hques hg => hc ⟨hques, hg⟩).sameInput

lemma gotparsState_sameInput (host : Host σ) (h : p.ques = false → byteChar c = 'g' → parAt p 0 = 0 → hasTabWord p.x) :
    SameInput p (gotparsState host c p).parser := by
  by_cases hc : p.ques = false ∧ byteChar c = 'g'
  · have hclear := clearTabs_sameInput host (p := setState .normal p) (h hc.1 hc.2)
    rw [gotparsState_clears host hc.2 hc.1]
    exact ⟨hclear.inputBuf, hclear.iconvState⟩
  · exact (gotparsState_byteFrame fun hques hg => hc ⟨hques, hg⟩).sameInput

lemma processState_sameInput (host : Host σ) (ht : ¬StoresStrayTab c p)
    (hn : p.vcState = .normal ∨ p.vcState = .ignore → ¬Converts c p) : SameInput p (processState host c p).parser := by
  have hword {P : Prop} (h : P → ¬hasTabWord p.x → StoresStrayTab c p) : P → hasTabWord p.x := fun hP => by
    by_contra hx
    exact ht (h hP hx)
  cases hs : p.vcState with
  | esc =>
    rw [processState, hs]
    exact escState_sameInput host (hword fun hc hx => ⟨hx, .inl ⟨hs, hc⟩⟩)
  | square =>
    rw [processState, hs]
    exact squareState_sameInput host (hword fun hc hx => ⟨hx, .inr (.inl ⟨hs, hc⟩)⟩)
  | getpars =>
    rw [processState, hs]
    exact getparsState_sameInput host fun hq hc => hword fun h0 hx => ⟨hx, .inr (.inr ⟨.inl hs, hq, hc, h0⟩)⟩
  | gotpars =>
    rw [processState, hs]
    exact gotparsState_sameInput host fun hq hc => hword fun h0 hx => ⟨hx, .inr (.inr ⟨.inr hs, hq, hc, h0⟩)⟩
  | normal =>
    rw [processState, hs]
    exact (normalState_byteFrame (hn (.inl hs))).sameInput
  | ignore =>
    rw [processState, hs]
    exact (normalState_byteFrame (hn (.inr hs))).sameInput
  | nonstd | titleSemi | titleBuf | percent | setG0 | setG1 | palette | funckey | hash =>
    have hplain : ByteFrame p (processState host c p).parser := plainState_byteFrame (by rw [hs]; decide)
    exact hplain.sameInput

lemma processByte_sameInput (host : Host σ) (ht : ¬StoresStrayTab c p) (hr : ¬ReachesConverter c p) :
    SameInput p (processByte host c p).parser := by
  by_cases hc : c.toNat ∈ controlCodes
  · by_cases h9 : c.toNat = 9
    · have htab : processByte host c p = tab host p := by
        simp only [processByte, h9]
      rw [htab]
      exact ⟨rfl, rfl⟩
    · exact (control_byteFrame hc h9).sameInput
  · rw [processByte_state hc]
    exact processState_sameInput host ht fun hs hconv => hr ⟨hc, hs, hconv⟩

/-! Bytes that do. -/

section Conversion

variable (hf : Follows d host) {cd cd' : σ} {inp : List UInt8} {n u : ℕ} (ch : ScreenChar)
include hf

lemma convert_complete (hpiece : d.piece cd inp = .complete n u cd') (hn : n = inp.length) (hb : ¬BlockedWrap p) :
    (convert host ch cd inp p).parser.inputBuf = [] ∧ (convert host ch cd inp p).parser.iconvState = some cd' := by
  obtain ⟨hout, hsize, hcd, hstatus⟩ := hf.complete hpiece
  have hb' : ¬BlockedWrap (setUnich (ntohl u) (setIconvState (host.iconv cd inp).descriptor p)) := hb
  have hput : Puts _ _ (putch host { ch with ch := u % 65536 } _) := putch_puts _ hb'
  rw [convert_done hout (hstatus hn), (Outcome.andThen_stay hput.returned _).1, hsize, hn, Nat.sub_self, Nat.sub_zero,
    List.drop_length]
  refine ⟨rfl, (putch_byteFrame host _ _).iconvState.trans ?_⟩
  rw [hcd]
  rfl

omit hf in
lemma stay_andThen (f : Parser σ → Outcome σ) (p : Parser σ) : (stay p).andThen f = f p := rfl

omit hf in
lemma convert_none (hout : (host.iconv cd inp).output = none) (hs : (host.iconv cd inp).status ≠ .e2big) :
    convert host ch cd inp p = if (host.iconv cd inp).status = .eilseq then
        (putch host { ch with ch := 0xfffd } (setIconvState (host.iconv cd inp).descriptor p)).andThen fun q =>
          stay (setInputBuf ((inp.drop (inp.length - (host.iconv cd inp).inSize)).drop 1) q)
      else stay (setInputBuf (inp.drop (inp.length - (host.iconv cd inp).inSize))
        (setIconvState (host.iconv cd inp).descriptor p)) := by
  rw [convert]
  simp only [hout]
  rw [stay_andThen]
  split <;> simp_all

lemma convert_incomplete (hpiece : d.piece cd inp = .incomplete n cd') :
    (convert host ch cd inp p).parser.inputBuf = inp.drop n ∧
      (convert host ch cd inp p).parser.iconvState = some cd' := by
  have hiconv := hf.incomplete hpiece
  have hwaits : (if n = inp.length then ConversionStatus.done else .einval) ≠ .e2big ∧
      (if n = inp.length then ConversionStatus.done else .einval) ≠ .eilseq := by
    split_ifs <;> decide
  rw [convert_none ch (by rw [hiconv]) (by rw [hiconv]; exact hwaits.1), hiconv, if_neg hwaits.2,
    Nat.sub_sub_self (d.incomplete_le hpiece)]
  exact ⟨rfl, rfl⟩

lemma convert_invalid (hpiece : d.piece cd inp = .invalid n cd') (hb : ¬BlockedWrap p) :
    (convert host ch cd inp p).parser.inputBuf = inp.drop (n + 1) ∧
      (convert host ch cd inp p).parser.iconvState = some cd' := by
  have hiconv := hf.invalid hpiece
  have hb' : ¬BlockedWrap (setIconvState cd' p) := hb
  have hput : Puts _ _ (putch host { ch with ch := 0xfffd } _) := putch_puts _ hb'
  rw [convert_none ch (by rw [hiconv]) (by rw [hiconv]; nofun), hiconv, if_pos rfl,
    (Outcome.andThen_stay hput.returned _).1, Nat.sub_sub_self (d.invalid_lt hpiece).le, List.drop_drop]
  exact ⟨rfl, (putch_byteFrame host _ _).iconvState⟩

end Conversion

lemma processByte_converts {cd : σ} (h : ReachesConverter c p) (hcd : p.iconvState = some cd) :
    processByte host c p = convert host (charOf 0 p) cd (bufferedInput c p) (buffering c p) := by
  obtain ⟨hc, hs, hconv⟩ := h
  rw [processByte_state hc, ← normalState_converts hconv hcd, processState]
  rcases hs with hs | hs <;> rw [hs]

lemma complete_buffered {cd cd' : σ} {n u : ℕ} (hp : ¬d.Deliverable cd p.inputBuf)
    (hpiece : d.piece cd (bufferedInput c p) = .complete n u cd') : n = (bufferedInput c p).length := by
  rw [bufferedInput] at hpiece ⊢
  refine complete_all d ?_ hpiece
  split_ifs
  · exact not_deliverable_nil d cd
  · exact hp

lemma processByte_flushed (hf : Follows d host) (hp : Flushed d p) (hr : ReachesConverter c p)
    (h : ∀ cd, p.iconvState = some cd → LeavesNothing d c p cd) : Flushed d (processByte host c p).parser := by
  obtain ⟨cd, hcd⟩ := Option.isSome_iff_exists.mp hr.2.2.2.1
  have hleaves := h cd hcd
  rw [LeavesNothing] at hleaves
  rw [processByte_converts hr hcd]
  intro cd₁ hcd₁
  cases hpiece : d.piece cd (bufferedInput c p) with
  | complete n u cd' =>
    rw [hpiece] at hleaves
    have hall := complete_buffered (hp cd hcd) hpiece
    have hempty := (convert_complete hf (charOf 0 p) hpiece hall (p := buffering c p) hleaves).1
    rw [hempty]
    exact not_deliverable_nil d cd₁
  | incomplete n cd' =>
    obtain ⟨hrest, hstate⟩ := convert_incomplete hf (charOf 0 p) hpiece (p := buffering c p)
    rw [hstate, Option.some.injEq] at hcd₁
    rw [hrest, ← hcd₁]
    exact not_deliverable_resumed d hpiece
  | invalid n cd' =>
    rw [hpiece] at hleaves
    obtain ⟨hrest, hstate⟩ := convert_invalid hf (charOf 0 p) hpiece (p := buffering c p) hleaves.1
    rw [hstate, Option.some.injEq] at hcd₁
    rw [hrest, ← hcd₁]
    exact hleaves.2

lemma flushed_step (hf : Follows d host) (p : Parser σ) (e : Event) (hp : Flushed d p) (he : Passes d p e) :
    Flushed d (step host p e) := by
  cases e with
  | byte c =>
    by_cases hr : ReachesConverter c p
    · exact processByte_flushed hf hp hr (he.2 hr)
    · exact (processByte_sameInput host he.1 hr).flushed hp
  | resize size cursorY => exact hp

theorem flushed_run (hf : Follows d host) (size : ScreenSize) (cd : Option σ) (es : List Event)
    (h : Along (step host) (Passes d) (initial size cd) es) (n : ℕ) :
    Flushed d (run (step host) (initial size cd) (es.take n)) := by
  have hinitial : Flushed d (initial size cd) := fun cd' _ => not_deliverable_nil d cd'
  exact run_invariant (flushed_step hf) hinitial (h.take n)

/-- A host whose converter is the decoder. -/
def hostOf (d : Decoder UInt8 ℕ σ) : Host σ where
  iconv cd bs :=
    match d.piece cd bs with
    | .complete n u cd' => ⟨cd', bs.length - n, some u, if n = bs.length then .done else .e2big⟩
    | .incomplete n cd' => ⟨cd', bs.length - n, none, if n = bs.length then .done else .einval⟩
    | .invalid n cd' => ⟨cd', bs.length - n, none, .eilseq⟩
  iconv_left cd bs := by
    split <;> exact Nat.sub_le _ _
  iconv_e2big cd bs h := by
    split at h
    case h_1 n u cd' hpiece =>
      have hle := d.complete_le hpiece
      dsimp only
      omega
    case h_2 => split_ifs at h
    case h_3 => cases h
  iconv_eilseq cd bs h := by
    split at h
    case h_1 => split_ifs at h
    case h_2 => split_ifs at h
    case h_3 n cd' hpiece =>
      have hlt := d.invalid_lt hpiece
      dsimp only
      omega
  useMultiCellGlyphs := false
  glyphCells _ := 1
  strayWord _ _ := 0
  strayStore p _ _ := p

lemma hostOf_follows (d : Decoder UInt8 ℕ σ) : Follows d (hostOf d) := by
  constructor
  · intro cd bs n u cd' hpiece
    simp only [hostOf, hpiece]
    exact ⟨trivial, trivial, trivial, fun hn => if_pos hn⟩
  · intro cd bs n cd' hpiece
    simp only [hostOf, hpiece]
  · intro cd bs n cd' hpiece
    simp only [hostOf, hpiece]

/-- The UTF-8 sequences of one and two bytes. -/
def utf8Piece : List UInt8 → Piece ℕ Unit
  | [] => .incomplete 0 ()
  | [b] =>
    if b < 0x80 then .complete 1 b.toNat ()
    else if b < 0xc2 ∨ 0xdf < b then .invalid 0 ()
    else .incomplete 0 ()
  | b :: c :: _ =>
    if b < 0x80 then .complete 1 b.toNat ()
    else if b < 0xc2 ∨ 0xdf < b ∨ c &&& 0xc0 ≠ 0x80 then .invalid 0 ()
    else .complete 2 ((b.toNat &&& 0x1f) <<< 6 ||| c.toNat &&& 0x3f) ()

lemma utf8Piece_spec (bs : List UInt8) :
    match utf8Piece bs with
    | .complete n _ _ => 1 ≤ n ∧ n ≤ bs.length
    | .incomplete n _ => n = 0
    | .invalid n _ => n = 0 ∧ bs ≠ [] := by
  rcases bs with _ | ⟨b, _ | ⟨c, bs⟩⟩
  · rfl
  · rw [utf8Piece]
    split_ifs
    · exact ⟨le_rfl, le_rfl⟩
    · exact ⟨rfl, List.cons_ne_nil _ _⟩
    · rfl
  · rw [utf8Piece]
    split_ifs
    · exact ⟨le_rfl, Nat.succ_le_succ (Nat.zero_le _)⟩
    · exact ⟨rfl, List.cons_ne_nil _ _⟩
    · exact ⟨one_le_two, Nat.succ_le_succ (Nat.succ_le_succ (Nat.zero_le _))⟩

lemma utf8Piece_append {bs cs : List UInt8} {n u : ℕ} {s : Unit} (h : utf8Piece (bs ++ cs) = .complete n u s)
    (hn : n ≤ bs.length) : utf8Piece bs = .complete n u s := by
  have hspec := utf8Piece_spec (bs ++ cs)
  rw [h] at hspec
  rcases bs with _ | ⟨b, _ | ⟨c, bs⟩⟩
  · exact absurd (hspec.1.trans hn) (Nat.not_succ_le_zero 0)
  · rcases cs with _ | ⟨c, cs⟩
    · exact h
    · rw [List.singleton_append, utf8Piece] at h
      rw [utf8Piece]
      split_ifs at h ⊢
      · exact h
      · cases h
        exact absurd hn (Nat.not_succ_le_self 1)
      · cases h
        exact absurd hn (Nat.not_succ_le_self 1)
  · exact h

def utf8Decoder : Decoder UInt8 ℕ Unit where
  piece _ := utf8Piece
  complete_le {s bs n u s'} h := by
    have hspec := utf8Piece_spec bs
    rw [h] at hspec
    exact hspec
  incomplete_le {s bs n s'} h := by
    have hspec := utf8Piece_spec bs
    rw [h] at hspec
    exact hspec.trans_le (Nat.zero_le _)
  invalid_lt {s bs n s'} h := by
    have hspec := utf8Piece_spec bs
    rw [h] at hspec
    exact hspec.1.trans_lt (List.length_pos_of_ne_nil hspec.2)
  determined := utf8Piece_append
  resumes {s bs n s'} h := by
    have hspec := utf8Piece_spec bs
    rw [h] at hspec
    rw [hspec, List.drop_zero]
    exact ⟨n, s', h⟩

/-- `é`, a resize, a byte in error and `A`. -/
def utf8Session : List Event := [.byte 0xc3, .byte 0xa9, .resize size80x24 3, .byte 0xff, .byte 0x41]

theorem flushed_run_utf8 :
    Follows utf8Decoder (hostOf utf8Decoder) ∧
      Along (step (hostOf utf8Decoder)) (Passes utf8Decoder) (initial size80x24 (some ())) utf8Session ∧
        Flushed utf8Decoder (run (step (hostOf utf8Decoder)) (initial size80x24 (some ())) (utf8Session.take 5)) := by
  have hf := hostOf_follows utf8Decoder
  have hpasses : Along (step (hostOf utf8Decoder)) (Passes utf8Decoder) (initial size80x24 (some ())) utf8Session := by
    decide +kernel
  exact ⟨hf, hpasses, flushed_run hf size80x24 (some ()) utf8Session hpasses 5⟩

/-- `A` behind a lead byte stays in the buffer. -/
theorem character_left_unprinted :
    ¬∀ (es : List Event) (n : ℕ),
      Flushed utf8Decoder (run (step (hostOf utf8Decoder)) (initial size80x24 (some ())) (es.take n)) := by
  intro hall
  have hflushed := hall [.byte 0xc3, .byte 0x41] 2
  have hbuffer : (run (step (hostOf utf8Decoder)) (initial size80x24 (some ()))
      ([.byte 0xc3, .byte 0x41].take 2)).inputBuf = [0x41] := by decide +kernel
  have hstate : (run (step (hostOf utf8Decoder)) (initial size80x24 (some ()))
      ([.byte 0xc3, .byte 0x41].take 2)).iconvState = some () := by decide +kernel
  have hpiece : utf8Decoder.piece () [0x41] = .complete 1 0x41 () := rfl
  apply hflushed () hstate
  rw [hbuffer]
  exact deliverable_complete utf8Decoder hpiece

end Xperimentum.Terminal.LinuxParser
