import Mathlib
import Xperimentum.Terminal.ParserRuns

/-! UTF-8 mode: which characters `processByte:` prints, and when a text comes out unchanged. -/

namespace Xperimentum.Terminal.LinuxParser

open Xperimentum.Lib.Runs Xperimentum.Terminal.Charmaps

variable {σ : Type} {p q r : Parser σ} {host : Host σ} {o : Outcome σ} {us vs : List ℕ}

structure Puts (p : Parser σ) (us : List ℕ) (o : Outcome σ) : Prop where
  returned : o.returned = false
  printed : o.printed = us
  moved : ∃ x y, o.parser = setY y (setX x p)

lemma Puts.andThen {f : Parser σ → Outcome σ} (h : Puts p us o)
    (hf : ∀ x y, Puts p vs (f (setY y (setX x p)))) : Puts p (us ++ vs) (o.andThen f) := by
  obtain ⟨hr, hp, x, y, hq⟩ := h
  obtain ⟨hr', hp', hq'⟩ := hf x y
  simp only [Outcome.andThen, hr, Bool.false_eq_true, if_false]
  rw [hq]
  exact ⟨hr', by rw [hp, hp'], hq'⟩

lemma puts_tell (c : ScreenCall) (x y : ℤ) : Puts p [] (tell c (setY y (setX x p))) :=
  ⟨rfl, rfl, x, y, rfl⟩

lemma puts_stay (x y : ℤ) : Puts p [] (stay (setY y (setX x p))) := ⟨rfl, rfl, x, y, rfl⟩

/-- The `return` inside the scroll of a line feed: the region has no line to scroll. -/
def BlockedFeed (p : Parser σ) : Prop :=
  p.y + 1 = p.bottom ∧ (p.height < p.bottom ∨ p.bottom ≤ p.top ∨ scrollCount p.top p.bottom 1 < 1)

def BlockedWrap (p : Parser σ) : Prop := (p.width ≤ p.x ∧ p.decawm = true) ∧ BlockedFeed p

instance (p : Parser σ) : Decidable (BlockedFeed p) := inferInstanceAs (Decidable (_ ∧ _))

instance (p : Parser σ) : Decidable (BlockedWrap p) := inferInstanceAs (Decidable (_ ∧ _))

lemma blockedWrap_iff (hp : Sane p) :
    BlockedWrap p ↔ (p.x = p.width ∧ p.decawm = true) ∧ p.y + 1 = p.bottom ∧ p.bottom = p.top + 1 := by
  have hx := hp.x_le
  have ht := hp.top_lt
  have hb := hp.bottom_le
  simp only [BlockedWrap, BlockedFeed, scrollCount]
  constructor
  · rintro ⟨⟨hwx, hd⟩, hy, h⟩
    refine ⟨⟨by omega, hd⟩, hy, ?_⟩
    split_ifs at h <;> omega
  · rintro ⟨⟨hwx, hd⟩, hy, h⟩
    refine ⟨⟨by omega, hd⟩, hy, ?_⟩
    split_ifs <;> omega

lemma Puts.of_setX {x : ℤ} (h : Puts (setX x p) us o) : Puts p us o := by
  obtain ⟨hr, hp, x', y, hq⟩ := h
  exact ⟨hr, hp, x', y, hq⟩

lemma lf_puts (h : ¬BlockedFeed p) : Puts p [] (lf p) := by
  simp only [lf]
  split_ifs with hy
  · rw [scrup, if_neg fun hs => h ⟨hy, hs⟩]
    exact (puts_tell _ p.x p.y).andThen fun x y => puts_tell _ x y
  · exact puts_tell _ p.x (p.y + 1)
  · exact puts_stay p.x p.y

lemma lf_blocked (h : BlockedFeed p) : lf p = { parser := p, returned := true } := by
  rw [lf, if_pos h.1, scrup, if_pos h.2]

lemma autowrap_puts (h : ¬BlockedWrap p) : Puts p [] (autowrap p) := by
  simp only [autowrap]
  split_ifs with hw
  · have hl : Puts (setX 0 p) [] (lf (setX 0 p)) := lf_puts fun hs => h ⟨hw, hs⟩
    simpa only [cr, tsGoto, tell, Outcome.andThen, Bool.false_eq_true, if_false, List.nil_append]
      using ⟨hl.returned, hl.printed, hl.of_setX.moved⟩
  · exact puts_stay p.x p.y

lemma markCells_puts (ch : ScreenChar) (count x y : ℤ) : Puts p [] (markCells ch count (setY y (setX x p))) := by
  simp only [markCells]
  split_ifs
  · exact puts_tell _ (x + count) y
  · exact puts_stay x y

lemma advance_puts (ch : ScreenChar) (charWidth x y : ℤ) :
    Puts p [] (advance ch charWidth (setY y (setX x p))) := by
  simp only [advance]
  split_ifs
  · exact (markCells_puts ch _ (x + 1) y).andThen fun x y => puts_tell _ x y
  · exact puts_stay x y

lemma putGlyph_puts (ch : ScreenChar) (x y : ℤ) : Puts p [ch.ch] (putGlyph host ch (setY y (setX x p))) := by
  simp only [putGlyph]
  have hshift : Puts p [] (if (setY y (setX x p)).decim then
      tell (.shiftRow (setY y (setX x p)).y (setY y (setX x p)).x (relativeWidthOfCharacter host ch.ch))
        (setY y (setX x p)) else stay (setY y (setX x p))) := by
    split_ifs
    · exact puts_tell _ x y
    · exact puts_stay x y
  have hput : ∀ x y, Puts p [ch.ch] (putCell ch (setY y (setX x p))) := fun x y => ⟨rfl, rfl, x, y, rfl⟩
  exact (hshift.andThen hput).andThen fun x y => advance_puts ch _ x y

lemma putch_puts (ch : ScreenChar) (h : ¬BlockedWrap p) : Puts p [ch.ch] (putch host ch p) :=
  (autowrap_puts h).andThen fun x y => putGlyph_puts ch x y

lemma putch_blocked (host : Host σ) (ch : ScreenChar) (h : BlockedWrap p) :
    (putch host ch p).returned = true ∧ (putch host ch p).printed = [] := by
  have hl : lf (setX 0 p) = { parser := setX 0 p, returned := true } := lf_blocked h.2
  have hw : autowrap p = { parser := setX 0 p, calls := [.goto 0 p.y], returned := true } := by
    rw [autowrap, if_pos h.1, cr]
    simp only [tsGoto, tell, Outcome.andThen, hl]
    simp [setX]
  simp [putch, hw, Outcome.andThen]

structure Ready (p : Parser σ) : Prop where
  utf : p.utf = true
  state : p.vcState = .normal
  count : p.utfCount = 0
  buffer : p.inputBuf = []

def Printable (c : Char) : Prop :=
  0x20 ≤ c.toNat ∧ c.toNat ≠ 0x7f ∧ ¬(0x80 ≤ c.toNat ∧ c.toNat < 0xa0) ∧ c.toNat < 0x10000

instance (c : Char) : Decidable (Printable c) := inferInstanceAs (Decidable (_ ∧ _))

def encode (text : List Char) : List UInt8 := text.flatMap String.utf8EncodeChar

structure PrintsText (host : Host σ) (text : List Char) (p : Parser σ) : Prop where
  printed : (processBytes host (encode text) p).printed = text.map Char.toNat
  state : (processBytes host (encode text) p).parser.vcState = .normal
  count : (processBytes host (encode text) p).parser.utfCount = 0
  buffer : (processBytes host (encode text) p).parser.inputBuf = []

/-- The charset in force shows a printable ASCII character as itself. -/
def ShowsAscii (p : Parser σ) (c : Char) : Prop :=
  if p.iconvState.isSome = true ∧ p.translate = 0 then p.toggleMeta = false
  else translateMaps p.translate (metaByte (UInt8.ofNat c.toNat) p).toNat % 65536 = c.toNat

def CharOk (p : Parser σ) (c : Char) : Prop :=
  (c.toNat < 0x80 → ShowsAscii p c) ∧ (0x80 ≤ c.toNat → c.toNat % 64 ≠ 27) ∧
    (0x800 ≤ c.toNat → c.toNat / 64 % 64 ≠ 27) ∧ ¬BlockedWrap p

instance (p : Parser σ) (c : Char) : Decidable (ShowsAscii p c) :=
  inferInstanceAs (Decidable (if p.iconvState.isSome = true ∧ p.translate = 0 then p.toggleMeta = false
    else translateMaps p.translate (metaByte (UInt8.ofNat c.toNat) p).toNat % 65536 = c.toNat))

instance (p : Parser σ) (c : Char) : Decidable (CharOk p c) := inferInstanceAs (Decidable (_ ∧ _))

/-- The converter is one for a superset of ASCII. -/
structure AsciiCompatible (host : Host σ) : Prop where
  low : ∀ cd b, 0x20 ≤ b.toNat → b.toNat < 0x7f → (host.iconv cd [b]).output = some b.toNat ∧
    (host.iconv cd [b]).inSize = 0 ∧ (host.iconv cd [b]).status = .done
  high : ∀ cd b u, 0x80 ≤ b.toNat → (host.iconv cd [b]).output = some u → 0x80 ≤ u ∧ u < 0x10000

section Bytes

variable {b : UInt8} {bs : List UInt8}

lemma processByte_plain (h : 0x20 ≤ b.toNat) (hdel : b.toNat ≠ 0x7f) (hcsi : b.toNat ≠ 0x9b) :
    processByte host b p = processState host b p := by
  unfold processByte
  split <;> first | rfl | omega

lemma setState_self (h : p.vcState = .normal) : setState .normal p = p := by
  rw [← h]
  rfl

lemma processByte_normal (hs : p.vcState = .normal) (h : 0x20 ≤ b.toNat) (hdel : b.toNat ≠ 0x7f)
    (hcsi : b.toNat ≠ 0x9b) : processByte host b p = normalState host b p := by
  rw [processByte_plain h hdel hcsi]
  simp only [processState, hs]

lemma processByte_utf (hu : p.utf = true) (hs : p.vcState = .normal) (h : 0x80 ≤ b.toNat)
    (hcsi : b.toNat ≠ 0x9b) : processByte host b p = utfByte host b.toNat p := by
  rw [processByte_normal hs (by omega) (by omega) hcsi]
  simp only [normalState, setState_self hs]
  rw [if_pos ⟨hu, by omega⟩]

lemma processByte_csi (hcsi : b.toNat = 0x9b) : processByte host b p = stay (setState .square p) := by
  simp only [processByte, hcsi]

lemma ofNat_toNat {n : ℕ} (h : n < 256) : (UInt8.ofNat n).toNat = n := by
  simp [Nat.mod_eq_of_lt h]

lemma leadByte_two {a : ℕ} (ha : a < 32) : leadByte (a + 0xc0) p = setPartial 1 a p := by
  have h1 : ∀ e < 32, (e + 0xc0) &&& 0xe0 = 0xc0 := by decide
  have h2 : ∀ e < 32, (e + 0xc0) &&& 0x1f = e := by decide
  rw [leadByte, if_pos (h1 a ha), h2 a ha]

lemma leadByte_three {a : ℕ} (ha : a < 16) : leadByte (a + 0xe0) p = setPartial 2 a p := by
  have h1 : ∀ e < 16, (e + 0xe0) &&& 0xe0 ≠ 0xc0 := by decide
  have h2 : ∀ e < 16, (e + 0xe0) &&& 0xf0 = 0xe0 := by decide
  have h3 : ∀ e < 16, (e + 0xe0) &&& 0x0f = e := by decide
  rw [leadByte, if_neg (h1 a ha), if_pos (h2 a ha), h3 a ha]

lemma contByte_setPartial {n u d : ℕ} (hu : u < 2 ^ 20) (hd : d < 64) :
    contByte (d + 0x80) (setPartial (n + 1) u p) = setPartial n (u * 64 + d) p := by
  have hm : ∀ e < 64, (e + 0x80) &&& 0x3f = e := by decide
  have hor : u <<< 6 ||| d = u <<< 6 + d := (Nat.shiftLeft_add_eq_or_of_lt hd _).symm
  have hlt : u * 2 ^ 6 + d < 2 ^ 32 := by omega
  have hn : (u <<< 6 ||| (d + 0x80) &&& 0x3f) % 2 ^ 32 = u * 64 + d := by
    rw [hm d hd, hor, Nat.shiftLeft_eq, Nat.mod_eq_of_lt hlt]
    rfl
  show setPartial n ((u <<< 6 ||| (d + 0x80) &&& 0x3f) % 2 ^ 32) p = _
  rw [hn]

lemma lead_two (hr : Ready p) {a : ℕ} (ha : a < 32) :
    processByte host (UInt8.ofNat (a + 0xc0)) p = stay (setPartial 1 a p) := by
  have hb := ofNat_toNat (by omega : a + 0xc0 < 256)
  rw [processByte_utf hr.utf hr.state (by omega) (by omega), hb, utfByte,
    if_neg fun h => h.1 hr.count, leadByte_two ha]

lemma lead_three (hr : Ready p) {a : ℕ} (ha : a < 16) :
    processByte host (UInt8.ofNat (a + 0xe0)) p = stay (setPartial 2 a p) := by
  have hb := ofNat_toNat (by omega : a + 0xe0 < 256)
  rw [processByte_utf hr.utf hr.state (by omega) (by omega), hb, utfByte,
    if_neg fun h => h.1 hr.count, leadByte_three ha]

lemma cont_utfByte (hr : Ready p) (n u : ℕ) {d : ℕ} (hd : d < 64) (h27 : d ≠ 27) :
    processByte host (UInt8.ofNat (d + 0x80)) (setPartial (n + 1) u p) =
      if n ≠ 0 then stay (contByte (d + 0x80) (setPartial (n + 1) u p))
      else putUnich host (contByte (d + 0x80) (setPartial (n + 1) u p)) := by
  have hb := ofNat_toNat (by omega : d + 0x80 < 256)
  have hutf : (setPartial (n + 1) u p).utf = true := hr.utf
  have hstate : (setPartial (n + 1) u p).vcState = .normal := hr.state
  have hm : ∀ e < 64, (e + 0x80) &&& 0xc0 = 0x80 := by decide
  rw [processByte_utf hutf hstate (by omega) (by omega), hb, utfByte, if_pos ⟨Nat.succ_ne_zero n, hm d hd⟩]
  rfl

lemma cont_more (hr : Ready p) {n u d : ℕ} (hu : u < 2 ^ 20) (hd : d < 64) (h27 : d ≠ 27) :
    processByte host (UInt8.ofNat (d + 0x80)) (setPartial (n + 2) u p) =
      stay (setPartial (n + 1) (u * 64 + d) p) := by
  rw [cont_utfByte hr (n + 1) u hd h27, if_pos (Nat.succ_ne_zero n), contByte_setPartial hu hd]

lemma cont_last (hr : Ready p) {u d : ℕ} (hu : u < 2 ^ 20) (hd : d < 64) (h27 : d ≠ 27) :
    processByte host (UInt8.ofNat (d + 0x80)) (setPartial 1 u p) =
      putUnich host (setPartial 0 (u * 64 + d) p) := by
  rw [cont_utfByte hr 0 u hd h27, if_neg (by simp), contByte_setPartial hu hd]

lemma processBytes_stay (bs : List UInt8) (h : processByte host b p = stay q) :
    (processBytes host (b :: bs) p).parser = (processBytes host bs q).parser ∧
      (processBytes host (b :: bs) p).printed = (processBytes host bs q).printed := by
  simp [processBytes, h, stay]

lemma processBytes_single (host : Host σ) (b : UInt8) (p : Parser σ) :
    (processBytes host [b] p).parser = (processByte host b p).parser ∧
      (processBytes host [b] p).printed = (processByte host b p).printed := by
  simp [processBytes, stay]

/-- Feeding the bytes has the effect of printing the character in `unich`. -/
def Assembles (host : Host σ) (bs : List UInt8) (p q : Parser σ) : Prop :=
  (processBytes host bs p).parser = (putUnich host q).parser ∧
    (processBytes host bs p).printed = (putUnich host q).printed

lemma Assembles.cons (h : processByte host b p = stay q) (hq : Assembles host bs q r) :
    Assembles host (b :: bs) p r := by
  obtain ⟨hp, ht⟩ := processBytes_stay bs h
  exact ⟨hp.trans hq.1, ht.trans hq.2⟩

lemma Assembles.single (h : processByte host b p = putUnich host q) : Assembles host [b] p q := by
  obtain ⟨hp, ht⟩ := processBytes_single host b p
  rw [h] at hp ht
  exact ⟨hp, ht⟩

lemma assembles_two (hr : Ready p) {a d : ℕ} (ha : a < 32) (hd : d < 64) (h27 : d ≠ 27) :
    Assembles host [UInt8.ofNat (a + 0xc0), UInt8.ofNat (d + 0x80)] p (setPartial 0 (a * 64 + d) p) :=
  .cons (lead_two hr ha) (.single (cont_last hr (by omega) hd h27))

lemma assembles_three (hr : Ready p) {a d e : ℕ} (ha : a < 16) (hd : d < 64) (hd27 : d ≠ 27) (he : e < 64)
    (he27 : e ≠ 27) :
    Assembles host [UInt8.ofNat (a + 0xe0), UInt8.ofNat (d + 0x80), UInt8.ofNat (e + 0x80)] p
      (setPartial 0 ((a * 64 + d) * 64 + e) p) :=
  .cons (lead_three hr ha) (.cons (cont_more hr (by omega) hd hd27) (.single (cont_last hr (by omega) he he27)))

/-- The state machine is not back in `ESnormal` or a character is still partial. -/
def Broken (p : Parser σ) : Prop := p.vcState ≠ .normal ∨ p.utfCount ≠ 0

lemma broken_csi (hb : b.toNat = 0x9b) (p : Parser σ) : Broken (processByte host b p).parser := by
  rw [processByte_csi hb]
  exact .inl fun h => ESstate.noConfusion h

lemma broken_two (hr : Ready p) {a : ℕ} (ha : a < 32) (hb : b.toNat = 0x9b) :
    Broken (processBytes host [UInt8.ofNat (a + 0xc0), b] p).parser := by
  rw [(processBytes_stay [b] (lead_two hr ha)).1, (processBytes_single host b _).1]
  exact broken_csi hb _

lemma broken_three_last (hr : Ready p) {a d : ℕ} (ha : a < 16) (hd : d < 64) (hd27 : d ≠ 27)
    (hb : b.toNat = 0x9b) :
    Broken (processBytes host [UInt8.ofNat (a + 0xe0), UInt8.ofNat (d + 0x80), b] p).parser := by
  have hmore : processByte host (UInt8.ofNat (d + 0x80)) (setPartial 2 a p) = stay (setPartial 1 (a * 64 + d) p) :=
    cont_more hr (by omega) hd hd27
  rw [(processBytes_stay _ (lead_three hr ha)).1, (processBytes_stay [b] hmore).1,
    (processBytes_single host b _).1]
  exact broken_csi hb _

lemma byteChar_toNat (b : UInt8) : (byteChar b).toNat = b.toNat := by
  have hb : b.toNat < 256 := UInt8.toNat_lt b
  have hv : b.toNat.isValidChar := .inl (by omega)
  simp only [byteChar, Char.ofNat, dif_pos hv]
  rfl

lemma byteChar_ne (hb : 0x80 ≤ b.toNat) {c : Char} (hc : c.toNat < 0x80) : byteChar b ≠ c := by
  intro h
  have hn := byteChar_toNat b
  rw [h] at hn
  omega

lemma csiFinal_high (hb : 0x80 ≤ b.toNat) : csiFinal host b p = stay p := by
  unfold csiFinal
  split <;> first
    | rfl
    | exact absurd (by assumption) (byteChar_ne hb (by decide))

lemma gotparsState_high (hb : 0x80 ≤ b.toNat) (hq : p.ques = false) :
    gotparsState host b p = stay (setState .normal p) := by
  have hn : (setState .normal p).ques ≠ true := by
    rw [show (setState .normal p).ques = p.ques from rfl, hq]
    exact Bool.false_ne_true
  unfold gotparsState
  simp only
  split <;> first
    | rw [if_neg hn, csiFinal_high hb]
    | exact absurd (by assumption) (byteChar_ne hb (by decide))

lemma squareState_high (hb : 0x80 ≤ b.toNat) : (squareState host b p).parser.utfCount = p.utfCount := by
  have h1 : b.toNat ≠ 91 := by omega
  have h2 : ¬b.toNat = 63 := by omega
  have h3 : ¬b.toNat = 59 := by omega
  have h4 : ¬b.toNat ≤ 57 := by omega
  simp only [squareState, if_neg h1, h2, decide_false, Bool.false_eq_true, if_false, getparsState, h3, h4,
    false_and, and_false]
  rw [gotparsState_high hb rfl]
  rfl

lemma broken_three_middle (hr : Ready p) {a : ℕ} (ha : a < 16) {b' : UInt8} (hb : b.toNat = 0x9b)
    (hb' : 0x80 ≤ b'.toNat) : Broken (processBytes host [UInt8.ofNat (a + 0xe0), b, b'] p).parser := by
  rw [(processBytes_stay _ (lead_three hr ha)).1, (processBytes_stay [b'] (processByte_csi hb)).1,
    (processBytes_single host b' _).1]
  by_cases h : b'.toNat = 0x9b
  · exact broken_csi h _
  · rw [processByte_plain (by omega) (by omega) h]
    refine .inr ?_
    have hsq : (squareState host b' (setState .square (setPartial 2 a p))).parser.utfCount = 2 :=
      squareState_high hb'
    exact fun h0 => absurd (hsq.symm.trans h0) (Nat.succ_ne_zero 1)

end Bytes

lemma Ready.moved (hr : Ready p) (x y : ℤ) : Ready (setY y (setX x p)) := ⟨hr.utf, hr.state, hr.count, hr.buffer⟩

lemma Ready.setPartial (hr : Ready p) (u : ℕ) : Ready (setPartial 0 u p) := ⟨hr.utf, hr.state, rfl, hr.buffer⟩

def Wellformed27 (v : ℕ) : Prop := v % 64 ≠ 27 ∧ (0x800 ≤ v → v / 64 % 64 ≠ 27)

lemma encode_wide (host : Host σ) (hr : Ready p) {c : Char} (h80 : 0x80 ≤ c.toNat) (hlt : c.toNat < 0x10000) :
    (Wellformed27 c.toNat ∧ Assembles host (encode [c]) p (setPartial 0 c.toNat p)) ∨
      (¬Wellformed27 c.toNat ∧ Broken (processBytes host (encode [c]) p).parser) := by
  have henc : encode [c] = String.utf8EncodeChar c := by simp [encode]
  have hv : c.val.toNat = c.toNat := rfl
  have hcsi : ∀ n, n % 64 = 27 → (UInt8.ofNat (n % 64 + 0x80)).toNat = 0x9b := by
    intro n hn
    rw [hn]
    rfl
  rw [henc, String.utf8EncodeChar]
  simp only [hv]
  generalize c.toNat = v at h80 hlt
  rw [if_neg (by omega)]
  by_cases h2 : v ≤ 0x7ff
  · rw [if_pos h2]
    by_cases hd : v % 64 = 27
    · exact .inr ⟨fun h => h.1 hd, broken_two hr (by omega) (hcsi v hd)⟩
    · have ha : Assembles host _ p (setPartial 0 (v / 64 % 32 * 64 + v % 64) p) :=
        assembles_two hr (Nat.mod_lt (v / 64) (by decide)) (Nat.mod_lt v (by decide)) hd
      rw [show v / 64 % 32 * 64 + v % 64 = v by omega] at ha
      exact .inl ⟨⟨hd, fun h => absurd h (by omega)⟩, ha⟩
  · rw [if_neg h2, if_pos (by omega)]
    by_cases hm : v / 64 % 64 = 27
    · refine .inr ⟨fun h => h.2 (by omega) hm, broken_three_middle hr (by omega) (hcsi _ hm) ?_⟩
      rw [ofNat_toNat (by omega)]
      omega
    · by_cases hd : v % 64 = 27
      · exact .inr ⟨fun h => h.1 hd, broken_three_last hr (by omega) (by omega) hm (hcsi v hd)⟩
      · have ha : Assembles host _ p (setPartial 0 ((v / 4096 % 16 * 64 + v / 64 % 64) * 64 + v % 64) p) :=
          assembles_three hr (Nat.mod_lt (v / 4096) (by decide)) (Nat.mod_lt (v / 64) (by decide)) hm
            (Nat.mod_lt v (by decide)) hd
        rw [show (v / 4096 % 16 * 64 + v / 64 % 64) * 64 + v % 64 = v by omega] at ha
        exact .inl ⟨⟨hd, fun _ => hm⟩, ha⟩

lemma putUnich_ready (host : Host σ) (hr : Ready p) (hb : ¬BlockedWrap p) :
    Ready (putUnich host p).parser ∧ (putUnich host p).printed = [p.unich % 65536] := by
  have hp : Puts p _ (putch host (charOf p.unich p) p) := putch_puts _ hb
  obtain ⟨-, ht, x, y, hq⟩ := hp
  refine ⟨?_, ht⟩
  rw [putUnich, hq]
  exact hr.moved x y

lemma putUnich_blocked (host : Host σ) (hb : BlockedWrap p) : (putUnich host p).printed = [] :=
  (putch_blocked host _ hb).2

section Ascii

variable {b : UInt8}

lemma processByte_table (hr : Ready p) (hl : 0x20 ≤ b.toNat) (hu : b.toNat < 0x7f)
    (ht : ¬(p.iconvState.isSome = true ∧ p.translate = 0)) :
    processByte host b p = putUnich host (setUnich (translateMaps p.translate (metaByte b p).toNat) p) := by
  rw [processByte_normal hr.state hl (by omega) (by omega)]
  simp only [normalState, setState_self hr.state]
  rw [if_neg fun h => absurd h.2 (by omega)]
  split
  · next cd hi h0 => exact absurd ⟨by rw [hi]; rfl, of_decide_eq_true h0⟩ ht
  · rfl

lemma processByte_iconv (hr : Ready p) (hl : 0x20 ≤ b.toNat) (hu : b.toNat < 0x7f) {cd : σ}
    (hi : p.iconvState = some cd) (ht : p.translate = 0) :
    processByte host b p =
      convert host (charOf 0 p) cd [metaByte b p] (setInputBuf [metaByte b p] p) := by
  rw [processByte_normal hr.state hl (by omega) (by omega)]
  simp only [normalState, setState_self hr.state]
  rw [if_neg fun h => absurd h.2 (by omega)]
  simp [hi, ht, iconvInput, hr.buffer, inputBufSize]

lemma convert_done {ch : ScreenChar} {cd : σ} {inp : List UInt8} {u : ℕ}
    (ho : (host.iconv cd inp).output = some u) (hs : (host.iconv cd inp).status = .done) :
    convert host ch cd inp p =
      (putch host { ch with ch := u % 65536 }
        (setUnich (ntohl u) (setIconvState (host.iconv cd inp).descriptor p))).andThen fun q =>
          stay (setInputBuf (inp.drop (inp.length - (host.iconv cd inp).inSize)) q) := by
  rw [convert]
  simp only [ho]
  congr 1
  funext q
  split <;> simp_all

lemma convert_low (hi : AsciiCompatible host) (hr : Ready p) (hl : 0x20 ≤ b.toNat) (hu : b.toNat < 0x7f)
    (hb : ¬BlockedWrap p) (ch : ScreenChar) (cd : σ) :
    Ready (convert host ch cd [b] (setInputBuf [b] p)).parser ∧
      (convert host ch cd [b] (setInputBuf [b] p)).printed = [b.toNat] := by
  obtain ⟨ho, hsz, hs⟩ := hi.low cd b hl hu
  let q := setUnich (ntohl b.toNat) (setIconvState (host.iconv cd [b]).descriptor (setInputBuf [b] p))
  have hbq : ¬BlockedWrap q := hb
  have hq : Puts q _ (putch host { ch with ch := b.toNat % 65536 } q) := putch_puts _ hbq
  obtain ⟨hret, hprt, x, y, hpar⟩ := hq
  have hmod : b.toNat % 65536 = b.toNat := Nat.mod_eq_of_lt (by omega)
  obtain ⟨hp, ht⟩ := Outcome.andThen_stay hret (setInputBuf ([b].drop ([b].length - 0)))
  rw [convert_done ho hs, hsz, hp, ht, hpar, hprt]
  exact ⟨⟨hr.utf, hr.state, hr.count, rfl⟩, congrArg (fun n => [n]) hmod⟩

lemma convert_blocked (hi : AsciiCompatible host) (hl : 0x20 ≤ b.toNat) (hu : b.toNat < 0x7f)
    (hb : BlockedWrap p) (ch : ScreenChar) (cd : σ) :
    (convert host ch cd [b] (setInputBuf [b] p)).printed = [] := by
  obtain ⟨ho, -, hs⟩ := hi.low cd b hl hu
  let q := setUnich (ntohl b.toNat) (setIconvState (host.iconv cd [b]).descriptor (setInputBuf [b] p))
  have hq : BlockedWrap q := hb
  obtain ⟨hret, hprt⟩ := putch_blocked host { ch with ch := b.toNat % 65536 } hq
  rw [convert_done ho hs, Outcome.andThen, if_pos hret]
  exact hprt

lemma mem_andThen_printed {f : Parser σ → Outcome σ} {n : ℕ} (h : n ∈ (o.andThen f).printed) :
    n ∈ o.printed ∨ n ∈ (f o.parser).printed := by
  simp only [Outcome.andThen] at h
  split_ifs at h
  · exact .inl h
  · exact List.mem_append.mp h

lemma mem_putch_printed {ch : ScreenChar} {n : ℕ} (h : n ∈ (putch host ch p).printed) : n = ch.ch := by
  by_cases hb : BlockedWrap p
  · rw [(putch_blocked host ch hb).2] at h
    exact absurd h List.not_mem_nil
  · have hp : Puts p _ (putch host ch p) := putch_puts ch hb
    rw [hp.printed] at h
    exact List.mem_singleton.mp h

lemma convert_high (hi : AsciiCompatible host) (hb : 0x80 ≤ b.toNat) {ch : ScreenChar} {cd : σ} {n : ℕ}
    (h : n ∈ (convert host ch cd [b] p).printed) : 0x80 ≤ n := by
  rw [convert] at h
  rcases mem_andThen_printed h with h | h
  · cases ho : (host.iconv cd [b]).output with
    | none => simp [ho, stay] at h
    | some u =>
      obtain ⟨hlo, hhi⟩ := hi.high cd b u hb ho
      simp only [ho] at h
      have hn := mem_putch_printed h
      simp only at hn
      omega
  · split at h
    · simp [stay] at h
    · simp [stay] at h
    · rcases mem_andThen_printed h with h | h
      · rw [mem_putch_printed h]
        exact Nat.le_of_ble_eq_true rfl
      · simp [stay] at h
    · next hs =>
      have hlt := host.iconv_e2big cd [b] hs
      have hz : (host.iconv cd [b]).inSize = 0 := by simpa using hlt
      rw [if_pos (by rw [hz]; rfl)] at h
      simp [stay] at h

lemma metaByte_off (b : UInt8) (h : p.toggleMeta = false) : metaByte b p = b := by
  rw [metaByte, h]
  rfl

lemma metaByte_on (b : UInt8) (h : p.toggleMeta = true) : 0x80 ≤ (metaByte b p).toNat := by
  rw [metaByte, h, if_pos rfl, UInt8.toNat_or]
  exact Nat.right_le_or

end Ascii

lemma encode_ascii {c : Char} (h : c.toNat < 0x80) : encode [c] = [UInt8.ofNat c.toNat] := by
  have hv : c.val.toNat ≤ 0x7f := Nat.le_of_lt_succ h
  simp only [encode, List.flatMap_cons, List.flatMap_nil, List.append_nil, String.utf8EncodeChar, if_pos hv]
  rfl

lemma ascii_iff (hi : AsciiCompatible host) (hr : Ready p) {c : Char} (hc : Printable c) (h : c.toNat < 0x80) :
    ((ShowsAscii p c ∧ ¬BlockedWrap p) → (processBytes host (encode [c]) p).printed = [c.toNat] ∧
        Ready (processBytes host (encode [c]) p).parser) ∧
      (¬(ShowsAscii p c ∧ ¬BlockedWrap p) → (processBytes host (encode [c]) p).printed ≠ [c.toNat]) := by
  obtain ⟨hl, hdel, -, -⟩ := hc
  have hb := ofNat_toNat (by omega : c.toNat < 256)
  obtain ⟨hpar, hprt⟩ := processBytes_single host (UInt8.ofNat c.toNat) p
  rw [encode_ascii h, hpar, hprt]
  by_cases ht : p.iconvState.isSome = true ∧ p.translate = 0
  · obtain ⟨cd, hcd⟩ := Option.isSome_iff_exists.mp ht.1
    rw [processByte_iconv hr (by omega) (by omega) hcd ht.2, ShowsAscii, if_pos ht]
    cases hm : p.toggleMeta with
    | false =>
      rw [metaByte_off _ hm]
      constructor
      · rintro ⟨-, hblk⟩
        have hlow := convert_low hi hr (hb.symm ▸ hl) (by omega) hblk (charOf 0 p) cd
        rw [hb] at hlow
        exact ⟨hlow.2, hlow.1⟩
      · intro hn
        have hblk : BlockedWrap p := by
          by_contra hblk
          exact hn ⟨rfl, hblk⟩
        rw [convert_blocked hi (by omega) (by omega) hblk]
        exact List.cons_ne_nil _ _ ∘ Eq.symm
    | true =>
      refine ⟨fun h => absurd h.1 (by simp), fun _ heq => ?_⟩
      have hmem := convert_high hi (metaByte_on (UInt8.ofNat c.toNat) hm) (heq ▸ List.mem_singleton_self c.toNat)
      omega
  · rw [processByte_table hr (by omega) (by omega) ht, ShowsAscii, if_neg ht]
    set q := setUnich (translateMaps p.translate (metaByte (UInt8.ofNat c.toNat) p).toNat) p with hq
    have hready : Ready q := ⟨hr.utf, hr.state, hr.count, hr.buffer⟩
    by_cases hblk : BlockedWrap p
    · have hblkq : BlockedWrap q := hblk
      refine ⟨fun h => absurd hblk h.2, fun _ => ?_⟩
      rw [putUnich_blocked host hblkq]
      exact List.cons_ne_nil _ _ ∘ Eq.symm
    · obtain ⟨hq, hp⟩ := putUnich_ready host hready hblk
      constructor
      · rintro ⟨hs, -⟩
        exact ⟨hp.trans (congrArg (fun n => [n]) hs), hq⟩
      · intro hn heq
        rw [hp] at heq
        exact hn ⟨List.singleton_injective heq, hblk⟩

lemma char_iff (hi : AsciiCompatible host) (hr : Ready p) {c : Char} (hc : Printable c) :
    (CharOk p c → (processBytes host (encode [c]) p).printed = [c.toNat] ∧
        Ready (processBytes host (encode [c]) p).parser) ∧
      (¬CharOk p c → (processBytes host (encode [c]) p).printed ≠ [c.toNat] ∨
        Broken (processBytes host (encode [c]) p).parser) := by
  by_cases h : c.toNat < 0x80
  · obtain ⟨hok, hbad⟩ := ascii_iff hi hr hc h
    refine ⟨fun hs => hok ⟨hs.1 h, hs.2.2.2⟩, fun hn => .inl (hbad fun hs => hn ⟨fun _ => hs.1, ?_, ?_, hs.2⟩)⟩
    · exact fun h' => absurd h' (by omega)
    · exact fun h' => absurd h' (by omega)
  · have h80 : 0x80 ≤ c.toNat := Nat.le_of_not_lt h
    rcases encode_wide host hr h80 hc.2.2.2 with ⟨hw, hpar, hprt⟩ | ⟨hw, hbr⟩
    · rw [hpar, hprt]
      by_cases hblk : BlockedWrap p
      · refine ⟨fun hs => absurd hblk hs.2.2.2, fun _ => .inl ?_⟩
        rw [putUnich_blocked host (show BlockedWrap (setPartial 0 c.toNat p) from hblk)]
        exact List.cons_ne_nil _ _ ∘ Eq.symm
      · obtain ⟨hq, hp⟩ := putUnich_ready host (hr.setPartial c.toNat) hblk
        refine ⟨fun _ => ⟨?_, hq⟩, fun hn => absurd ⟨fun h' => absurd h' h, fun _ => hw.1, hw.2, hblk⟩ hn⟩
        rw [hp, show (setPartial 0 c.toNat p).unich = c.toNat from rfl, Nat.mod_eq_of_lt (by have := hc.2.2.2; omega)]
    · exact ⟨fun hs => absurd ⟨hs.2.1 h80, hs.2.2.1⟩ hw, fun _ => .inr hbr⟩

def feedChar (host : Host σ) (p : Parser σ) (c : Char) : Parser σ := (processBytes host (encode [c]) p).parser

lemma processBytes_append (host : Host σ) (bs cs : List UInt8) (p : Parser σ) :
    (processBytes host (bs ++ cs) p).parser =
        (processBytes host cs (processBytes host bs p).parser).parser ∧
      (processBytes host (bs ++ cs) p).printed =
        (processBytes host bs p).printed ++ (processBytes host cs (processBytes host bs p).parser).printed := by
  induction bs generalizing p with
  | nil => exact ⟨rfl, rfl⟩
  | cons b bs ih =>
    obtain ⟨hp, ht⟩ := ih (processByte host b p).parser
    simp only [List.cons_append, processBytes, hp, ht, List.append_assoc, and_self]

/-- The text and each of its prefixes is printed: every character fed has come out. -/
def PrintsPrefixes (host : Host σ) (text : List Char) (p : Parser σ) : Prop :=
  ∀ pre, pre <+: text → PrintsText host pre p

lemma printsText_nil (hr : Ready p) : PrintsText host [] p := ⟨rfl, hr.state, hr.count, hr.buffer⟩

lemma printsText_cons {c : Char} (text : List Char)
    (hc : (processBytes host (encode [c]) p).printed = [c.toNat]) :
    PrintsText host (c :: text) p ↔ PrintsText host text (feedChar host p c) := by
  have henc : encode (c :: text) = encode [c] ++ encode text := by simp [encode]
  obtain ⟨hp, ht⟩ := processBytes_append host (encode [c]) (encode text) p
  rw [← henc] at hp ht
  rw [hc] at ht
  constructor
  · rintro ⟨hprt, hs, hn, hb⟩
    rw [hp] at hs hn hb
    rw [ht] at hprt
    exact ⟨List.tail_eq_of_cons_eq hprt, hs, hn, hb⟩
  · rintro ⟨hprt, hs, hn, hb⟩
    refine ⟨?_, hp ▸ hs, hp ▸ hn, hp ▸ hb⟩
    rw [ht, feedChar] at *
    rw [hprt]
    rfl

lemma charOk_of_printsText (hi : AsciiCompatible host) (hr : Ready p) {c : Char} (hc : Printable c)
    (h : PrintsText host [c] p) : CharOk p c := by
  by_contra hn
  rcases (char_iff hi hr hc).2 hn with hprt | hs | hcount
  · exact hprt h.printed
  · exact hs h.state
  · exact hcount h.count

theorem printsPrefixes_iff (host : Host σ) (hi : AsciiCompatible host) (p : Parser σ) (hr : Ready p)
    (text : List Char) (ht : ∀ c ∈ text, Printable c) :
    PrintsPrefixes host text p ↔ Along (feedChar host) CharOk p text := by
  induction text generalizing p with
  | nil =>
    refine ⟨fun _ => trivial, fun _ pre hpre => ?_⟩
    rw [List.prefix_nil.mp hpre]
    exact printsText_nil hr
  | cons c text ih =>
    obtain ⟨hc, htext⟩ := List.forall_mem_cons.mp ht
    constructor
    · intro h
      have hok := charOk_of_printsText hi hr hc (h [c] ⟨text, rfl⟩)
      obtain ⟨hprt, hready⟩ := (char_iff hi hr hc).1 hok
      refine ⟨hok, (ih (feedChar host p c) hready htext).mp fun pre hpre => ?_⟩
      exact (printsText_cons pre hprt).mp (h (c :: pre) (List.cons_prefix_cons.mpr ⟨rfl, hpre⟩))
    · rintro ⟨hok, hrest⟩ pre hpre
      obtain ⟨hprt, hready⟩ := (char_iff hi hr hc).1 hok
      cases pre with
      | nil => exact printsText_nil hr
      | cons d pre =>
        obtain ⟨rfl, htail⟩ := List.cons_prefix_cons.mp hpre
        exact (printsText_cons pre hprt).mpr ((ih (feedChar host p d) hready htext).mpr hrest pre htail)

/-- The parser after the initialiser and `ESC % G`. -/
def utf8Terminal : Parser Unit :=
  run (step latinHost) (initial size80x24 none) (typed "\x1b%G")

lemma utf8Terminal_ready : Ready utf8Terminal := by
  constructor <;> decide

lemma latinHost_compatible : AsciiCompatible latinHost where
  low _ b _ _ := ⟨rfl, rfl, rfl⟩
  high _ b u hb h := by
    obtain rfl : b.toNat = u := Option.some.inj h
    exact ⟨hb, b.toNat_lt.trans (by decide)⟩

theorem printsPrefixes_greeting : PrintsPrefixes latinHost ['h', 'é', '€', 'ж'] utf8Terminal := by
  have ht : ∀ c ∈ ['h', 'é', '€', 'ж'], Printable c := by
    simp only [List.forall_mem_cons]
    exact ⟨by decide, by decide, by decide, by decide, fun c hc => absurd hc List.not_mem_nil⟩
  refine (printsPrefixes_iff latinHost latinHost_compatible utf8Terminal utf8Terminal_ready _ ht).mpr ?_
  decide

/-- The second byte of U+06DB is 0x9B, which starts a control sequence. -/
theorem printsText_csi_byte :
    Ready utf8Terminal ∧ Printable (Char.ofNat 0x6db) ∧ ¬PrintsText latinHost [Char.ofNat 0x6db] utf8Terminal := by
  refine ⟨utf8Terminal_ready, by decide, fun h => ?_⟩
  have hs : (processBytes latinHost (encode [Char.ofNat 0x6db]) utf8Terminal).parser.vcState ≠ .normal := by
    decide
  exact hs h.state

end Xperimentum.Terminal.LinuxParser
