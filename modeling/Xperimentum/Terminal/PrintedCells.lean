import Mathlib.Tactic
import Xperimentum.Terminal.RowBounds
import Xperimentum.Terminal.Utf8Printing

/-! The cell that a printed byte is stored in, in autowrap mode and with a character set of single bytes. -/

namespace Xperimentum.Terminal.LinuxParser

open Xperimentum.Terminal.Charmaps

variable {σ : Type} {host : Host σ} {p : Parser σ} {c : UInt8}

/-- The row after a line feed. -/
def fedRow (p : Parser σ) : ℤ :=
  if p.y + 1 = p.bottom then p.y else if p.y < p.height - 1 then p.y + 1 else p.y

/-- The column and the row after the pending wrap. -/
def wrapped (p : Parser σ) : ℤ × ℤ := if p.width ≤ p.x then (0, fedRow p) else (p.x, p.y)

lemma lf_free (h : ¬BlockedFeed p) : (lf p).returned = false ∧ (lf p).parser = setY (fedRow p) p := by
  rw [lf, fedRow]
  split_ifs with hy
  · rw [scrup, if_neg fun hs => h ⟨hy, hs⟩]
    exact ⟨rfl, rfl⟩
  · exact ⟨rfl, rfl⟩
  · exact ⟨rfl, rfl⟩

lemma autowrap_free (h : ¬BlockedWrap p) (hd : p.decawm = true) :
    (autowrap p).returned = false ∧ (autowrap p).parser = setY (wrapped p).2 (setX (wrapped p).1 p) := by
  rw [autowrap, wrapped]
  by_cases hx : p.width ≤ p.x
  · rw [if_pos ⟨hx, hd⟩, if_pos hx]
    exact lf_free (p := setX 0 p) fun hs => h ⟨⟨hx, hd⟩, hs⟩
  · rw [if_neg fun hw => hx hw.1, if_neg hx]
    exact ⟨rfl, rfl⟩

lemma autowrap_blocked (h : BlockedWrap p) :
    autowrap p = { parser := setX 0 p, calls := [.goto 0 p.y], returned := true } := by
  have hl : lf (setX 0 p) = { parser := setX 0 p, returned := true } := lf_blocked h.2
  rw [autowrap, if_pos h.1, cr]
  simp only [tsGoto, tell, Outcome.andThen, hl]
  rfl

lemma lf_calls (p : Parser σ) : (lf p).calls =
    if p.y + 1 = p.bottom then
      if p.height < p.bottom ∨ p.bottom ≤ p.top ∨ scrollCount p.top p.bottom 1 < 1 then []
      else
        [.scrollUp p.top p.bottom (scrollCount p.top p.bottom 1) (decide (p.top = 0 ∧ p.bottom = p.height)),
          .putCharOffset p.videoEraseChar (p.width * scrollCount p.top p.bottom 1)
            (p.width * (p.bottom - scrollCount p.top p.bottom 1))]
    else if p.y < p.height - 1 then [.goto p.x (p.y + 1)]
    else [] := by
  rw [lf, scrup]
  split_ifs <;> rfl

lemma autowrap_calls (p : Parser σ) : (autowrap p).calls =
    if p.width ≤ p.x ∧ p.decawm = true then .goto 0 p.y :: (lf (setX 0 p)).calls else [] := by
  rw [autowrap]
  split_ifs <;> rfl

lemma autowrap_converting (n : ℕ) (cd : Option σ) (inp : List UInt8) (p : Parser σ) :
    (autowrap { p with unich := n, iconvState := cd, inputBuf := inp }).calls = (autowrap p).calls := by
  rw [autowrap_calls, autowrap_calls, lf_calls, lf_calls]
  rfl

lemma wrapped_mem (hp : Sane p) : 0 ≤ (wrapped p).1 ∧ (wrapped p).1 < p.width ∧ 0 ≤ (wrapped p).2 ∧
    (wrapped p).2 < p.height := by
  have hx0 := hp.x_nonneg
  have hw := hp.width_pos
  have hy0 := hp.y_nonneg
  have hy := hp.y_lt
  rw [wrapped, fedRow]
  split_ifs <;> dsimp only <;> omega

/-- The glyph is one cell wide, or only one cell of the row is left. -/
def OneCell (host : Host σ) (ch : ℕ) (p : Parser σ) : Prop :=
  relativeWidthOfCharacter host ch = 1 ∨ (wrapped p).1 + 1 = p.width

def storeCalls (ch : ScreenChar) (p : Parser σ) : List ScreenCall :=
  [.putCharAt ch 1 (wrapped p).1 (wrapped p).2, .goto ((wrapped p).1 + 1) (wrapped p).2]

lemma markedCells_pos (host : Host σ) (ch : ℕ) {q : Parser σ} (hq : q.x < q.width) :
    0 < markedCells (relativeWidthOfCharacter host ch) (setX (q.x + 1) q) ↔
      ¬(relativeWidthOfCharacter host ch = 1 ∨ q.x + 1 = q.width) := by
  have hpos := relativeWidth_pos host ch
  rw [markedCells]
  change 0 < (if q.width < relativeWidthOfCharacter host ch - 1 + (q.x + 1) then q.width - (q.x + 1)
    else relativeWidthOfCharacter host ch - 1) ↔ _
  split_ifs <;> omega

lemma advance_one (ch : ScreenChar) {charWidth : ℤ} {q : Parser σ} (hq : q.x < q.width)
    (hone : ¬0 < markedCells charWidth (setX (q.x + 1) q)) :
    advance ch charWidth q = { parser := setX (q.x + 1) q, calls := [.goto (q.x + 1) q.y] } := by
  rw [advance, if_pos hq]
  dsimp only
  rw [markCells, if_neg hone]
  rfl

lemma advance_more (ch : ScreenChar) {charWidth : ℤ} {q : Parser σ} (hq : q.x < q.width)
    (hmore : 0 < markedCells charWidth (setX (q.x + 1) q)) :
    q.x + 1 < (advance ch charWidth q).parser.x := by
  rw [advance, if_pos hq]
  dsimp only
  rw [markCells, if_pos hmore]
  change q.x + 1 < q.x + 1 + markedCells charWidth (setX (q.x + 1) q)
  omega

lemma advance_tells (ch : ScreenChar) (charWidth : ℤ) {q : Parser σ} (hq : q.x < q.width) :
    1 ≤ (advance ch charWidth q).calls.length := by
  rw [advance, if_pos hq]
  dsimp only
  rw [markCells]
  split_ifs
  · exact Nat.le_succ 1
  · exact le_rfl

lemma putGlyph_eq (host : Host σ) (ch : ScreenChar) {q : Parser σ} (hd : q.decim = false) :
    (putGlyph host ch q).parser = (advance ch (relativeWidthOfCharacter host ch.ch) q).parser ∧
      (putGlyph host ch q).calls =
        .putCharAt ch 1 q.x q.y :: (advance ch (relativeWidthOfCharacter host ch.ch) q).calls ∧
      (putGlyph host ch q).returned = (advance ch (relativeWidthOfCharacter host ch.ch) q).returned := by
  rw [putGlyph, hd]
  exact ⟨rfl, rfl, rfl⟩

lemma advance_returned (ch : ScreenChar) (charWidth : ℤ) (q : Parser σ) : (advance ch charWidth q).returned = false :=
  (advance_puts ch charWidth q.x q.y).returned

lemma putch_free (host : Host σ) (ch : ScreenChar) (hb : ¬BlockedWrap p) (hd : p.decawm = true) :
    (putch host ch p).parser = (putGlyph host ch (setY (wrapped p).2 (setX (wrapped p).1 p))).parser ∧
      (putch host ch p).calls =
        (autowrap p).calls ++ (putGlyph host ch (setY (wrapped p).2 (setX (wrapped p).1 p))).calls ∧
      (putch host ch p).returned =
        (putGlyph host ch (setY (wrapped p).2 (setX (wrapped p).1 p))).returned := by
  obtain ⟨hr, hq⟩ := autowrap_free hb hd
  rw [putch, Outcome.andThen, if_neg (by rw [hr]; decide), hq]
  exact ⟨rfl, rfl, rfl⟩

section Put

variable (host) (hp : Sane p) (hd : p.decawm = true) (hi : p.decim = false) (ch : ScreenChar)
include hp hd hi

lemma putch_one (hb : ¬BlockedWrap p) (hone : OneCell host ch.ch p) :
    (putch host ch p).parser = setX ((wrapped p).1 + 1) (setY (wrapped p).2 p) ∧
      (putch host ch p).calls = (autowrap p).calls ++ storeCalls ch p ∧ (putch host ch p).returned = false := by
  obtain ⟨hparser, hcalls, hreturned⟩ := putch_free host ch hb hd
  obtain ⟨hparser', hcalls', hreturned'⟩ :=
    putGlyph_eq host ch (q := setY (wrapped p).2 (setX (wrapped p).1 p)) hi
  obtain ⟨_, hx, _, _⟩ := wrapped_mem hp
  have hmark := (markedCells_pos host ch.ch (q := setY (wrapped p).2 (setX (wrapped p).1 p)) hx).not.mpr
    (not_not.mpr hone)
  rw [advance_one ch hx hmark] at hparser' hcalls' hreturned'
  exact ⟨hparser.trans hparser', hcalls.trans (congrArg _ hcalls'), hreturned.trans hreturned'⟩

lemma putch_x (h : BlockedWrap p ∨ ¬OneCell host ch.ch p) : (putch host ch p).parser.x ≠ (wrapped p).1 + 1 := by
  by_cases hb : BlockedWrap p
  · have hx : (putch host ch p).parser.x = 0 := by
      rw [putch, autowrap_blocked hb]
      rfl
    obtain ⟨hx0, _, _, _⟩ := wrapped_mem hp
    omega
  · obtain ⟨hparser, _, _⟩ := putch_free host ch hb hd
    obtain ⟨hparser', _, _⟩ := putGlyph_eq host ch (q := setY (wrapped p).2 (setX (wrapped p).1 p)) hi
    obtain ⟨_, hx, _, _⟩ := wrapped_mem hp
    have hmark := (markedCells_pos host ch.ch (q := setY (wrapped p).2 (setX (wrapped p).1 p)) hx).mpr
      (h.resolve_left hb)
    have hmore := advance_more ch hx hmark
    rw [hparser, hparser']
    exact ne_of_gt hmore

lemma putch_calls (hb : ¬BlockedWrap p) :
    (putch host ch p).returned = false ∧ (autowrap p).calls.length + 2 ≤ (putch host ch p).calls.length := by
  obtain ⟨_, hcalls, hreturned⟩ := putch_free host ch hb hd
  obtain ⟨_, hcalls', hreturned'⟩ := putGlyph_eq host ch (q := setY (wrapped p).2 (setX (wrapped p).1 p)) hi
  obtain ⟨_, hx, _, _⟩ := wrapped_mem hp
  refine ⟨(hreturned.trans hreturned').trans (advance_returned ..), ?_⟩
  have hgoto : 1 ≤ (advance ch (relativeWidthOfCharacter host ch.ch)
      (setY (wrapped p).2 (setX (wrapped p).1 p))).calls.length :=
    advance_tells ch _ hx
  rw [hcalls, hcalls', List.length_append, List.length_cons]
  omega

end Put

variable {o : Outcome σ} {f : Parser σ → Outcome σ}

lemma tells_andThen (f : Parser σ → Outcome σ) (h : o.calls ≠ []) : (o.andThen f).calls ≠ [] := by
  rw [Outcome.andThen]
  split_ifs
  · exact h
  · exact List.append_ne_nil_of_left_ne_nil h _

lemma andThen_tells (hr : o.returned = false) (h : (f o.parser).calls ≠ []) : (o.andThen f).calls ≠ [] := by
  rw [Outcome.andThen, if_neg (by rw [hr]; decide)]
  exact List.append_ne_nil_of_right_ne_nil _ h

lemma putch_tells (host : Host σ) (ch : ScreenChar) (p : Parser σ) : (putch host ch p).calls ≠ [] := by
  rw [putch, autowrap]
  split_ifs with hw
  · exact tells_andThen _ (tells_andThen _ (List.cons_ne_nil _ _))
  · refine andThen_tells rfl (tells_andThen _ (andThen_tells ?_ (List.cons_ne_nil _ _)))
    split_ifs <;> rfl

lemma andThen_setInputBuf (inp : List UInt8) (o : Outcome σ) :
    (o.andThen fun q => stay (setInputBuf inp q)).parser.x = o.parser.x ∧
      (o.andThen fun q => stay (setInputBuf inp q)).parser.y = o.parser.y ∧
        (o.andThen fun q => stay (setInputBuf inp q)).calls = o.calls := by
  rw [Outcome.andThen]
  split_ifs
  · exact ⟨rfl, rfl, rfl⟩
  · exact ⟨rfl, rfl, List.append_nil _⟩

/-! What `processByte:` prints for a byte of a set of single bytes. -/

/-- The converter gives a character for every byte. -/
structure SingleByte (host : Host σ) : Prop where
  output : ∀ cd b bs, (host.iconv cd (b :: bs)).output.isSome
  inSize : ∀ cd b bs, (host.iconv cd (b :: bs)).inSize = bs.length
  status : ∀ cd b bs, (host.iconv cd (b :: bs)).status = if bs = [] then .done else .e2big

/-- A byte that is not a control character; 0x9B is `CSI`. -/
def PrintableByte (c : UInt8) : Prop := 0x20 ≤ c.toNat ∧ c.toNat ≠ 0x7f ∧ c.toNat ≠ 0x9b

def UsesIconv (p : Parser σ) : Prop := p.iconvState.isSome ∧ p.translate = 0

/-- The character that the byte stands for, by the converter or by the table in force. -/
def shownChar (host : Host σ) (c : UInt8) (p : Parser σ) : ScreenChar :=
  match p.iconvState, decide (p.translate = 0) with
  | some cd, true => { charOf 0 p with ch := (host.iconv cd [metaByte c p]).output.getD 0 % 65536 }
  | _, _ => charOf (translateMaps p.translate (metaByte c p).toNat) p

lemma shownChar_byTable (h : ¬UsesIconv p) :
    shownChar host c p = charOf (translateMaps p.translate (metaByte c p).toNat) p := by
  rw [shownChar]
  split
  · next cd hcd h0 => exact absurd ⟨by rw [hcd]; rfl, of_decide_eq_true h0⟩ h
  · rfl

lemma shownChar_byIconv {cd : σ} (hcd : p.iconvState = some cd) (h0 : p.translate = 0) {u : ℕ}
    (hu : (host.iconv cd [metaByte c p]).output = some u) :
    shownChar host c p = { charOf 0 p with ch := u % 65536 } := by
  rw [shownChar, hcd, decide_eq_true h0]
  dsimp only
  rw [hu, Option.getD_some]

/-- No bytes are left in the buffer of the converter, or it is thrown away. -/
def BufferEmpty (p : Parser σ) : Prop := UsesIconv p → p.inputBuf = [] ∨ p.inputBuf.length = inputBufSize

lemma convert_cons (hs : SingleByte host) (ch : ScreenChar) (cd : σ) (b : UInt8) (bs : List UInt8) (p : Parser σ) :
    ∃ u q, (host.iconv cd (b :: bs)).output = some u ∧ q = setUnich (ntohl u) (setIconvState
        (host.iconv cd (b :: bs)).descriptor p) ∧
      convert host ch cd (b :: bs) p = (putch host { ch with ch := u % 65536 } q).andThen fun q =>
        if bs = [] then stay (setInputBuf [] q) else convert host ch (host.iconv cd (b :: bs)).descriptor bs q := by
  obtain ⟨u, hu⟩ := Option.isSome_iff_exists.mp (hs.output cd b bs)
  refine ⟨u, _, hu, rfl, ?_⟩
  have hrest : (b :: bs).drop ((b :: bs).length - (host.iconv cd (b :: bs)).inSize) = bs := by
    rw [hs.inSize, List.length_cons, Nat.add_sub_cancel_left]
    rfl
  have hstatus := hs.status cd b bs
  rw [convert]
  simp only [hu, hrest]
  congr 1
  funext q
  split_ifs with hbs
  · rw [if_pos hbs] at hstatus
    split <;> simp_all
  · rw [if_neg hbs] at hstatus
    split <;> simp_all

lemma convert_tells (hs : SingleByte host) (ch : ScreenChar) (cd : σ) (b : UInt8) (bs : List UInt8) (p : Parser σ) :
    (convert host ch cd (b :: bs) p).calls ≠ [] := by
  obtain ⟨u, q, _, _, hconvert⟩ := convert_cons hs ch cd b bs p
  rw [hconvert]
  exact tells_andThen _ (putch_tells host _ q)

section Byte

variable (host) (hstate : p.vcState = .normal) (hutf : p.utf = false) (hc : PrintableByte c)
include hstate hutf hc

lemma processByte_normalState : processByte host c p = normalState host c p := by
  rw [processByte_plain hc.1 hc.2.1 hc.2.2, processState, hstate]

lemma processByte_byTable (h : ¬UsesIconv p) :
    processByte host c p = putch host (shownChar host c p)
      (setUnich (translateMaps p.translate (metaByte c p).toNat) p) := by
  rw [processByte_normalState host hstate hutf hc, normalState, setState_self hstate, hutf]
  rw [if_neg fun hu => Bool.false_ne_true hu.1, shownChar_byTable h]
  split
  · next cd hcd h0 => exact absurd ⟨by rw [hcd]; rfl, of_decide_eq_true h0⟩ h
  · rfl

lemma processByte_byIconv {cd : σ} (hcd : p.iconvState = some cd) (h0 : p.translate = 0) :
    processByte host c p =
      convert host (charOf 0 p) cd ((if p.inputBuf.length = inputBufSize then [] else p.inputBuf) ++ [metaByte c p])
        (setInputBuf ((if p.inputBuf.length = inputBufSize then [] else p.inputBuf) ++ [metaByte c p]) p) := by
  rw [processByte_normalState host hstate hutf hc, normalState, setState_self hstate, hutf]
  rw [if_neg fun hu => Bool.false_ne_true hu.1, hcd, decide_eq_true h0]
  rfl

end Byte

/-- The screen is told of one cell, the one at the cursor after the wrap, and the cursor goes one column on. -/
structure TellsOnce (host : Host σ) (c : UInt8) (p : Parser σ) : Prop where
  calls : (processByte host c p).calls = (autowrap p).calls ++ storeCalls (shownChar host c p) p
  x : (processByte host c p).parser.x = (wrapped p).1 + 1
  y : (processByte host c p).parser.y = (wrapped p).2

/-- The wrap scrolls or has no need to, nothing is left over from an earlier byte, and one cell is enough. -/
structure PrintsOnce (host : Host σ) (c : UInt8) (p : Parser σ) : Prop where
  wraps : ¬BlockedWrap p
  buffer : BufferEmpty p
  cell : OneCell host (shownChar host c p).ch p

section Once

variable (hp : Sane p) (hd : p.decawm = true) (hi : p.decim = false)
include hp hd hi

lemma tellsOnce_putch {o : Outcome σ} {ch : ScreenChar} (hx : o.parser.x = (putch host ch p).parser.x)
    (hy : o.parser.y = (putch host ch p).parser.y) (hcalls : o.calls = (putch host ch p).calls) :
    (o.calls = (autowrap p).calls ++ storeCalls ch p ∧ o.parser.x = (wrapped p).1 + 1 ∧
        o.parser.y = (wrapped p).2) ↔ ¬BlockedWrap p ∧ OneCell host ch.ch p := by
  constructor
  · rintro ⟨_, hcolumn, _⟩
    by_contra hnot
    refine putch_x host hp hd hi ch ?_ (hx.symm.trans hcolumn)
    rwa [not_and_or, not_not] at hnot
  · rintro ⟨hb, hone⟩
    obtain ⟨hparser, htold, _⟩ := putch_one host hp hd hi ch hb hone
    rw [hx, hy, hcalls, hparser, htold]
    exact ⟨rfl, rfl, rfl⟩

lemma convert_more (hs : SingleByte host) (ch : ScreenChar) (cd : σ) (b : UInt8) {bs : List UInt8} (hbs : bs ≠ []) :
    (convert host ch cd (b :: bs) p).parser.x ≠ (wrapped p).1 + 1 ∨
      (autowrap p).calls.length + 2 < (convert host ch cd (b :: bs) p).calls.length := by
  obtain ⟨u, q, _, rfl, hconvert⟩ := convert_cons hs ch cd b bs p
  rw [hconvert]
  have hq : Sane (setUnich (ntohl u) (setIconvState (host.iconv cd (b :: bs)).descriptor p)) :=
    hp.frame (by constructor <;> rfl)
  by_cases hb : BlockedWrap p
  · left
    have hx := putch_x host hq hd hi { ch with ch := u % 65536 } (.inl hb)
    obtain ⟨hreturned, _⟩ := putch_blocked host { ch with ch := u % 65536 }
      (show BlockedWrap (setUnich (ntohl u) (setIconvState (host.iconv cd (b :: bs)).descriptor p)) from hb)
    rw [Outcome.andThen, if_pos hreturned]
    exact hx
  · right
    obtain ⟨hreturned, hlength⟩ := putch_calls host hq hd hi { ch with ch := u % 65536 } hb
    rw [Outcome.andThen, if_neg (by rw [hreturned]; decide)]
    dsimp only
    rw [if_neg hbs, List.length_append]
    obtain ⟨b', bs', rfl⟩ := List.exists_cons_of_ne_nil hbs
    have htold := List.length_pos_iff.mpr (convert_tells hs ch (host.iconv cd (b :: b' :: bs')).descriptor b' bs'
      (putch host { ch with ch := u % 65536 }
        (setUnich (ntohl u) (setIconvState (host.iconv cd (b :: b' :: bs')).descriptor p))).parser)
    have hwrap : (autowrap (setUnich (ntohl u) (setIconvState (host.iconv cd (b :: b' :: bs')).descriptor p))).calls =
        (autowrap p).calls := autowrap_converting (ntohl u) _ p.inputBuf p
    rw [hwrap] at hlength
    exact Nat.lt_of_le_of_lt hlength (Nat.lt_add_of_pos_right htold)

lemma tellsOnce_iff (hs : SingleByte host) (hstate : p.vcState = .normal) (hutf : p.utf = false)
    (hc : PrintableByte c) : TellsOnce host c p ↔ PrintsOnce host c p := by
  have hfields : TellsOnce host c p ↔ (processByte host c p).calls =
      (autowrap p).calls ++ storeCalls (shownChar host c p) p ∧ (processByte host c p).parser.x = (wrapped p).1 + 1 ∧
        (processByte host c p).parser.y = (wrapped p).2 :=
    ⟨fun h => ⟨h.calls, h.x, h.y⟩, fun h => ⟨h.1, h.2.1, h.2.2⟩⟩
  rw [hfields]
  by_cases huses : UsesIconv p
  · obtain ⟨cd, hcd⟩ := Option.isSome_iff_exists.mp huses.1
    have hbyte := processByte_byIconv host hstate hutf hc hcd huses.2
    by_cases hbuffer : BufferEmpty p
    · have hempty : (if p.inputBuf.length = inputBufSize then [] else p.inputBuf) = [] := by
        rcases hbuffer huses with h | h
        · rw [h, ite_self]
        · rw [if_pos h]
      rw [hempty, List.nil_append] at hbyte
      obtain ⟨u, q, hu, rfl, hconvert⟩ := convert_cons hs (charOf 0 p) cd (metaByte c p) [] (setInputBuf [metaByte c p] p)
      rw [hconvert] at hbyte
      have hq : Sane (setUnich (ntohl u) (setIconvState (host.iconv cd [metaByte c p]).descriptor
          (setInputBuf [metaByte c p] p))) := by
        have hset : Sane (setInputBuf [metaByte c p] p) := hp.setInputBuf (Nat.succ_le_succ (Nat.zero_le 15))
        exact hset.frame (by constructor <;> rfl)
      have hsame := andThen_setInputBuf [] (putch host { charOf 0 p with ch := u % 65536 } (setUnich (ntohl u)
        (setIconvState (host.iconv cd [metaByte c p]).descriptor (setInputBuf [metaByte c p] p))))
      simp only [if_true] at hbyte
      rw [← hbyte] at hsame
      have hput := tellsOnce_putch hq hd hi hsame.1 hsame.2.1 hsame.2.2
      have hwrap : (autowrap (setUnich (ntohl u) (setIconvState (host.iconv cd [metaByte c p]).descriptor
          (setInputBuf [metaByte c p] p)))).calls = (autowrap p).calls := autowrap_converting _ _ _ p
      rw [hwrap] at hput
      have hcell : PrintsOnce host c p ↔ ¬BlockedWrap p ∧ OneCell host (u % 65536) p := by
        have hchar := shownChar_byIconv hcd huses.2 hu
        refine ⟨fun h => ⟨h.wraps, ?_⟩, fun h => ⟨h.1, hbuffer, ?_⟩⟩
        · have hone := h.cell
          rwa [hchar] at hone
        · rw [hchar]
          exact h.2
      rw [hcell, shownChar_byIconv hcd huses.2 hu]
      exact hput
    · refine iff_of_false ?_ fun h => hbuffer h.buffer
      rintro ⟨hcalls, hx, _⟩
      obtain ⟨hleft, hlength⟩ : p.inputBuf ≠ [] ∧ p.inputBuf.length ≠ inputBufSize := by
        rw [BufferEmpty] at hbuffer
        tauto
      obtain ⟨b, bs, hbuf⟩ := List.exists_cons_of_ne_nil hleft
      rw [if_neg hlength, hbuf, List.cons_append] at hbyte
      have hset : Sane (setInputBuf (b :: (bs ++ [metaByte c p])) p) := by
        refine hp.setInputBuf ?_
        have hle := hp.input_le
        rw [hbuf, List.length_cons] at hle hlength
        rw [List.length_cons, List.length_append, List.length_singleton]
        omega
      have hmore := convert_more hset hd hi hs (charOf 0 p) cd b (List.append_ne_nil_of_right_ne_nil bs (List.cons_ne_nil (metaByte c p) []))
      rw [← hbyte, hcalls, hx, List.length_append] at hmore
      have hwrap : (autowrap (setInputBuf (b :: (bs ++ [metaByte c p])) p)).calls = (autowrap p).calls :=
        autowrap_converting p.unich p.iconvState _ p
      rw [hwrap] at hmore
      rcases hmore with h | h
      · exact h rfl
      · exact absurd h (lt_irrefl _)
  · have hbyte := processByte_byTable host hstate hutf hc huses
    have hq : Sane (setUnich (translateMaps p.translate (metaByte c p).toNat) p) := hp.frame (by constructor <;> rfl)
    have hput := tellsOnce_putch hq hd hi (o := processByte host c p) (congrArg (fun o => o.parser.x) hbyte)
      (congrArg (fun o => o.parser.y) hbyte) (congrArg Outcome.calls hbyte)
    have hwrap : (autowrap (setUnich (translateMaps p.translate (metaByte c p).toNat) p)).calls = (autowrap p).calls :=
      autowrap_converting _ p.iconvState p.inputBuf p
    rw [hwrap] at hput
    exact hput.trans ⟨fun h => ⟨h.1, fun hu => absurd hu huses, h.2⟩, fun h => ⟨h.wraps, h.cell⟩⟩

end Once

end Xperimentum.Terminal.LinuxParser

namespace Xperimentum.Terminal.TerminalView

open Xperimentum.Lib.Memory Xperimentum.Lib.Partial Xperimentum.Lib.Runs Xperimentum.Terminal.LinuxParser

variable {σ : Type} {host : Host σ} {t : Session σ} {u w : View} {c : UInt8}

/-- `u` is what the screen is after the wrap, and `w` what it is after the byte. -/
def StoresOne (host : Host σ) (c : UInt8) (p : Parser σ) (u w : View) : Prop :=
  w.sx = u.sx ∧ w.sy = u.sy ∧ ∀ y x, OnScreen u y x → cellOf w.screen w.sx y x =
    if x = (wrapped p).1 ∧ y = (wrapped p).2 then markDirty (shownChar host c p) else cellOf u.screen u.sx y x

structure PrintsByte (host : Host σ) (c : UInt8) (t : Session σ) : Prop extends TellsOnce host c t.parser where
  stored : ∃ u w, (autowrap t.parser).calls.foldlM receive t.view = some u ∧ receiveByte host t c = some w ∧
    StoresOne host c t.parser u w.view

lemma cell_eq_iff {sx x y x' y' : ℤ} (h0' : 0 ≤ x') (hx' : x' < sx) (h0 : 0 ≤ x) (hx : x < sx) :
    y' * sx + x' = y * sx + x ↔ x' = x ∧ y' = y := by
  constructor
  · intro h
    have hle := (row_le_iff h0' hx' y y').mp (by omega)
    have hge := (row_le_iff h0 hx y' y).mp (by omega)
    obtain rfl : y' = y := le_antisymm hge hle
    exact ⟨by omega, rfl⟩
  · rintro ⟨rfl, rfl⟩
    rfl

lemma autowrap_shifts (p : Parser σ) (width : ℤ) : ∀ call ∈ (autowrap p).calls, ¬ShiftsPastMargin width call := by
  rw [autowrap_calls, lf_calls]
  split_ifs <;> simp [ShiftsPastMargin]

lemma putCharAt_stores (hu : Sized u) (ch : ScreenChar) {x y : ℤ} (hx0 : 0 ≤ x) (hx : x < u.sx) (hy0 : 0 ≤ y)
    (hy : y < u.sy) (hw : ts_putCharAt ch 1 x y u = some w) :
    w.sx = u.sx ∧ w.sy = u.sy ∧ ∀ y' x', OnScreen u y' x' → cellOf w.screen w.sx y' x' =
      if x' = x ∧ y' = y then markDirty ch else cellOf u.screen u.sx y' x' := by
  have hlast : ¬u.sx < x + 1 := by omega
  rw [ts_putCharAt, if_neg (by omega)] at hw
  simp only [if_neg hlast, if_neg (not_lt.mpr hx0)] at hw
  obtain ⟨screen, hscreen, hw⟩ := Option.bind_eq_some_iff.mp hw
  obtain rfl := Option.some.inj hw
  obtain ⟨hs, hsx⟩ := addDirty_screen x y 1 1 { u with screen := screen }
  refine ⟨hsx, (addDirty_same x y 1 1 { u with screen := screen }).sy, fun y' x' hin => ?_⟩
  obtain ⟨hy0', hy', hx0', hx'⟩ := hin
  have hwhere : (y * u.sx + x ≤ y' * u.sx + x' ∧ y' * u.sx + x' < y * u.sx + x + 1) ↔ x' = x ∧ y' = y := by
    rw [← cell_eq_iff hx0' hx' hx0 hx]
    omega
  have hcell := cellOf_update hscreen (screen_rows_le hu) hy0' hy' hx0' hx'
  simp only [hwhere] at hcell
  rw [hs, hsx]
  exact hcell

lemma PrintsByte.of_tells (ht : Reading t) (hstate : t.parser.vcState = .normal) (h : TellsOnce host c t.parser) :
    PrintsByte host c t := by
  refine ⟨h, ?_⟩
  obtain ⟨hcalls, hx, hy⟩ := h
  have hwrap := autowrap_keeps ht.parser
  have hfits : ∀ call ∈ (autowrap t.parser).calls, Fits t.view.sx t.view.sy call := by
    rw [← ht.width, ← ht.height]
    exact hwrap.fits
  obtain ⟨hx0, hxlt, hy0, hylt⟩ := wrapped_mem ht.parser
  rw [ht.width] at hxlt
  rw [ht.height] at hylt
  obtain ⟨u, hu, hdraws⟩ := receive_all ht.drawing hfits (autowrap_shifts t.parser t.view.sx)
  have hput : Ensures (ts_putCharAt (shownChar host c t.parser) 1 (wrapped t.parser).1 (wrapped t.parser).2 u)
      (Same u) := ts_putCharAt_same hdraws.drawing.toSized _ hx0
  obtain ⟨w, hw, _⟩ := hput
  have hstores := putCharAt_stores hdraws.drawing.toSized _ hx0 (by rwa [hdraws.sx]) hy0 (by rwa [hdraws.sy]) hw
  refine ⟨u, ⟨ts_goto ((wrapped t.parser).1 + 1) (wrapped t.parser).2 w, (processByte host c t.parser).parser⟩, hu, ?_,
    hstores⟩
  have hall : (processByte host c t.parser).calls.foldlM receive t.view = some (ts_goto ((wrapped t.parser).1 + 1)
      (wrapped t.parser).2 w) := by
    rw [hcalls, List.foldlM_append, hu]
    change (receive u (.putCharAt _ 1 _ _) >>= fun w => [ScreenCall.goto _ _].foldlM receive w) = _
    rw [receive, hw]
    rfl
  rw [receiveByte, hall]
  rfl

/-- Every printable byte in the state `ESnormal`, in autowrap mode, without insert mode. -/
theorem printsByte_iff (host : Host σ) (hs : SingleByte host) (t : Session σ) (ht : Reading t)
    (hstate : t.parser.vcState = .normal) (hwrap : t.parser.decawm = true) (hinsert : t.parser.decim = false)
    (hutf : t.parser.utf = false) (c : UInt8) (hc : PrintableByte c) :
    PrintsByte host c t ↔ PrintsOnce host c t.parser := by
  have htells := tellsOnce_iff ht.parser hwrap hinsert hs hstate hutf hc
  exact ⟨fun h => htells.mp h.toTellsOnce, fun h => .of_tells ht hstate (htells.mpr h)⟩

/-- A view of a terminal into which bytes have been typed. -/
def typedSession (host : Host σ) (size : ScreenSize) (bytes : List UInt8) : Option (Session σ) := do
  let t ← initWithFrame size 0 true none
  bytes.foldlM (receiveByte host) t

lemma initWithFrame_initial (size : ScreenSize) (cd : Option σ) :
    Ensures (initWithFrame size 0 true cd) fun t => Reading t ∧ t.parser = initial size cd := by
  obtain ⟨t, ht, hreading⟩ := initWithFrame_reading size 0 true cd
  refine ⟨t, ht, hreading, ?_⟩
  obtain ⟨v, _, hv⟩ := Option.bind_eq_some_iff.mp ht
  obtain rfl := Option.some.inj hv
  rfl

lemma typedSession_reading (host : Host σ) (size : ScreenSize) (bytes : List UInt8)
    (h : Along (afterByte host) (ByteContained host) (initial size none) bytes) :
    Ensures (typedSession host size bytes) fun t =>
      Reading t ∧ t.parser = run (afterByte host) (initial size none) bytes := by
  have hbytes (bytes : List UInt8) (t : Session σ) (ht : Reading t)
      (hb : Along (afterByte host) (ByteContained host) t.parser bytes) :
      Ensures (bytes.foldlM (receiveByte host) t) fun u =>
        Reading u ∧ u.parser = run (afterByte host) t.parser bytes := by
    induction bytes generalizing t with
    | nil => exact ensures_pure ⟨ht, rfl⟩
    | cons c bytes ih =>
      rw [List.foldlM_cons]
      refine Ensures.bind (receiveByte_reading ht hb.1) fun u ⟨hu, hparser⟩ => ?_
      rw [run_cons, ← hparser]
      refine ih u hu ?_
      rw [hparser]
      exact hb.2
  refine Ensures.bind (initWithFrame_initial size none) fun t ⟨ht, hparser⟩ => ?_
  rw [← hparser]
  exact hbytes bytes t ht (hparser ▸ h)

def line3 : ScreenSize where
  width := 3
  height := 1
  width_pos := size4x3.height_pos
  width_lt := size4x3.height_lt
  height_pos := by decide
  height_lt := by decide

lemma latinHost_singleByte : SingleByte latinHost := by
  refine ⟨fun cd b bs => ?_, fun cd b bs => ?_, fun cd b bs => ?_⟩
  all_goals cases bs <;> rfl

/-- The second of three bytes. -/
theorem printsByte_second : ∃ t, typedSession latinHost line3 [97] = some t ∧ Reading t ∧
    SingleByte latinHost ∧ t.parser.vcState = .normal ∧ t.parser.decawm = true ∧ t.parser.decim = false ∧
      t.parser.utf = false ∧ PrintableByte 98 ∧ (PrintsByte latinHost 98 t ↔ PrintsOnce latinHost 98 t.parser) := by
  have hcontained : Along (afterByte latinHost) (ByteContained latinHost) (initial line3 none) [97] := by
    decide
  obtain ⟨t, htyped, ht, hparser⟩ := typedSession_reading latinHost line3 [97] hcontained
  have hstate : t.parser.vcState = .normal := by rw [hparser]; decide
  have hwrap : t.parser.decawm = true := by rw [hparser]; decide
  have hinsert : t.parser.decim = false := by rw [hparser]; decide
  have hutf : t.parser.utf = false := by rw [hparser]; decide
  have hc : PrintableByte 98 := ⟨by decide, by decide, by decide⟩
  exact ⟨t, htyped, ht, latinHost_singleByte, hstate, hwrap, hinsert, hutf, hc,
    printsByte_iff latinHost latinHost_singleByte t ht hstate hwrap hinsert hutf 98 hc⟩

/-- A screen of one line: the byte behind a full line is lost, and the next one overwrites the first. -/
theorem fourth_byte_lost : ∃ t, typedSession latinHost line3 [97, 98, 99] = some t ∧ Reading t ∧
    SingleByte latinHost ∧ t.parser.vcState = .normal ∧ t.parser.decawm = true ∧ t.parser.decim = false ∧
      t.parser.utf = false ∧ PrintableByte 100 ∧ ¬PrintsByte latinHost 100 t := by
  have hcontained : Along (afterByte latinHost) (ByteContained latinHost) (initial line3 none) [97, 98, 99] := by
    decide
  obtain ⟨t, htyped, ht, hparser⟩ := typedSession_reading latinHost line3 [97, 98, 99] hcontained
  refine ⟨t, htyped, ht, latinHost_singleByte, ?_, ?_, ?_, ?_, ⟨by decide, by decide, by decide⟩, fun h => ?_⟩
  · rw [hparser]
    decide
  · rw [hparser]
    decide
  · rw [hparser]
    decide
  · rw [hparser]
    decide
  · have hx := h.x
    rw [hparser] at hx
    revert hx
    decide

end Xperimentum.Terminal.TerminalView
