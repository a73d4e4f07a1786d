import Xperimentum.Lib.Byte
import Xperimentum.Lib.Lines
import Xperimentum.Pantomime.QuotedPrintable

/-! Quoted-printable text is decoded to the bytes it was made from, and its lines are as short as asked for. -/

namespace Xperimentum.Pantomime

open Lib.Byte Lib.Lines

section RoundTrip

variable (inHeader : Bool) (c : UInt8) (b : Bytes)

lemma decodeQuotedPrintable_cons (hc : c ≠ 61) :
    decodeQuotedPrintable inHeader (c :: b) =
      (decodeQuotedPrintable inHeader b).map ((if inHeader && c = 95 then 32 else c) :: ·) := by
  rcases b with - | ⟨d, - | ⟨e, b⟩⟩
  · simp only [decodeQuotedPrintable, if_neg hc, Option.map_some]
    split_ifs <;> rfl
  · simp only [decodeQuotedPrintable, hc, false_and, if_false]
  · rw [decodeQuotedPrintable, if_neg hc]

lemma decodeQuotedPrintable_soft : decodeQuotedPrintable inHeader (61 :: 10 :: b) = decodeQuotedPrintable inHeader b := by
  cases b with
  | nil => rfl
  | cons e b => simp only [decodeQuotedPrintable, if_pos]

lemma unhex_hexDigit : unhex (hexDigit (c >>> 4)) = some (c >>> 4) ∧ unhex (hexDigit (c &&& 15)) = some (c &&& 15) ∧
    hexDigit (c >>> 4) ≠ 10 ∧ hexDigit (c &&& 15) ≠ 10 ∧ (16 : UInt8) * (c >>> 4) + (c &&& 15) = c := by
  revert c
  exact forall_byte (by decide)

lemma decodeQuotedPrintable_escaped :
    decodeQuotedPrintable inHeader (escaped c ++ b) = (decodeQuotedPrintable inHeader b).map (c :: ·) := by
  obtain ⟨hhigh, hlow, hten, -, hsum⟩ := unhex_hexDigit c
  rw [escaped, List.cons_append, List.cons_append, List.cons_append, List.nil_append, decodeQuotedPrintable, if_pos rfl,
    if_neg hten, hhigh, hlow, Option.bind_some, Option.bind_some, hsum]

lemma decode_encodeQuotedPrintable (theLength line : ℕ) :
    decodeQuotedPrintable inHeader (encodeQuotedPrintable theLength inHeader line b) = some b := by
  induction b generalizing line with
  | nil => rfl
  | cons c b ih =>
    have hsoft (soft : Prop) [Decidable soft] (text : Bytes) :
        decodeQuotedPrintable inHeader ((if soft then [61, 10] else []) ++ text) = decodeQuotedPrintable inHeader text := by
      split_ifs
      · exact decodeQuotedPrintable_soft inHeader text
      · rfl
    rw [encodeQuotedPrintable, hsoft]
    generalize (if theLength ≠ 0 ∧ theLength ≤ line then 0 else line) = short
    split_ifs with hblank hliteral hfeed halpha hspace
    · rw [decodeQuotedPrintable_escaped, ih]
      rfl
    · rw [hfeed, decodeQuotedPrintable_cons _ 10 _ (by decide), ih, decide_eq_false (by decide), Bool.and_false]
      rfl
    · obtain ⟨hbody, hliteral⟩ := Bool.and_eq_true_iff.mp hliteral
      have hne : c ≠ 61 := by
        rintro rfl
        exact absurd hliteral (by decide)
      rw [decodeQuotedPrintable_cons _ c _ hne, ih, Bool.eq_false_of_not_eq_true' hbody, Bool.false_and]
      rfl
    · obtain ⟨rfl, halpha⟩ := Bool.and_eq_true_iff.mp halpha
      have hne : c ≠ 61 ∧ c ≠ 95 := by
        constructor <;> rintro rfl <;> exact absurd halpha (by decide)
      rw [decodeQuotedPrintable_cons _ c _ hne.1, ih, Option.map_some, Bool.true_and, decide_eq_false hne.2]
      rfl
    · obtain ⟨rfl, hspace⟩ := Bool.and_eq_true_iff.mp hspace
      rw [decodeQuotedPrintable_cons _ 95 _ (by decide), ih, of_decide_eq_true hspace]
      rfl
    · rw [decodeQuotedPrintable_escaped, ih]
      rfl

end RoundTrip

section LineLength

def isLineFeed (c : UInt8) : Bool := c = 10

/-- The lines of the text fit, the first one behind `line` characters. -/
def LinesFit (limit line : ℕ) (text : Bytes) : Prop :=
  ∃ first rest, parts isLineFeed text = first :: rest ∧ line + first.length ≤ limit ∧ ∀ l ∈ rest, l.length ≤ limit

variable {limit line : ℕ} {text : Bytes} {c : UInt8}

lemma linesFit_nil (h : line ≤ limit) : LinesFit limit line [] := ⟨[], [], parts_nil, h, nofun⟩

lemma LinesFit.all (h : LinesFit limit line text) : ∀ l ∈ parts isLineFeed text, l.length ≤ limit := by
  obtain ⟨first, rest, hparts, hfirst, hrest⟩ := h
  rw [hparts]
  intro l hl
  rcases List.mem_cons.mp hl with rfl | hl
  · omega
  · exact hrest l hl

lemma LinesFit.char (hc : c ≠ 10) (h : LinesFit limit (line + 1) text) : LinesFit limit line (c :: text) := by
  obtain ⟨first, rest, hparts, hfirst, hrest⟩ := h
  refine ⟨c :: first, rest, ?_, ?_, hrest⟩
  · rw [parts_cons, if_neg (by simpa [isLineFeed] using hc), hparts, List.modifyHead_cons]
  · rw [List.length_cons]
    omega

lemma LinesFit.lineFeed (hline : line ≤ limit) (h : LinesFit limit 0 text) : LinesFit limit line (10 :: text) := by
  refine ⟨[], parts isLineFeed text, ?_, hline, h.all⟩
  rw [parts_cons, if_pos (by decide)]

lemma LinesFit.escape (h : LinesFit limit (line + 3) text) : LinesFit limit line (escaped c ++ text) := by
  obtain ⟨-, -, hhigh, hlow, -⟩ := unhex_hexDigit c
  rw [escaped, List.cons_append, List.cons_append, List.cons_append, List.nil_append]
  exact LinesFit.char (by decide) (LinesFit.char hhigh (LinesFit.char hlow h))

lemma encodeQuotedPrintable_fits {theLength : ℕ} (hlength : theLength ≠ 0) (b : Bytes) (line : ℕ)
    (hline : line ≤ theLength + 2) :
    LinesFit (theLength + 3) line (encodeQuotedPrintable theLength false line b) := by
  induction b generalizing line with
  | nil => exact linesFit_nil (by omega)
  | cons c b ih =>
    -- behind a soft line break or not, the line is shorter than asked for
    have hsoft {short : ℕ} {text : Bytes} (hshort : (if theLength ≠ 0 ∧ theLength ≤ line then 0 else line) = short)
        (h : short < theLength → LinesFit (theLength + 3) short text) :
        LinesFit (theLength + 3) line ((if theLength ≠ 0 ∧ theLength ≤ line then [61, 10] else []) ++ text) := by
      split_ifs at hshort ⊢ with hbreak
      · subst hshort
        exact LinesFit.char (by decide) (LinesFit.lineFeed (by omega) (h (by omega)))
      · subst hshort
        exact h (by omega)
    rw [encodeQuotedPrintable]
    generalize hshort : (if theLength ≠ 0 ∧ theLength ≤ line then 0 else line) = short
    refine hsoft hshort fun hlt => ?_
    split_ifs with hblank hliteral hfeed halpha hspace
    · exact LinesFit.escape (ih (short + 3) (by omega))
    · rw [hfeed]
      exact LinesFit.lineFeed (by omega) (ih 0 (by omega))
    · exact LinesFit.char hfeed (ih (short + 1) (by omega))
    · cases (Bool.and_eq_true_iff.mp halpha).1
    · cases (Bool.and_eq_true_iff.mp hspace).1
    · exact LinesFit.escape (ih (short + 3) (by omega))

/-- The claimed length of a line is kept where a length is asked for at all. -/
theorem quotedPrintable_roundTrip (b : Bytes) (theLength : ℕ) (inHeader : Bool) :
    decodeQuotedPrintable inHeader (encodeQuotedPrintable theLength inHeader 0 b) = some b ∧
      (inHeader = false → theLength ≠ 0 →
        ∀ l ∈ parts isLineFeed (encodeQuotedPrintable theLength inHeader 0 b), l.length ≤ theLength + 3) := by
  refine ⟨decode_encodeQuotedPrintable inHeader b theLength 0, ?_⟩
  rintro rfl hlength
  exact (encodeQuotedPrintable_fits hlength b 0 (by omega)).all

/-- A length of 0 asks for no soft line breaks. -/
theorem quotedPrintable_unbroken :
    ¬(decodeQuotedPrintable false (encodeQuotedPrintable 0 false 0 [97, 97, 97, 97]) = some [97, 97, 97, 97] ∧
      ∀ l ∈ parts isLineFeed (encodeQuotedPrintable 0 false 0 [97, 97, 97, 97]), l.length ≤ 0 + 3) := by
  rintro ⟨-, hlines⟩
  have hline : [97, 97, 97, 97] ∈ parts isLineFeed (encodeQuotedPrintable 0 false 0 [97, 97, 97, 97]) := by
    decide
  exact absurd (hlines _ hline) (by decide)

end LineLength

end Xperimentum.Pantomime
