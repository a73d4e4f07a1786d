import Xperimentum.Pantomime.Base64RoundTrip
import Xperimentum.Pantomime.EncodedWordsDecoding

/-! A header value as plain segments and encoded words in turn, and what is decoded from it. -/

namespace Xperimentum.Pantomime.EncodedWords

open Lib.Byte

/-- Text of the Q encoding and the bytes that it stands for. -/
inductive QText : Bytes → Bytes → Prop
  | nil : QText [] []
  | char {c : UInt8} {text data : Bytes} (hc : 33 ≤ c ∧ c ≤ 126 ∧ c ≠ 61 ∧ c ≠ 63 ∧ c ≠ 95) (h : QText text data) :
      QText (c :: text) (c :: data)
  | space {text data : Bytes} (h : QText text data) : QText (95 :: text) (32 :: data)
  | hex {c d x y : UInt8} {text data : Bytes} (hc : unhex c = some x) (hd : unhex d = some y) (h : QText text data) :
      QText (61 :: c :: d :: text) ((16 * x + y) :: data)

/-- Text of the B encoding and the bytes that it stands for. -/
inductive BText : Bytes → Bytes → Prop
  | nil : BText [] []
  | one (a : UInt8) : BText (nb64Chunk a 0 0 1) [a]
  | two (a b : UInt8) : BText (nb64Chunk a b 0 2) [a, b]
  | group (a b c : UInt8) {text data : Bytes} (h : BText text data) : BText (nb64Chunk a b c 3 ++ text) (a :: b :: c :: data)

def EncodedText (encoding : UInt8) (text data : Bytes) : Prop :=
  (lower encoding = 113 ∧ QText text data) ∨ (lower encoding = 98 ∧ BText text data)

structure EncodedWord where
  charset : Bytes
  charset_ne_nil : charset ≠ []
  charset_open : 63 ∉ charset
  encoding : UInt8
  text : Bytes
  data : Bytes
  isText : EncodedText encoding text data

def EncodedWord.bytes (w : EncodedWord) : Bytes :=
  61 :: 63 :: (w.charset ++ 63 :: w.encoding :: 63 :: (w.text ++ [63, 61]))

/-- A segment in which no `=?` stands. -/
structure Plain where
  bytes : Bytes
  unmarked : Unmarked bytes

/-- A plain segment stands in front of the first word and behind each of them, where it may be empty. -/
structure HeaderValue where
  front : Plain
  words : List (EncodedWord × Plain)

def wordsBytes (words : List (EncodedWord × Plain)) : Bytes := words.flatMap fun w => w.1.bytes ++ w.2.bytes

def HeaderValue.bytes (h : HeaderValue) : Bytes := h.front.bytes ++ wordsBytes h.words

def isLinearSpace (c : UInt8) : Bool := c = 32 || c = 9 || c = 10 || c = 13

section Decoded

variable (F : Foundation) (theCharset : Option Bytes)

def Plain.decoded (p : Plain) : Str := if p.bytes = [] then [] else literal F theCharset p.bytes

def EncodedWord.decoded (w : EncodedWord) : Str := (F.decode (theCharset.getD w.charset) w.data).getD []

/-- Linear white space between two words is left out. -/
def wordsDecoded : List (EncodedWord × Plain) → Str
  | [] => []
  | (w, p) :: words =>
    w.decoded F theCharset ++ (if words ≠ [] ∧ p.bytes.all isLinearSpace = true then [] else p.decoded F theCharset) ++
      wordsDecoded words

def HeaderValue.decoded (h : HeaderValue) : Str := h.front.decoded F theCharset ++ wordsDecoded F theCharset h.words

end Decoded

section Texts

variable {text data : Bytes}

lemma QText.decode (h : QText text data) : decodeQuotedPrintable true text = some data := by
  induction h with
  | nil => rfl
  | @char c text data hc _ ih =>
    have hunder : ¬((true && decide (c = 95)) = true) := by simp [hc.2.2.2.2]
    rw [decodeQuotedPrintable_cons true c text hc.2.2.1, ih, if_neg hunder]
    rfl
  | space _ ih =>
    rw [decodeQuotedPrintable_cons true 95 _ (by decide), ih]
    rfl
  | @hex c d x y text data hc hd _ ih =>
    have hne : c ≠ 10 := by
      rintro rfl
      cases hc
    rw [decodeQuotedPrintable, if_pos rfl, if_neg hne, hc, hd, ih]
    rfl

lemma unhex_ne {c x : UInt8} (h : unhex c = some x) : c ≠ 63 := by
  rintro rfl
  cases h

lemma QText.open (h : QText text data) : 63 ∉ text := by
  induction h with
  | nil => exact List.not_mem_nil
  | char hc _ ih => exact List.not_mem_cons_of_ne_of_not_mem hc.2.2.2.1.symm ih
  | space _ ih => exact List.not_mem_cons_of_ne_of_not_mem (by decide) ih
  | hex hc hd _ ih =>
    apply List.not_mem_cons_of_ne_of_not_mem (by decide)
    apply List.not_mem_cons_of_ne_of_not_mem (unhex_ne hc).symm
    exact List.not_mem_cons_of_ne_of_not_mem (unhex_ne hd).symm ih

lemma base64Char_open (n : UInt8) : 63 ≠ base64Char n := by
  revert n
  exact forall_byte (by decide)

lemma nb64Chunk_open (a b c : UInt8) (n : ℕ) : 63 ∉ nb64Chunk a b c n := by
  rw [nb64Chunk]
  split_ifs <;> simp [base64Char_open]

lemma BText.open (h : BText text data) : 63 ∉ text := by
  induction h with
  | nil => exact List.not_mem_nil
  | one a => exact nb64Chunk_open a 0 0 1
  | two a b => exact nb64Chunk_open a b 0 2
  | group a b c _ ih => exact List.not_mem_append (nb64Chunk_open a b c 3) ih

/-- The padding stands for the bytes that are missing to a whole group. -/
lemma BText.blocks (h : BText text data) : (text = [] ∧ data = []) ∨ ((∃ c ∈ text, c ≠ 61) ∧
    decodeBlocks text = some (data ++ List.replicate (padLength text) 0) ∧
    text.length * 6 / 8 = data.length + padLength text) := by
  have hpad (x : Bytes) (n : UInt8) : padLength (x ++ [base64Char n]) = 0 := by
    rw [padLength_concat, if_neg (base64Char_ne n).2]
  have hone (x : Bytes) : padLength (x ++ [61]) = padLength x + 1 := by
    rw [padLength_concat, if_pos rfl]
  induction h with
  | nil => exact .inl ⟨rfl, rfl⟩
  | one a =>
    have hlength : padLength (nb64Chunk a 0 0 1) = 2 := by
      change padLength ([_] ++ [base64Char _] ++ [61] ++ [61]) = 2
      rw [hone, hone, hpad]
    refine .inr ⟨nb64Chunk_head a 0 0 1, ?_, ?_⟩
    · rw [hlength, decodeBlocks_one]
      rfl
    · rw [hlength, nb64Chunk_length]
      rfl
  | two a b =>
    have hlength : padLength (nb64Chunk a b 0 2) = 1 := by
      change padLength ([_, _] ++ [base64Char _] ++ [61]) = 1
      rw [hone, hpad]
    refine .inr ⟨nb64Chunk_head a b 0 2, ?_, ?_⟩
    · rw [hlength, decodeBlocks_two]
      rfl
    · rw [hlength, nb64Chunk_length]
      rfl
  | @group a b c text data _ ih =>
    obtain ⟨x, hx, hne⟩ := nb64Chunk_head a b c 3
    refine .inr ⟨⟨x, List.mem_append_left _ hx, hne⟩, ?_⟩
    rw [decodeBlocks_whole le_rfl, List.length_append, nb64Chunk_length]
    rcases ih with ⟨rfl, rfl⟩ | ⟨hhead, hblocks, hlength⟩
    · have hzero : padLength (nb64Chunk a b c 3 ++ []) = 0 := hpad [_, _, _] c
      rw [hzero]
      refine ⟨rfl, ?_⟩
      simp
    · rw [padLength_append hhead, hblocks]
      refine ⟨rfl, ?_⟩
      rw [List.length_cons, List.length_cons, List.length_cons]
      omega

lemma BText.decode (h : BText text data) : decodeBase64 text = some data := by
  rcases h.blocks with ⟨rfl, rfl⟩ | ⟨⟨c, hc, hne⟩, hblocks, hlength⟩
  · rfl
  · have hall : text.all (· = 61) = false := by
      refine Bool.eq_false_iff.mpr fun hall => hne ?_
      exact of_decide_eq_true (List.all_eq_true.mp hall c hc)
    have hless : decide (text.length * 6 / 8 < padLength text) = false := decide_eq_false (by omega)
    have htake : text.length * 6 / 8 - padLength text = data.length := by omega
    rw [decodeBase64, if_neg (List.ne_nil_of_mem hc), hall, hless, Bool.or_self, if_neg Bool.false_ne_true, hblocks, htake,
      Option.map_some, List.take_left]

lemma EncodedText.decode {encoding : UInt8} (h : EncodedText encoding text data) :
    (lower encoding = 113 ∨ lower encoding = 98) ∧ 63 ∉ text ∧ decodeText encoding text = some data := by
  rcases h with ⟨hq, htext⟩ | ⟨hb, htext⟩
  · refine ⟨.inl hq, htext.open, ?_⟩
    rw [decodeText, if_pos hq]
    exact htext.decode
  · refine ⟨.inr hb, htext.open, ?_⟩
    rw [decodeText, if_neg (by rw [hb]; decide)]
    exact htext.decode

end Texts

section Runs

variable {F : Foundation} {theCharset : Option Bytes}

/-- What the loop takes for text. -/
def isVisible (c : UInt8) : Bool := 32 < c && c < 128

lemma decodeSpans_plain {p : Bytes} (hp : Unmarked p) (n : ℕ) (span : Bytes) (ignoreSpan : Bool) (b : Bytes) :
    decodeSpans F theCharset (n + p.length) span ignoreSpan (p ++ 61 :: 63 :: b) =
      decodeSpans F theCharset n (span ++ p) (ignoreSpan && p.all fun c => !isVisible c) (61 :: 63 :: b) := by
  induction p generalizing span ignoreSpan with
  | nil => simp
  | cons c p ih =>
    have hstep : ∃ d t, p ++ 61 :: 63 :: b = d :: t ∧ ¬(c = 61 ∧ d = 63) := by
      cases p with
      | nil => exact ⟨61, 63 :: b, rfl, fun h => absurd h.2 (by decide)⟩
      | cons d p => exact ⟨d, p ++ 61 :: 63 :: b, rfl, List.IsChain.rel hp⟩
    obtain ⟨d, t, heq, hmark⟩ := hstep
    rw [List.length_cons, ← add_assoc, List.cons_append, heq, decodeSpans_step hmark, ← heq, ih (List.IsChain.tail hp),
      List.append_assoc, List.singleton_append, List.all_cons, Bool.and_assoc]
    rfl

lemma decodeSpans_encoded (w : EncodedWord) (n : ℕ) (span : Bytes) (ignoreSpan : Bool) (rest : Bytes) :
    decodeSpans F theCharset (n + 1) span ignoreSpan (w.bytes ++ rest) =
      (decodeSpans F theCharset n [] true rest).map fun s =>
        (if span = [] ∨ ignoreSpan = true then [] else literal F theCharset span) ++ w.decoded F theCharset ++ s := by
  obtain ⟨hencoding, hopen, htext⟩ := w.isText.decode
  have hbytes : w.bytes ++ rest = 61 :: 63 :: (w.charset ++ 63 :: w.encoding :: 63 :: (w.text ++ 63 :: 61 :: rest)) := by
    simp [EncodedWord.bytes]
  have hparse : parseWord (w.charset ++ 63 :: w.encoding :: 63 :: (w.text ++ 63 :: 61 :: rest)) =
      some (w.charset, w.encoding, w.text, rest) := by
    obtain ⟨x, charset, hcs⟩ := List.exists_cons_of_ne_nil w.charset_ne_nil
    have hcharset := w.charset_open
    rw [hcs] at hcharset ⊢
    exact parseWord_word (fun h => hcharset (List.mem_cons_of_mem _ h)) hopen rest
  rw [hbytes, decodeSpans.eq_def]
  simp only [hparse, if_pos hencoding, htext, Option.bind_some]
  rfl

/-- Linear white space only, or text that is seen as such. -/
def Plain.Clear (p : Plain) : Prop := p.bytes.all isLinearSpace = true ∨ ∃ c ∈ p.bytes, isVisible c = true

lemma not_visible_of_linearSpace (c : UInt8) : isLinearSpace c = true → isVisible c = false :=
  forall_byte (P := fun c => isLinearSpace c = true → isVisible c = false) (by decide) c

lemma Plain.front_eq (F : Foundation) (theCharset : Option Bytes) {p : Plain} (hp : p.Clear) : (if p.bytes = [] ∨ (p.bytes.all fun c => !isVisible c) = true then []
    else literal F theCharset p.bytes) = if p.bytes.all isLinearSpace = true then [] else p.decoded F theCharset := by
  rcases hp with hspace | ⟨c, hc, hvisible⟩
  · have hall : (p.bytes.all fun c => !isVisible c) = true := by
      refine List.all_eq_true.mpr fun c hc => ?_
      rw [not_visible_of_linearSpace c (List.all_eq_true.mp hspace c hc)]
      rfl
    rw [if_pos (.inr hall), if_pos hspace]
  · have hne : p.bytes ≠ [] := List.ne_nil_of_mem hc
    have hseen : ¬(p.bytes.all fun c => !isVisible c) = true := by
      intro hall
      have hnot := List.all_eq_true.mp hall c hc
      rw [hvisible] at hnot
      cases hnot
    have htext : ¬p.bytes.all isLinearSpace = true := by
      intro hall
      have hnot := not_visible_of_linearSpace c (List.all_eq_true.mp hall c hc)
      rw [hvisible] at hnot
      cases hnot
    rw [if_neg (not_or.mpr ⟨hne, hseen⟩), if_neg htext, Plain.decoded, if_neg hne]

lemma wordsBytes_cons (w : EncodedWord) (p : Plain) (words : List (EncodedWord × Plain)) :
    wordsBytes ((w, p) :: words) = w.bytes ++ (p.bytes ++ wordsBytes words) := by
  rw [wordsBytes, List.flatMap_cons, List.append_assoc]
  rfl

/-- The induction is on the words that are still to be read. -/
lemma decodeSpans_words_of_clear (p : Plain) {words : List (EncodedWord × Plain)} {ignoreSpan : Bool} {n : ℕ}
    (hp : ignoreSpan = true → words ≠ [] → p.Clear) (hwords : ∀ w ∈ words.dropLast, w.2.Clear)
    (hn : (p.bytes ++ wordsBytes words).length < n) :
    decodeSpans F theCharset n [] ignoreSpan (p.bytes ++ wordsBytes words) =
      some ((if ignoreSpan = true ∧ words ≠ [] ∧ p.bytes.all isLinearSpace = true then [] else p.decoded F theCharset) ++
        wordsDecoded F theCharset words) := by
  induction words generalizing p ignoreSpan n with
  | nil =>
    rw [wordsBytes, List.flatMap_nil, List.append_nil] at hn ⊢
    rw [decodeSpans_unmarked p.unmarked hn]
    simp [Plain.decoded, wordsDecoded]
  | cons w words ih =>
    obtain ⟨w, q⟩ := w
    rw [wordsBytes_cons, List.length_append, List.length_append] at hn
    have hmark : ∃ t, w.bytes ++ (q.bytes ++ wordsBytes words) = 61 :: 63 :: t := ⟨_, rfl⟩
    have hpos : 0 < w.bytes.length := Nat.succ_pos _
    obtain ⟨m, rfl⟩ := Nat.exists_eq_add_of_lt (show p.bytes.length < n by omega)
    obtain ⟨t, ht⟩ := hmark
    have hq : words ≠ [] → q.Clear := fun hne => hwords (w, q) (by rw [List.dropLast_cons_of_ne_nil hne]; exact List.mem_cons_self)
    have hwords' : ∀ v ∈ words.dropLast, v.2.Clear := by
      intro v hv
      have hne : words ≠ [] := by
        rintro rfl
        cases hv
      refine hwords v ?_
      rw [List.dropLast_cons_of_ne_nil hne]
      exact List.mem_cons_of_mem _ hv
    have hshort : (q.bytes ++ wordsBytes words).length < m := by omega
    have hrest : decodeSpans F theCharset m [] true (q.bytes ++ wordsBytes words) = _ := ih q (fun _ => hq) hwords' hshort
    rw [wordsBytes_cons, ht, show p.bytes.length + m + 1 = m + 1 + p.bytes.length by omega, decodeSpans_plain p.unmarked, ← ht,
      decodeSpans_encoded, hrest, Option.map_some, List.nil_append, wordsDecoded]
    simp only [true_and, List.append_assoc]
    congr 2
    cases ignoreSpan with
    | false => simp [Plain.decoded]
    | true =>
      have hfront := Plain.front_eq F theCharset (hp rfl (List.cons_ne_nil _ _))
      simpa using hfront

/-- A value that does not begin like one of ISO-2022-JP, and in which what is between two words is white space or visible
text. -/
theorem decodeHeader_segments (h : HeaderValue) (hannouncer : hasCPrefix h.bytes (27 :: ascii "$B") = false)
    (hclear : ∀ w ∈ h.words.dropLast, w.2.Clear) :
    decodeHeader F theCharset h.bytes = some (h.decoded F theCharset) := by
  rw [decodeHeader]
  by_cases hnil : h.bytes = []
  · have hfront : h.front.bytes = [] := (List.append_eq_nil_iff.mp hnil).1
    have hwords : h.words = [] := by
      have hflat := (List.append_eq_nil_iff.mp hnil).2
      cases hw : h.words with
      | nil => rfl
      | cons w words =>
        rw [hw, wordsBytes_cons] at hflat
        cases hflat
    rw [if_pos hnil, HeaderValue.decoded, Plain.decoded, if_pos hfront, hwords]
    rfl
  · rw [if_neg hnil, hannouncer, if_neg Bool.false_ne_true, HeaderValue.bytes,
      decodeSpans_words_of_clear h.front (fun h => by cases h) hclear (Nat.lt_succ_self _), if_neg (fun h => by cases h.1)]
    rfl

end Runs

section Samples

/-- ISO-8859-1, and ISO-2022-JP for the text of one kanji and a word. -/
def western : Foundation where
  whitespace c := c = 32 || c = 9
  skipped c := c = 32 || c = 9 || c = 10
  charset _ := ascii "iso-8859-1"
  encode _ w := some (w.map UInt16.toUInt8)
  decode _ b := some (asciiUnits b)
  iso2022jp b := some (0x4E9C :: asciiUnits (b.drop 8))
  cString := asciiUnits

lemma cedilla_text : QText [97, 98, 61, 69, 55, 100, 101] [97, 98, 0xE7, 100, 101] := by
  have htail : QText [100, 101] [100, 101] := .char (by decide) (.char (by decide) .nil)
  have hhex : QText [61, 69, 55, 100, 101] [0xE7, 100, 101] := QText.hex (x := 14) (y := 7) rfl rfl htail
  exact .char (by decide) (.char (by decide) hhex)

def cedilla : EncodedWord where
  charset := ascii "iso-8859-1"
  charset_ne_nil := by decide
  charset_open := by decide
  encoding := 81
  text := [97, 98, 61, 69, 55, 100, 101]
  data := [97, 98, 0xE7, 100, 101]
  isText := .inl ⟨rfl, cedilla_text⟩

def blank : Plain := ⟨[32], List.isChain_singleton 32⟩

def empty : Plain := ⟨[], List.isChain_nil⟩

def adjacent : HeaderValue := ⟨empty, [(cedilla, blank), (cedilla, empty)]⟩

theorem decodeHeader_adjacent : decodeHeader western none (ascii "=?iso-8859-1?Q?ab=E7de?= =?iso-8859-1?Q?ab=E7de?=") =
    some [97, 98, 0xE7, 100, 101, 97, 98, 0xE7, 100, 101] := by
  have hclear : ∀ w ∈ adjacent.words.dropLast, w.2.Clear := by
    intro w hw
    rw [List.mem_singleton.mp hw]
    exact .inl rfl
  have hbytes : adjacent.bytes = ascii "=?iso-8859-1?Q?ab=E7de?= =?iso-8859-1?Q?ab=E7de?=" := by decide
  have hdecoded : adjacent.decoded western none = [97, 98, 0xE7, 100, 101, 97, 98, 0xE7, 100, 101] := by decide
  have hplain : hasCPrefix adjacent.bytes (27 :: ascii "$B") = false := by decide
  have h : decodeHeader western none adjacent.bytes = some (adjacent.decoded western none) :=
    decodeHeader_segments adjacent hplain hclear
  rwa [hbytes, hdecoded] at h

/-- A value that begins like one of ISO-2022-JP, with a word. -/
def announced : HeaderValue where
  front := ⟨27 :: ascii "$B0!" ++ 27 :: ascii "(B ", by unfold Unmarked; decide⟩
  words := [(cedilla, empty)]

theorem not_decodeHeader_segments : ¬∀ F theCharset (h : HeaderValue),
    decodeHeader F theCharset h.bytes = some (h.decoded F theCharset) := by
  intro h
  have hnot : decodeHeader western none announced.bytes ≠ some (announced.decoded western none) := by decide
  exact hnot (h western none announced)

end Samples

end Xperimentum.Pantomime.EncodedWords
