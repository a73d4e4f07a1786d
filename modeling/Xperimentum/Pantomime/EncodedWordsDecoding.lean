import Xperimentum.Pantomime.HeaderLines
import Xperimentum.Pantomime.QuotedPrintableRoundTrip

/-! What is decoded from encoded words, and from text without any. -/

namespace Xperimentum.Pantomime.EncodedWords

open Lib.Byte

section Words

variable {F : Foundation} {theCharset : Option Bytes}

lemma takeWhile_until {x : UInt8} {a b : Bytes} (ha : x ∉ a) :
    (a ++ x :: b).takeWhile (· ≠ x) = a ∧ (a ++ x :: b).dropWhile (· ≠ x) = x :: b := by
  have hall : ∀ c ∈ a, decide (c ≠ x) = true := fun c hc => decide_eq_true (ne_of_mem_of_not_mem hc ha)
  rw [List.takeWhile_append_of_pos hall, List.dropWhile_append_of_pos hall]
  simp

lemma parseWord_word {x encoding : UInt8} {charset text : Bytes} (hcharset : 63 ∉ charset) (htext : 63 ∉ text)
    (rest : Bytes) :
    parseWord (x :: charset ++ 63 :: encoding :: 63 :: (text ++ 63 :: 61 :: rest)) =
      some (x :: charset, encoding, text, rest) := by
  obtain ⟨hcs, hcs'⟩ := takeWhile_until (b := encoding :: 63 :: (text ++ 63 :: 61 :: rest)) hcharset
  obtain ⟨htx, htx'⟩ := takeWhile_until (b := 61 :: rest) htext
  simp only [List.cons_append, parseWord, hcs, hcs', htx, htx']

def literal (F : Foundation) (theCharset : Option Bytes) (span : Bytes) : Str :=
  (theCharset.bind fun charset => F.decode charset span).getD (F.literal span)

def Unmarked (b : Bytes) : Prop := b.IsChain fun x y => ¬(x = 61 ∧ y = 63)

lemma decodeSpans_step {c d : UInt8} (h : ¬(c = 61 ∧ d = 63)) (n : ℕ) (span : Bytes) (ignoreSpan : Bool) (b : Bytes) :
    decodeSpans F theCharset (n + 1) span ignoreSpan (c :: d :: b) =
      decodeSpans F theCharset n (span ++ [c]) (ignoreSpan && !(32 < c && c < 128)) (d :: b) := by
  rw [decodeSpans.eq_def]
  simp only
  split
  · rename_i heq
    cases heq
    exact absurd ⟨rfl, rfl⟩ h
  · rename_i heq
    cases heq
    rfl
  · rename_i hne
    exact absurd rfl (hne c d b)

lemma decodeSpans_unmarked {b : Bytes} (hb : Unmarked b) {n : ℕ} (hn : b.length < n) (span : Bytes)
    (ignoreSpan : Bool) : decodeSpans F theCharset n span ignoreSpan b =
      some (if span ++ b = [] then [] else literal F theCharset (span ++ b)) := by
  induction b generalizing n span ignoreSpan with
  | nil =>
    obtain ⟨n, rfl⟩ := Nat.exists_eq_add_one_of_ne_zero (Nat.ne_zero_of_lt hn)
    simp only [decodeSpans, literal, List.append_nil]
  | cons c b ih =>
    obtain ⟨n, rfl⟩ := Nat.exists_eq_add_one_of_ne_zero (Nat.ne_zero_of_lt hn)
    cases b with
    | nil => simp only [decodeSpans, literal]
    | cons d b =>
      rw [decodeSpans_step (List.IsChain.rel hb), ih (List.IsChain.tail hb) (Nat.lt_of_succ_lt_succ hn),
        List.append_assoc, List.singleton_append]

/-- What the methods rely on: blanks, names of character sets, and text that is ASCII. -/
structure Converts (F : Foundation) (theCharset : Option Bytes) : Prop where
  whitespace_ascii : ∀ c, c < 128 → (F.whitespace c = true ↔ c = 32 ∨ c = 9)
  whitespace_skipped : ∀ c, F.whitespace c = true → F.skipped c = true
  charset_name : ∀ w, F.charset w ≠ [] ∧ 63 ∉ F.charset w ∧ 10 ∉ F.charset w
  ascii_decoded : ∀ charset ∈ theCharset, ∀ b : Bytes, b.all (· < 128) = true → F.decode charset b = some (asciiUnits b)
  empty_decoded : ∀ w, (F.decode (theCharset.getD (F.charset w)) []).getD [] = []
  escape_decoded : ∀ b s, F.iso2022jp (27 :: ascii "$B" ++ b) = some s → s.head? ≠ some 27

def Lossless (F : Foundation) (theCharset : Option Bytes) (charset : Bytes) (line : Str) : Prop :=
  line ≠ [] → ∃ b, F.encode charset line = some b ∧ F.decode (theCharset.getD charset) b = some line

lemma literal_ascii (hF : Converts F theCharset) {b : Bytes} (hb : b.all (· < 128) = true) :
    literal F theCharset b = asciiUnits b := by
  rw [literal]
  cases theCharset with
  | none => exact if_pos hb
  | some charset =>
    rw [Option.bind_some, hF.ascii_decoded charset rfl b hb]
    rfl

lemma decodeText_encodeHeader (hF : Converts F theCharset) {w line : Str} (h : Lossless F theCharset (F.charset w) line) :
    ∃ data, decodeText 113 (encodeHeader F (F.charset w) line) = some data ∧
      (F.decode (theCharset.getD (F.charset w)) data).getD [] = line := by
  by_cases hne : line = []
  · refine ⟨[], ?_, ?_⟩
    · rw [encodeHeader, if_pos hne]
      rfl
    · rw [hF.empty_decoded w, hne]
  · obtain ⟨b, henc, hdec⟩ := h hne
    refine ⟨b, ?_, by rw [hdec]; rfl⟩
    rw [encodeHeader, if_neg hne, henc]
    exact decode_encodeQuotedPrintable true b 0 0

lemma question_not_mem_encodeHeader (charset : Bytes) (line : Str) : 63 ∉ encodeHeader F charset line := by
  rw [encodeHeader]
  split_ifs
  · exact List.not_mem_nil
  · cases F.encode charset line with
    | none => exact List.not_mem_nil
    | some b => exact not_mem_encodeQuotedPrintable (forall_byte (by decide)) (by decide) (by decide) 0 b

lemma decodeSpans_word (hF : Converts F theCharset) {w line : Str} (h : Lossless F theCharset (F.charset w) line)
    (n : ℕ) {span : Bytes} {ignoreSpan : Bool} (hspan : span = [] ∨ ignoreSpan = true) (rest : Bytes) :
    decodeSpans F theCharset (n + 1) span ignoreSpan (encodeLine F true (F.charset w) line ++ rest) =
      (decodeSpans F theCharset n [] true rest).map (line ++ ·) := by
  obtain ⟨hne, hquestion, -⟩ := hF.charset_name w
  obtain ⟨data, htext, hdata⟩ := decodeText_encodeHeader hF h
  have hword : encodeLine F true (F.charset w) line ++ rest = 61 :: 63 :: (F.charset w ++
      63 :: 113 :: 63 :: (encodeHeader F (F.charset w) line ++ 63 :: 61 :: rest)) := by
    simp [encodeLine, ascii]
  have hparse : parseWord (F.charset w ++ 63 :: 113 :: 63 ::
      (encodeHeader F (F.charset w) line ++ 63 :: 61 :: rest)) =
        some (F.charset w, 113, encodeHeader F (F.charset w) line, rest) := by
    obtain ⟨x, charset, hcs⟩ := List.exists_cons_of_ne_nil hne
    rw [hcs] at hquestion ⊢
    exact parseWord_word (fun h => hquestion (List.mem_cons_of_mem _ h)) (question_not_mem_encodeHeader _ _) rest
  have hq : lower 113 = 113 ∨ lower 113 = 98 := Or.inl rfl
  rw [hword, decodeSpans.eq_def]
  simp only [hparse, if_pos hq, if_pos hspan, htext, Option.bind_some, hdata, List.nil_append]

lemma intercalate_starts (F : Foundation) (charset : Bytes) (line : Str) (ls : List Bytes) :
    ∃ b, [32].intercalate (encodeLine F true charset line :: ls) = 61 :: b := by
  cases ls with
  | nil => exact ⟨_, by rw [List.intercalate_singleton]; rfl⟩
  | cons l ls => exact ⟨_, by rw [List.intercalate_cons_cons]; rfl⟩

lemma decodeSpans_words (hF : Converts F theCharset) {w : Str} {ls : List Str}
    (h : ∀ line ∈ ls, Lossless F theCharset (F.charset w) line) {tail : Bytes} (htail : Unmarked tail)
    (hascii : tail.all (· < 128) = true) (hls : ls ≠ []) {n : ℕ}
    (hn : ([32].intercalate (ls.map (encodeLine F true (F.charset w))) ++ tail).length < n) {span : Bytes}
    {ignoreSpan : Bool} (hspan : span = [] ∨ ignoreSpan = true) :
    decodeSpans F theCharset n span ignoreSpan ([32].intercalate (ls.map (encodeLine F true (F.charset w))) ++ tail) =
      some (ls.flatten ++ asciiUnits tail) := by
  induction ls generalizing n span ignoreSpan with
  | nil => exact absurd rfl hls
  | cons line ls ih =>
    obtain ⟨n, rfl⟩ := Nat.exists_eq_add_one_of_ne_zero (Nat.ne_zero_of_lt hn)
    have hline := h line List.mem_cons_self
    have hpos : 2 ≤ (encodeLine F true (F.charset w) line).length := by
      simp [encodeLine, ascii]
    cases ls with
    | nil =>
      simp only [List.map_cons, List.map_nil, List.intercalate_singleton, List.length_append] at hn ⊢
      rw [decodeSpans_word hF hline n hspan, decodeSpans_unmarked htail (by omega), List.nil_append]
      split_ifs with hnil
      · simp [hnil, asciiUnits]
      · rw [literal_ascii hF hascii]
        simp
    | cons next ls =>
      simp only [List.map_cons, List.intercalate_cons_cons, List.append_assoc, List.length_append] at hn ⊢
      rw [decodeSpans_word hF hline n hspan]
      obtain ⟨n, rfl⟩ := Nat.exists_eq_add_one_of_ne_zero (show n ≠ 0 by omega)
      have hshort : ([32].intercalate (encodeLine F true (F.charset w) next ::
          ls.map (encodeLine F true (F.charset w))) ++ tail).length < n := by
        simp only [List.length_append, List.length_singleton] at hn ⊢
        omega
      have hrest : decodeSpans F theCharset n [32] true ([32].intercalate (encodeLine F true (F.charset w) next ::
          ls.map (encodeLine F true (F.charset w))) ++ tail) = some ((next :: ls).flatten ++ asciiUnits tail) :=
        ih (fun k hk => h k (List.mem_cons_of_mem _ hk)) (List.cons_ne_nil _ _) hshort (Or.inr rfl)
      obtain ⟨b, hb⟩ := intercalate_starts F (F.charset w) next (ls.map (encodeLine F true (F.charset w)))
      rw [hb, List.cons_append] at hrest ⊢
      change Option.map _ (decodeSpans F theCharset (n + 1) [] true (32 :: 61 :: (b ++ tail))) = _
      have hblank : (true && !(decide ((32 : UInt8) < 32) && decide ((32 : UInt8) < 128))) = true := rfl
      rw [decodeSpans_step (by decide), hblank, List.nil_append, hrest]
      simp

end Words

end Xperimentum.Pantomime.EncodedWords
