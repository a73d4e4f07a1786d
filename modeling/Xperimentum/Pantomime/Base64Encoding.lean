import Xperimentum.Lib.Byte
import Xperimentum.Pantomime.Base64

/-! What the base64 encoder writes, and when its block is large enough for that. -/

namespace Xperimentum.Pantomime

open Lib.Byte Lib.Int32 Lib.Memory Lib.Partial

variable {theLength : ℕ} {block text text' : Bytes} {p w : ℕ}

section Writing

/-- The block behind a write at `p`. -/
def splice (block : Bytes) (p : ℕ) (text : Bytes) : Bytes := block.take p ++ (text ++ block.drop (p + text.length))

lemma length_splice (h : p + text.length ≤ block.length) : (splice block p text).length = block.length := by
  rw [splice, List.length_append, List.length_append, List.length_take_of_le (by omega), List.length_drop]
  omega

lemma splice_splice (h : p + text.length ≤ block.length) :
    splice (splice block p text) (p + text.length) text' = splice block p (text ++ text') := by
  have htake : (block.take p).length = p := List.length_take_of_le (by omega)
  have hfirst : (splice block p text).take (p + text.length) = block.take p ++ text := by
    rw [splice, ← List.append_assoc]
    exact List.take_left' (by rw [List.length_append, htake])
  have hrest : (splice block p text).drop (p + text.length) = block.drop (p + text.length) := by
    rw [splice, ← List.append_assoc]
    exact List.drop_left' (by rw [List.length_append, htake])
  rw [splice, hfirst, ← List.drop_drop, hrest, List.drop_drop, splice, List.length_append, List.append_assoc,
    List.append_assoc, Nat.add_assoc]

lemma splice_nil : splice block p [] = block := by
  rw [splice, List.nil_append, List.length_nil, Nat.add_zero, List.take_append_drop]

lemma put_eq (hne : text ≠ []) : Output.put ⟨block, p, w⟩ text =
    if p + text.length ≤ block.length then some ⟨splice block p text, (p + text.length : ℕ), w⟩ else none := by
  rw [Output.put]
  split_ifs with hfits
  · have hmove := move_eq block text (s := 0) hfits (Nat.zero_add _).le
    rw [List.drop_zero, List.take_length] at hmove
    rw [← Nat.cast_zero, hmove, Nat.cast_add]
    rfl
  · have hpos : 0 < text.length := List.length_pos_of_ne_nil hne
    rw [move, if_neg]
    · rfl
    · rintro ⟨-, hin, -⟩
      rcases hin with hempty | ⟨-, hend⟩
      · exact absurd (Nat.cast_pos.mpr hpos) (not_lt.mpr hempty)
      · have hlast : (p : ℤ) + text.length ≤ block.length := hend
        omega

def breaks (theLength w : ℕ) : Bool := theLength ≠ 0 ∧ w + 1 = theLength / 4

def nextWord (theLength w : ℕ) : ℕ := if breaks theLength w then 0 else w + 1

def chunkText (theLength w : ℕ) (chunk : Bytes) : Bytes := chunk ++ if breaks theLength w then [10] else []

/-- What the encoder writes, wherever there is room for it. -/
def encodedText (theLength : ℕ) : ℕ → Bytes → Bytes
  | w, a :: b :: c :: rest =>
    chunkText theLength w (nb64Chunk a b c ((rest.length + 3) % 2 ^ 32)) ++
      encodedText theLength (nextWord theLength w) rest
  | w, [a, b] => chunkText theLength w (nb64Chunk a b 0 2)
  | w, [a] => chunkText theLength w (nb64Chunk a 0 0 1)
  | _, [] => []

lemma putChunk_eq {chunk : Bytes} (hne : chunk ≠ []) : putChunk theLength chunk ⟨block, p, w⟩ =
    if p + (chunkText theLength w chunk).length ≤ block.length then
      some ⟨splice block p (chunkText theLength w chunk), (p + (chunkText theLength w chunk).length : ℕ), nextWord theLength w⟩
    else none := by
  rw [putChunk, put_eq hne]
  cases hbreak : breaks theLength w with
  | false =>
    have hstay : ¬(theLength ≠ 0 ∧ w + 1 = theLength / 4) := of_decide_eq_false hbreak
    simp only [chunkText, nextWord, hbreak, Bool.false_eq_true, if_false, List.append_nil]
    split_ifs
    · rw [Option.bind_eq_bind, Option.bind_some, if_neg hstay]
      rfl
    · rfl
  | true =>
    have hnext : theLength ≠ 0 ∧ w + 1 = theLength / 4 := of_decide_eq_true hbreak
    simp only [chunkText, nextWord, hbreak, if_true, List.length_append, List.length_singleton]
    by_cases hchunk : p + chunk.length ≤ block.length
    · rw [if_pos hchunk, Option.bind_eq_bind, Option.bind_some, if_pos hnext, put_eq (List.cons_ne_nil _ _),
        length_splice hchunk, List.length_singleton, splice_splice hchunk, Nat.add_assoc]
    · rw [if_neg hchunk, if_neg (by omega)]
      rfl

lemma nb64Chunk_length (a b c : UInt8) (n : ℕ) : (nb64Chunk a b c n).length = 4 := by
  rw [nb64Chunk]
  split_ifs <;> rfl

lemma nb64Chunk_ne_nil (a b c : UInt8) (n : ℕ) : nb64Chunk a b c n ≠ [] :=
  List.ne_nil_of_length_pos (by rw [nb64Chunk_length]; decide)

def endWord (theLength : ℕ) : ℕ → Bytes → ℕ
  | w, _ :: _ :: _ :: rest => endWord theLength (nextWord theLength w) rest
  | w, [_, _] => nextWord theLength w
  | w, [_] => nextWord theLength w
  | w, [] => w

lemma putChunks_eq (b : Bytes) (hp : p ≤ block.length) : putChunks theLength b ⟨block, p, w⟩ =
    if p + (encodedText theLength w b).length ≤ block.length then
      some ⟨splice block p (encodedText theLength w b), (p + (encodedText theLength w b).length : ℕ), endWord theLength w b⟩
    else none := by
  fun_induction encodedText theLength w b generalizing block p with
  | case1 w a b c rest ih =>
    rw [putChunks, putChunk_eq (nb64Chunk_ne_nil _ _ _ _), List.length_append]
    generalize chunkText theLength w (nb64Chunk a b c ((rest.length + 3) % 2 ^ 32)) = text
    by_cases hchunk : p + text.length ≤ block.length
    · rw [if_pos hchunk, Option.bind_eq_bind, Option.bind_some, ih (by rwa [length_splice hchunk]), length_splice hchunk,
        splice_splice hchunk, Nat.add_assoc]
      rfl
    · rw [if_neg hchunk, if_neg (by omega)]
      rfl
  | case2 w a b => exact putChunk_eq (nb64Chunk_ne_nil _ _ _ _)
  | case3 w a => exact putChunk_eq (nb64Chunk_ne_nil _ _ _ _)
  | case4 w =>
    rw [putChunks, splice_nil, endWord, List.length_nil, Nat.add_zero, if_pos hp]
    rfl

lemma encodeBase64_eq (b : Bytes) : encodeBase64 theLength b =
    if (encodedText theLength 0 b).length ≤ b.length * 2 then some (encodedText theLength 0 b) else none := by
  have hrun : putChunks theLength b ⟨List.replicate (b.length * 2) 0, (0 : ℕ), 0⟩ = _ := putChunks_eq b (Nat.zero_le _)
  rw [Nat.cast_zero, List.length_replicate, Nat.zero_add] at hrun
  rw [encodeBase64, hrun]
  split_ifs
  · rw [Option.bind_eq_bind, Option.bind_some, Int.toNat_natCast, splice, List.take_zero, List.nil_append, List.take_left]
    rfl
  · rfl

end Writing

section Size

def words (n : ℕ) : ℕ := (n + 2) / 3

lemma breaks_iff : breaks theLength w = true ↔ theLength ≠ 0 ∧ w + 1 = theLength / 4 := decide_eq_true_iff

lemma chunkText_length {chunk : Bytes} (hchunk : chunk.length = 4) :
    (chunkText theLength w chunk).length = 4 + if breaks theLength w then 1 else 0 := by
  rw [chunkText, List.length_append, hchunk]
  split_ifs <;> rfl

lemma words_add_three (n : ℕ) : words (n + 3) = words n + 1 := by
  rw [words, words]
  omega

lemma encodedText_unbroken (h : theLength < 4) (b : Bytes) :
    (encodedText theLength w b).length = 4 * words b.length := by
  have hchunk {a b c : UInt8} {n w : ℕ} : (chunkText theLength w (nb64Chunk a b c n)).length = 4 := by
    rw [chunkText_length (nb64Chunk_length a b c n), if_neg]
    rw [breaks_iff]
    omega
  fun_induction encodedText theLength w b with
  | case1 w a b c rest ih =>
    have hwords := words_add_three rest.length
    rw [List.length_append, hchunk, ih, List.length_cons, List.length_cons, List.length_cons, hwords]
    omega
  | case2 w a b => exact hchunk.trans (by decide : 4 = 4 * words 2)
  | case3 w a => exact hchunk.trans (by decide : 4 = 4 * words 1)
  | case4 w => rfl

lemma chunkText_counted {chunk : Bytes} (hchunk : chunk.length = 4) (h : 4 ≤ theLength) (hw : w < theLength / 4) (m : ℕ) :
    nextWord theLength w < theLength / 4 ∧
      (chunkText theLength w chunk).length + (4 * m + (nextWord theLength w + m) / (theLength / 4)) =
        4 * (m + 1) + (w + (m + 1)) / (theLength / 4) := by
  rw [chunkText_length hchunk, nextWord]
  by_cases hbreak : breaks theLength w = true
  · have hlast := (breaks_iff.mp hbreak).2
    have hsum : w + (m + 1) = m + theLength / 4 := by omega
    rw [if_pos hbreak, if_pos hbreak, hsum, Nat.add_div_right m (by omega), Nat.zero_add]
    omega
  · have hsum : w + (m + 1) = w + 1 + m := by omega
    have hnext : w + 1 ≠ theLength / 4 := fun hlast => hbreak (breaks_iff.mpr ⟨by omega, hlast⟩)
    rw [if_neg hbreak, if_neg hbreak, hsum]
    omega

lemma encodedText_broken (h : 4 ≤ theLength) (hw : w < theLength / 4) (b : Bytes) :
    (encodedText theLength w b).length = 4 * words b.length + (w + words b.length) / (theLength / 4) := by
  have hlast {a b c : UInt8} {n m w : ℕ} (hm : words m = 1) (hw : w < theLength / 4) :
      (chunkText theLength w (nb64Chunk a b c n)).length = 4 * words m + (w + words m) / (theLength / 4) := by
    obtain ⟨hnext, hlength⟩ := chunkText_counted (nb64Chunk_length a b c n) h hw 0
    rw [hm]
    rwa [Nat.add_zero, Nat.div_eq_of_lt hnext] at hlength
  fun_induction encodedText theLength w b with
  | case1 w a b c rest ih =>
    obtain ⟨hnext, hlength⟩ :=
      chunkText_counted (nb64Chunk_length a b c ((rest.length + 3) % 2 ^ 32)) h hw (words rest.length)
    rw [List.length_append, ih hnext, hlength, ← words_add_three]
    rfl
  | case2 w a b => exact hlast (by decide : words 2 = 1) hw
  | case3 w a => exact hlast (by decide : words 1 = 1) hw
  | case4 w =>
    have hzero : words 0 = 0 := by decide
    rw [List.length_nil, hzero, Nat.add_zero, Nat.div_eq_of_lt hw]

/-- Twice the length of the data is enough. -/
def EncodingFits (theLength n : ℕ) : Prop :=
  n ≠ 1 ∧ (4 ≤ theLength → theLength < 8 → n ≠ 2 ∧ n ≠ 7) ∧ (4 ≤ theLength → theLength < 12 → n ≠ 4)

lemma encodingFits_iff (b : Bytes) : (encodedText theLength 0 b).length ≤ b.length * 2 ↔ EncodingFits theLength b.length := by
  generalize hn : b.length = n
  by_cases h : 4 ≤ theLength
  · rw [encodedText_broken h (by omega), hn, Nat.zero_add, words, EncodingFits]
    generalize hk : theLength / 4 = k
    have hself := Nat.div_le_self ((n + 2) / 3) k
    by_cases hlong : 10 ≤ n
    · omega
    · have hshort : (n + 2) / 3 ≤ 3 := by omega
      by_cases hwide : 4 ≤ k
      · rw [Nat.div_eq_of_lt (by omega : (n + 2) / 3 < k)]
        omega
      · interval_cases k <;> omega
  · rw [encodedText_unbroken (by omega), hn, words, EncodingFits]
    omega

end Size

end Xperimentum.Pantomime
