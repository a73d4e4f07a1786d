import Xperimentum.Lib.Byte
import Xperimentum.Pantomime.Base64Decoding
import Xperimentum.Pantomime.Base64Encoding

/-! Base64 text is decoded to the data it was made from. -/

namespace Xperimentum.Pantomime

open Lib.Byte Lib.Int32 Lib.Memory Lib.Partial

variable {theLength w : ℕ} {a b c : UInt8}

section Characters

lemma getValue_base64Char (n : UInt8) : getValue (base64Char n) = n.toNat % 64 := by
  revert n
  exact forall_byte (by decide +kernel)

lemma base64Char_ne (n : UInt8) : base64Char n ≠ 10 ∧ base64Char n ≠ 61 := by
  revert n
  exact forall_byte (by decide +kernel)

lemma sextet_first (a : UInt8) : (a >>> 2).toNat % 64 = a.toNat / 4 := by
  revert a
  exact forall_byte (by decide +kernel)

lemma byte_parts (a : UInt8) :
    ((a &&& 3) <<< 4).toNat = a.toNat % 4 * 16 ∧ ((a &&& 0xf) <<< 2).toNat = a.toNat % 16 * 4 ∧
    ((a &&& 0xf0) >>> 4).toNat = a.toNat / 16 ∧ ((a &&& 0xc0) >>> 6).toNat = a.toNat / 64 := by
  revert a
  exact forall_byte (by decide +kernel)

lemma sextet_second (a b : UInt8) :
    ((a &&& 3) <<< 4 ||| (b &&& 0xf0) >>> 4).toNat % 64 = a.toNat % 4 * 16 + b.toNat / 16 := by
  have hb := b.toNat_lt
  have hor : 16 * (a.toNat % 4) ||| b.toNat / 16 = 16 * (a.toNat % 4) + b.toNat / 16 :=
    (Nat.two_pow_add_eq_or_of_lt (by omega : b.toNat / 16 < 2 ^ 4) _).symm
  rw [UInt8.toNat_or, (byte_parts a).1, (byte_parts b).2.2.1, Nat.mul_comm, hor]
  omega

lemma sextet_third (b c : UInt8) :
    ((b &&& 0xf) <<< 2 ||| (c &&& 0xc0) >>> 6).toNat % 64 = b.toNat % 16 * 4 + c.toNat / 64 := by
  have hc := c.toNat_lt
  have hor : 4 * (b.toNat % 16) ||| c.toNat / 64 = 4 * (b.toNat % 16) + c.toNat / 64 :=
    (Nat.two_pow_add_eq_or_of_lt (by omega : c.toNat / 64 < 2 ^ 2) _).symm
  rw [UInt8.toNat_or, (byte_parts b).2.1, (byte_parts c).2.2.2, Nat.mul_comm, hor]
  omega

end Characters

section Chunks

lemma sextets_block (a b c : ℕ) :
    ((a / 4 : ℕ) : ℤ) * 2 ^ 18 + (a % 4 * 16 + b / 16 : ℕ) * 2 ^ 12 + (b % 16 * 4 + c / 64 : ℕ) * 2 ^ 6 +
      (c % 64 : ℕ) = a * 65536 + b * 256 + c := by
  have ha : ((4 * (a / 4) + a % 4 : ℕ) : ℤ) = a := congrArg _ (Nat.div_add_mod a 4)
  have hb : ((16 * (b / 16) + b % 16 : ℕ) : ℤ) = b := congrArg _ (Nat.div_add_mod b 16)
  have hc : ((64 * (c / 64) + c % 64 : ℕ) : ℤ) = c := congrArg _ (Nat.div_add_mod c 64)
  push_cast at ha hb hc ⊢
  linear_combination 65536 * ha + 256 * hb + hc

lemma block_bytes {a b c : ℕ} (ha : a < 256) (hb : b < 256) (hc : c < 256) :
    ((a * 65536 + b * 256 + c : ℤ) / 2 ^ 16 % 256).toNat = a ∧
      ((a * 65536 + b * 256 + c : ℤ) / 2 ^ 8 % 256).toNat = b ∧
      ((a * 65536 + b * 256 + c : ℤ) % 256).toNat = c := by
  refine ⟨?_, ?_, ?_⟩ <;> omega

lemma decodeBlocks_sextets {x y z t : UInt8} (hx : getValue x = (a.toNat / 4 : ℕ))
    (hy : getValue y = (a.toNat % 4 * 16 + b.toNat / 16 : ℕ))
    (hz : getValue z = (b.toNat % 16 * 4 + c.toNat / 64 : ℕ))
    (ht : getValue t = (c.toNat % 64 : ℕ)) (rest : Bytes) :
    decodeBlocks (x :: y :: z :: t :: rest) = (decodeBlocks rest).map fun raw => a :: b :: c :: raw := by
  obtain ⟨hfirst, hsecond, hthird⟩ := block_bytes a.toNat_lt b.toNat_lt c.toNat_lt
  rw [decodeBlocks]
  simp only [hx, hy, hz, ht, sextets_block, hfirst, hsecond, hthird, UInt8.ofNat_toNat]

lemma decodeBlocks_whole {n : ℕ} (hn : 3 ≤ n) (rest : Bytes) :
    decodeBlocks (nb64Chunk a b c n ++ rest) = (decodeBlocks rest).map fun raw => a :: b :: c :: raw := by
  rw [nb64Chunk, if_pos hn]
  apply decodeBlocks_sextets
  · rw [getValue_base64Char, ← sextet_first]
    rfl
  · rw [getValue_base64Char, ← sextet_second]
    rfl
  · rw [getValue_base64Char, ← sextet_third]
    rfl
  · exact getValue_base64Char c

lemma decodeBlocks_two : decodeBlocks (nb64Chunk a b 0 2) = some [a, b, 0] := by
  have hsextets := decodeBlocks_sextets (a := a) (b := b) (c := 0) (x := base64Char (a >>> 2))
    (y := base64Char ((a &&& 3) <<< 4 ||| (b &&& 0xf0) >>> 4)) (z := base64Char ((b &&& 0xf) <<< 2)) (t := 61)
    ?_ ?_ ?_ rfl []
  · exact hsextets
  · rw [getValue_base64Char, ← sextet_first]
    rfl
  · rw [getValue_base64Char, ← sextet_second]
    rfl
  · have hb := (byte_parts b).2.1
    have hzero : (0 : UInt8).toNat = 0 := rfl
    rw [getValue_base64Char, hb, hzero]
    omega

lemma decodeBlocks_one : decodeBlocks (nb64Chunk a 0 0 1) = some [a, 0, 0] := by
  have hsextets := decodeBlocks_sextets (a := a) (b := 0) (c := 0) (x := base64Char (a >>> 2))
    (y := base64Char ((a &&& 3) <<< 4)) (z := 61) (t := 61) ?_ ?_ rfl rfl []
  · exact hsextets
  · rw [getValue_base64Char, ← sextet_first]
    rfl
  · have ha := (byte_parts a).1
    have hzero : (0 : UInt8).toNat = 0 := rfl
    rw [getValue_base64Char, ha, hzero]
    omega

lemma nb64Chunk_feed (a b c : UInt8) (n : ℕ) : 10 ∉ nb64Chunk a b c n := by
  have hchar (n : UInt8) : ¬10 = base64Char n := fun h => (base64Char_ne n).1 h.symm
  rw [nb64Chunk]
  split_ifs <;> simp [hchar]

lemma removeLineFeeds_chunk (a b c : UInt8) (n : ℕ) :
    removeLineFeeds (chunkText theLength w (nb64Chunk a b c n)) = nb64Chunk a b c n := by
  have hkept : removeLineFeeds (nb64Chunk a b c n) = nb64Chunk a b c n := by
    refine List.filter_eq_self.mpr fun x hx => decide_eq_true ?_
    rintro rfl
    exact nb64Chunk_feed a b c n hx
  rw [chunkText, removeLineFeeds, List.filter_append]
  split_ifs
  · exact (List.append_nil _).trans hkept
  · exact (List.append_nil _).trans hkept

lemma chunkText_zero (w : ℕ) (chunk : Bytes) : chunkText 0 w chunk = chunk := List.append_nil chunk

lemma removeLineFeeds_encodedText (w w' : ℕ) (d : Bytes) :
    removeLineFeeds (encodedText theLength w d) = encodedText 0 w' d := by
  fun_induction encodedText theLength w d generalizing w' with
  | case1 w a b c rest ih =>
    rw [encodedText, chunkText_zero, ← ih (nextWord 0 w')]
    exact (List.filter_append ..).trans (congrArg (· ++ _) (removeLineFeeds_chunk a b c _))
  | case2 w a b => exact (removeLineFeeds_chunk a b 0 2).trans (chunkText_zero w' _).symm
  | case3 w a => exact (removeLineFeeds_chunk a 0 0 1).trans (chunkText_zero w' _).symm
  | case4 w => rfl

/-- The bytes that are missing to a whole group. -/
def missing (n : ℕ) : ℕ := 3 * words n - n

lemma missing_add_three (n : ℕ) : missing (n + 3) = missing n := by
  rw [missing, missing, words_add_three]
  omega

lemma decodeBlocks_encodedText (w : ℕ) (d : Bytes) (hd : d.length < 2 ^ 32) :
    decodeBlocks (encodedText 0 w d) = some (d ++ List.replicate (missing d.length) 0) := by
  generalize hL : 0 = theLength
  fun_induction encodedText theLength w d with
  | case1 w a b c rest ih =>
    have hlength : (a :: b :: c :: rest).length = rest.length + 3 := rfl
    rw [hlength] at hd ⊢
    subst hL
    rw [chunkText_zero, decodeBlocks_whole (by rw [Nat.mod_eq_of_lt hd]; omega), ih (by omega), missing_add_three]
    rfl
  | case2 w a b =>
    subst hL
    rw [chunkText_zero, decodeBlocks_two]
    exact congrArg (fun m => some ([a, b] ++ List.replicate m 0)) (by decide : 1 = missing 2)
  | case3 w a =>
    subst hL
    rw [chunkText_zero, decodeBlocks_one]
    exact congrArg (fun m => some ([a] ++ List.replicate m 0)) (by decide : 2 = missing 1)
  | case4 w => rfl

lemma padLength_append {x rest : Bytes} (h : ∃ c ∈ rest, c ≠ 61) : padLength (x ++ rest) = padLength rest := by
  induction rest using List.reverseRecOn with
  | nil =>
    obtain ⟨c, hc, _⟩ := h
    cases hc
  | append_singleton rest c ih =>
    rw [← List.append_assoc, padLength_concat, padLength_concat]
    by_cases hc : c = 61
    · obtain ⟨d, hd, hne⟩ := h
      rcases List.mem_append.mp hd with hd | hd
      · rw [if_pos hc, if_pos hc, ih ⟨d, hd, hne⟩]
      · exact absurd ((List.mem_singleton.mp hd).trans hc) hne
    · rw [if_neg hc, if_neg hc]

lemma nb64Chunk_head (a b c : UInt8) (n : ℕ) : ∃ x ∈ nb64Chunk a b c n, x ≠ 61 := by
  refine ⟨base64Char (a >>> 2), ?_, (base64Char_ne _).2⟩
  rw [nb64Chunk]
  split_ifs <;> exact List.mem_cons_self

lemma encodedText_head {d : Bytes} (hd : d ≠ []) (w : ℕ) : ∃ x ∈ encodedText 0 w d, x ≠ 61 := by
  match d with
  | a :: b :: c :: rest =>
    obtain ⟨x, hx, hne⟩ := nb64Chunk_head a b c ((rest.length + 3) % 2 ^ 32)
    rw [encodedText, chunkText_zero]
    exact ⟨x, List.mem_append_left _ hx, hne⟩
  | [a, b] =>
    rw [encodedText, chunkText_zero]
    exact nb64Chunk_head a b 0 2
  | [a] =>
    rw [encodedText, chunkText_zero]
    exact nb64Chunk_head a 0 0 1

lemma padLength_encodedText (w : ℕ) (d : Bytes) (hd : d.length < 2 ^ 32) :
    padLength (encodedText 0 w d) = missing d.length := by
  have hpad (x : Bytes) (n : UInt8) : padLength (x ++ [base64Char n]) = 0 := by
    rw [padLength_concat, if_neg (base64Char_ne n).2]
  have hone (x : Bytes) : padLength (x ++ [61]) = padLength x + 1 := by
    rw [padLength_concat, if_pos rfl]
  generalize hL : 0 = theLength
  fun_induction encodedText theLength w d with
  | case1 w a b c rest ih =>
    have hlength : (a :: b :: c :: rest).length = rest.length + 3 := rfl
    rw [hlength] at hd ⊢
    subst hL
    rw [missing_add_three, chunkText_zero]
    by_cases hrest : rest = []
    · subst hrest
      exact hpad [_, _, _] c
    · rw [padLength_append (encodedText_head hrest _), ih (by omega)]
  | case2 w a b =>
    subst hL
    rw [chunkText_zero]
    have hchunk (x y : UInt8) : padLength ([x, y] ++ [base64Char ((b &&& 0xf) <<< 2)] ++ [61]) = missing 2 := by
      rw [hone, hpad]
      decide
    exact hchunk _ _
  | case3 w a =>
    subst hL
    rw [chunkText_zero]
    have hchunk (x : UInt8) : padLength ([x] ++ [base64Char ((a &&& 3) <<< 4)] ++ [61] ++ [61]) = missing 1 := by
      rw [hone, hone, hpad]
      decide
    exact hchunk _
  | case4 w => rfl

end Chunks

section RoundTrip

lemma decodeBase64_encodedText (d : Bytes) (hd : d.length < 2 ^ 32) :
    decodeBase64 (encodedText 0 w d) = some d := by
  have hlength : (encodedText 0 w d).length = 4 * words d.length := encodedText_unbroken (by decide) d
  have hbytes : 4 * words d.length * 6 / 8 = 3 * words d.length := by omega
  have hmissing : d.length ≤ 3 * words d.length := by
    rw [words]
    omega
  rw [decodeBase64, padLength_encodedText w d hd, hlength, hbytes, decodeBlocks_encodedText w d hd, missing]
  by_cases hnil : d = []
  · subst hnil
    rfl
  · obtain ⟨x, hx, hne⟩ := encodedText_head hnil w
    have hall : (encodedText 0 w d).all (· = 61) = false := by
      refine Bool.eq_false_iff.mpr fun h => hne ?_
      exact of_decide_eq_true (List.all_eq_true.mp h x hx)
    have hless : decide (3 * words d.length < 3 * words d.length - d.length) = false := decide_eq_false (by omega)
    have htake : 3 * words d.length - (3 * words d.length - d.length) = d.length := by omega
    rw [if_neg (List.ne_nil_of_mem hx), hall, hless, Bool.or_self, if_neg Bool.false_ne_true, htake,
      Option.map_some, List.take_left]

lemma mapM_eq_some {raw : Raw} {d : Bytes} (h : raw.mapM id = some d) : raw = d.map some := by
  induction raw generalizing d with
  | nil =>
    obtain rfl := Option.some.inj h
    rfl
  | cons x raw ih =>
    rw [List.mapM_cons] at h
    obtain ⟨c, hc, h⟩ := Option.bind_eq_some_iff.mp h
    obtain ⟨rest, hrest, h⟩ := Option.bind_eq_some_iff.mp h
    obtain rfl := Option.some.inj h
    rw [ih hrest]
    exact congrArg (· :: _) hc

lemma decodedBytes_unwritten {b d : Bytes} {p : ℕ} (hp : p < d.length)
    (hfree : ∀ k < b.length / 4, ∀ j < 3, wrap32 (0 + 3 * (k : ℕ)) + (j : ℕ) ≠ p) : decodedBytes b ≠ some d := by
  intro h
  obtain ⟨raw, hraw, hbytes⟩ := Option.bind_eq_some_iff.mp h
  obtain rfl := mapM_eq_some hbytes
  rw [decodeInto] at hraw
  split_ifs at hraw
  · rw [List.map_eq_nil_iff.mp (Option.some.inj hraw).symm] at hp
    cases hp
  · obtain ⟨pad, _, hput⟩ := Option.bind_eq_some_iff.mp hraw
    have hsame : (d.map some)[p]? = _ := putBlocks_unwritten b 0 hfree _ hput
    rw [List.getElem?_map, List.getElem?_eq_getElem hp, List.getElem?_replicate] at hsame
    split_ifs at hsame
    · cases Option.some.inj hsame
    · cases hsame

lemma unreached {k j : ℕ} (hk : k < 715827884) (hj : j < 3) :
    wrap32 (0 + 3 * (k : ℕ)) + (j : ℕ) ≠ 2147483649 := by
  by_cases hfits : k < 715827883
  · rw [wrap32_of_mem (by omega) (by omega)]
    omega
  · obtain rfl : k = 715827883 := by omega
    have hwrapped : wrap32 (0 + 3 * (715827883 : ℕ)) = -2147483647 := by decide
    rw [hwrapped]
    omega

lemma decodedBytes_large {b d : Bytes} (hd : 2 ^ 31 + 2 ≤ d.length)
    (hb : d.length = 2 ^ 31 + 2 → b.length ≤ 4 * words d.length) : decodedBytes b ≠ some d := by
  by_cases hleast : d.length = 2 ^ 31 + 2
  · have hsize : b.length / 4 ≤ 715827884 := by
      have hwords := hb hleast
      rw [words, hleast] at hwords
      omega
    refine decodedBytes_unwritten (p := 2147483649) (by omega) fun k hk j hj heq => ?_
    exact unreached (hk.trans_le hsize) hj heq
  · refine decodedBytes_unwritten (p := 2147483650) (by omega) fun k hk j hj heq => ?_
    have hupper := wrap32_upper (0 + 3 * (k : ℕ))
    omega

end RoundTrip

theorem base64_roundTrip_iff (theLength : ℕ) (d : Bytes) :
    (∃ text, encodeBase64 theLength d = some text ∧ decodedBytes (removeLineFeeds text) = some d) ↔
      EncodingFits theLength d.length ∧ d.length ≤ 2 ^ 31 + 1 := by
  rw [encodeBase64_eq, ← encodingFits_iff]
  have hlength : (encodedText 0 0 d).length = 4 * words d.length := encodedText_unbroken (by decide) d
  by_cases hfits : (encodedText theLength 0 d).length ≤ d.length * 2
  · rw [if_pos hfits, and_iff_right hfits]
    by_cases hsmall : d.length ≤ 2 ^ 31 + 1
    · refine iff_of_true ⟨_, rfl, ?_⟩ hsmall
      rw [removeLineFeeds_encodedText 0 0, decodedBytes_eq, decodeBase64_encodedText d (by omega)]
      rw [hlength, words]
      omega
    · refine iff_of_false ?_ hsmall
      rintro ⟨text, htext, hdecoded⟩
      obtain rfl := Option.some.inj htext
      rw [removeLineFeeds_encodedText 0 0] at hdecoded
      exact decodedBytes_large (by omega) (fun _ => hlength.le) hdecoded
  · rw [if_neg hfits]
    refine iff_of_false ?_ fun h => hfits h.1
    rintro ⟨text, htext, -⟩
    cases htext

/-- One byte takes four characters, and memory is allocated for two. -/
theorem one_byte_overflows :
    ¬∃ text, encodeBase64 76 [97] = some text ∧ decodedBytes (removeLineFeeds text) = some [97] := by
  rintro ⟨text, htext, -⟩
  have hnone : encodeBase64 76 [97] = none := by decide
  rw [hnone] at htext
  cases htext

theorem base64_memory_iff (bytes inBytes : Bytes) (theLength : ℕ) :
    ((decodeInto bytes).isSome = true ↔ DecodingFits bytes) ∧
      ((encodeBase64 theLength inBytes).isSome = true ↔ EncodingFits theLength inBytes.length) := by
  refine ⟨decodeInto_isSome_iff bytes, ?_⟩
  rw [encodeBase64_eq, ← encodingFits_iff]
  split_ifs with hfits
  · exact iff_of_true rfl hfits
  · exact iff_of_false Bool.false_ne_true hfits

/-- The text `====` is read in front of its first byte. -/
theorem padding_read_in_front : ¬(decodeInto [61, 61, 61, 61]).isSome = true := by
  have hnone : decodeInto [61, 61, 61, 61] = none := by decide
  rw [hnone]
  exact Bool.false_ne_true

end Xperimentum.Pantomime
