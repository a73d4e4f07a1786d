import Mathlib.Data.List.TakeWhile
import Xperimentum.Pantomime.Base64

/-! The base64 decoder: when it stays inside the memory it reads and writes, and what it returns then. -/

namespace Xperimentum.Pantomime

open Lib.Int32 Lib.Memory Lib.Partial

variable {bytes : Bytes} {length : ℕ} {raw : Raw}

section Padding

lemma padLength_concat (b : Bytes) (c : UInt8) : padLength (b ++ [c]) = if c = 61 then padLength b + 1 else 0 := by
  rw [padLength, List.reverse_append, List.reverse_singleton, List.singleton_append, List.takeWhile_cons]
  by_cases hc : c = 61
  · rw [if_pos hc, if_pos (decide_eq_true hc)]
    rfl
  · rw [if_neg hc, if_neg (by simpa using hc)]
    rfl

lemma countPad_eq (b : Bytes) (i : ℕ) (hi : i ≤ b.length) :
    countPad b i = if (b.take i).all (· = 61) then none else some (padLength (b.take i)) := by
  induction i with
  | zero => rfl
  | succ i ih =>
    have htake : b.take (i + 1) = b.take i ++ [b[i]] := (List.take_append_getElem hi).symm
    rw [countPad, List.getElem?_eq_getElem hi, htake, padLength_concat, List.all_append, ih (by omega)]
    by_cases hc : b[i] = 61
    · have hall : [b[i]].all (· = 61) = true := by simpa using hc
      rw [hall, Bool.and_true, if_pos hc, Option.bind_eq_bind, Option.bind_some, if_pos hc]
      split_ifs <;> rfl
    · have hall : [b[i]].all (· = 61) = false := by simpa using hc
      rw [hall, Bool.and_false, if_neg hc, Option.bind_eq_bind, Option.bind_some, if_neg hc]
      rfl

lemma countPad_all (b : Bytes) : countPad b b.length = if b.all (· = 61) then none else some (padLength b) := by
  rw [countPad_eq b b.length le_rfl, List.take_length]

end Padding

section Blocks

/-- The memory behind the first bytes of the result. -/
def progress (length : ℕ) (done : Bytes) : Raw :=
  (done.take length).map some ++ List.replicate (length - done.length) none

lemma progress_length (length : ℕ) (done : Bytes) : (progress length done).length = length := by
  rw [progress, List.length_append, List.length_map, List.length_take, List.length_replicate]
  omega

lemma progress_full {done : Bytes} (h : length ≤ done.length) : progress length done = (done.take length).map some := by
  rw [progress, Nat.sub_eq_zero_of_le h]
  exact List.append_nil _

lemma progress_set {done : Bytes} (h : done.length < length) (x : UInt8) :
    (progress length done).set done.length (some x) = progress length (done ++ [x]) := by
  have htake : done.take length = done := List.take_of_length_le h.le
  have htake' : (done ++ [x]).take length = done ++ [x] := List.take_of_length_le (by simpa using h)
  have hcount : length - done.length = length - (done ++ [x]).length + 1 := by
    rw [List.length_append, List.length_singleton]
    omega
  rw [progress, progress, htake, htake', hcount, List.replicate_succ, List.set_append_right _ _ (by simp),
    List.length_map, Nat.sub_self, List.set_cons_zero, List.map_append, List.append_assoc]
  rfl

lemma progress_append {done : Bytes} (h : length ≤ done.length) (rest : Bytes) :
    progress length (done ++ rest) = progress length done := by
  rw [progress_full h, progress_full (by rw [List.length_append]; omega), List.take_append_of_le_length h]

def blockBytes (block : ℤ) : Bytes := (List.range 3).map (blockByte block)

lemma unsignedLt_natCast (m n : ℕ) : unsignedLt m n = decide (m < n) := by
  have hm : ¬((m : ℤ) < 0) := by omega
  have hn : ¬((n : ℤ) < 0) := by omega
  simp only [unsignedLt, hm, hn, if_true, Nat.cast_lt]

lemma putBlock_progress (block : ℤ) (done : Bytes) :
    putBlock length done.length block (progress length done) = some (progress length (done ++ blockBytes block)) := by
  have hbytes (m : ℕ) : ∀ (j : ℕ) (written : Bytes), written.length = done.length + j →
      ((List.range' j m).takeWhile fun (j : ℕ) => unsignedLt (done.length + j) length).foldlM
        (fun raw j => update (fun _ => some (blockByte block j)) raw (done.length + j) 1) (progress length written) =
      some (progress length (written ++ (List.range' j m).map (blockByte block))) := by
    induction m with
    | zero =>
      intro j written _
      rw [List.range'_zero, List.map_nil, List.append_nil]
      rfl
    | succ m ih =>
      intro j written hwritten
      have hindex : (done.length : ℤ) + j = (written.length : ℕ) := by rw [hwritten, Nat.cast_add]
      rw [List.range'_succ, List.takeWhile_cons, hindex, unsignedLt_natCast]
      by_cases hbelow : written.length < length
      · have hupdate := update_eq (some (blockByte block j)) (hbelow.trans_eq (progress_length length written).symm)
        rw [progress_set hbelow] at hupdate
        rw [if_pos (decide_eq_true hbelow), List.foldlM_cons, hindex, hupdate, Option.bind_eq_bind, Option.bind_some,
          ih (j + 1) _ (by rw [List.length_append, List.length_singleton, hwritten, Nat.add_assoc]), List.append_assoc]
        rfl
      · rw [if_neg (by simpa using hbelow), progress_append (not_lt.mp hbelow)]
        rfl
  have hall := hbytes 3 0 done rfl
  rwa [← List.range_eq_range'] at hall

lemma blockBytes_eq (block : ℤ) : blockBytes block = [UInt8.ofNat (block / 2 ^ 16 % 256).toNat,
    UInt8.ofNat (block / 2 ^ 8 % 256).toNat, UInt8.ofNat (block % 256).toNat] := by
  have hone : block / 2 ^ (8 * (2 - 2)) = block := Int.ediv_one block
  simp only [blockBytes, blockByte, List.range_succ, List.range_zero, List.nil_append, List.map_append, List.map_cons,
    List.map_nil, List.cons_append, hone]

lemma putBlocks_progress (b : Bytes) (done : Bytes) {rawIndex : ℤ} (hindex : 4 ≤ b.length → rawIndex = done.length)
    (hsize : done.length + 3 * (b.length / 4) ≤ 2 ^ 31 + 2) :
    putBlocks length b rawIndex (progress length done) = (decodeBlocks b).map fun rest => progress length (done ++ rest) := by
  fun_induction decodeBlocks b generalizing done rawIndex with
  | case1 =>
    rw [putBlocks, Option.map_some, List.append_nil]
    rfl
  | case2 a b c d rest block ih =>
    have hlength : (a :: b :: c :: d :: rest).length = rest.length + 4 := rfl
    rw [hlength] at hindex hsize
    have hdone : (done ++ blockBytes block).length = done.length + 3 := List.length_append
    obtain rfl := hindex (by omega)
    rw [putBlocks, putBlock_progress, Option.bind_eq_bind, Option.bind_some, ih, Option.map_map]
    · refine congrArg (Option.map · _) (funext fun raw => ?_)
      rw [blockBytes_eq, List.append_assoc]
      rfl
    · intro hrest
      rw [hdone, wrap32_of_mem (by omega) (by omega), Nat.cast_add]
      rfl
    · rw [hdone]
      omega
  | case3 b hnil hcons =>
    rw [putBlocks]
    · rfl
    · exact hcons
    · exact hnil

lemma mapM_some (b : Bytes) : (b.map some).mapM id = some b := by
  induction b with
  | nil => rfl
  | cons c b ih =>
    rw [List.map_cons, List.mapM_cons, ih]
    rfl

lemma decodeBlocks_length {b raw : Bytes} (h : decodeBlocks b = some raw) :
    b.length = 4 * (b.length / 4) ∧ raw.length = 3 * (b.length / 4) := by
  fun_induction decodeBlocks b generalizing raw with
  | case1 =>
    obtain rfl := Option.some.inj h
    exact ⟨rfl, rfl⟩
  | case2 a b c d rest block =>
    rename_i ih
    obtain ⟨raw', hraw', rfl⟩ := Option.map_eq_some_iff.mp h
    obtain ⟨hwhole, hlength⟩ := ih hraw'
    have hdiv : (rest.length + 4) / 4 = rest.length / 4 + 1 := Nat.add_div_right _ (by decide)
    simp only [List.length_cons, hlength]
    omega
  | case3 b => cases h

lemma decodeBlocks_none {b : Bytes} (h : decodeBlocks b = none) (length rawIndex : ℤ) (raw : Raw) :
    putBlocks length b rawIndex raw = none := by
  fun_induction decodeBlocks b generalizing rawIndex raw with
  | case1 => cases h
  | case2 a b c d rest block ih =>
    rw [putBlocks]
    cases putBlock length rawIndex block raw with
    | none => rfl
    | some raw => exact ih (Option.map_eq_none_iff.mp h) _ _
  | case3 b hnil hcons =>
    rw [putBlocks]
    · exact hcons
    · exact hnil

lemma putBlocks_negative {b : Bytes} (hb : b ≠ []) {length : ℤ} (h : length < 0) : putBlocks length b 0 [] = none := by
  match b with
  | a :: b :: c :: d :: rest =>
    have hblock (block : ℤ) : putBlock length 0 block [] = none := by
      have hfirst : unsignedLt (0 + (0 : ℕ)) length = true := by simpa [unsignedLt, h.not_ge] using h
      have hout : update (fun _ => some (blockByte block 0)) ([] : Raw) (0 + (0 : ℕ)) 1 = none := if_neg (by decide)
      rw [putBlock, List.range_succ_eq_map, List.takeWhile_cons, if_pos hfirst, List.foldlM_cons, hout]
      rfl
    rw [putBlocks, hblock]
    rfl
  | [_, _, _] | [_, _] | [_] => rfl

lemma decodedBytes_eq (b : Bytes) (hsize : 3 * (b.length / 4) ≤ 2 ^ 31 + 2) : decodedBytes b = decodeBase64 b := by
  rw [decodedBytes, decodeInto, decodeBase64, countPad_all]
  by_cases hnil : b = []
  · rw [if_pos hnil, if_pos hnil]
    rfl
  rw [if_neg hnil, if_neg hnil]
  cases hall : b.all (· = 61) with
  | true =>
    rw [if_pos rfl, Bool.true_or, if_pos rfl]
    rfl
  | false =>
    rw [if_neg Bool.false_ne_true, Option.bind_eq_bind, Option.bind_some, Bool.false_or]
    dsimp only
    by_cases hpad : b.length * 6 / 8 < padLength b
    · have hnegative : (b.length : ℤ) * 6 / 8 - padLength b < 0 := by omega
      rw [if_pos (decide_eq_true hpad), Int.toNat_of_nonpos hnegative.le, List.replicate_zero,
        putBlocks_negative hnil hnegative]
      rfl
    · have hlength : (b.length : ℤ) * 6 / 8 - padLength b = (b.length * 6 / 8 - padLength b : ℕ) := by omega
      have hput : putBlocks (b.length * 6 / 8 - padLength b : ℕ) b ([] : Bytes).length _ = _ :=
        putBlocks_progress b [] (fun _ => rfl) (by simpa using hsize)
      rw [if_neg (by simpa using hpad), hlength, Int.toNat_natCast]
      cases hraw : decodeBlocks b with
      | none =>
        rw [decodeBlocks_none hraw]
        rfl
      | some raw =>
        obtain ⟨hwhole, hrawLength⟩ := decodeBlocks_length hraw
        have hstart : progress (b.length * 6 / 8 - padLength b) [] = List.replicate (b.length * 6 / 8 - padLength b) none := by
          rw [progress, List.take_nil]
          rfl
        have hfull : progress (b.length * 6 / 8 - padLength b) raw = _ := progress_full (by omega)
        rw [hraw, Option.map_some, List.nil_append, hstart, hfull, List.length_nil, Nat.cast_zero] at hput
        rw [hput]
        exact mapM_some _

lemma decodeBlocks_isSome (b : Bytes) : (decodeBlocks b).isSome = true ↔ 4 ∣ b.length := by
  fun_induction decodeBlocks b with
  | case1 => exact iff_of_true rfl (Nat.dvd_zero 4)
  | case2 a b c d rest block ih =>
    rw [Option.isSome_map, ih]
    exact (Nat.dvd_add_self_right).symm
  | case3 b hnil hcons =>
    refine iff_of_false Bool.false_ne_true fun hdvd => ?_
    match b with
    | [] => exact hnil rfl
    | a :: b :: c :: d :: rest => exact hcons a b c d rest rfl
    | [_, _, _] | [_, _] | [_] => exact absurd hdvd (by simp [Nat.dvd_iff_mod_eq_zero])

end Blocks

section Memory

lemma unsignedLt_mem {m n : ℤ} (hn : 0 ≤ n) (h : unsignedLt m n = true) : 0 ≤ m ∧ m < n := by
  rw [unsignedLt] at h
  split_ifs at h with hsign
  · have hlt := of_decide_eq_true h
    omega
  · exact absurd (of_decide_eq_true h) (by omega)

lemma putBlock_ensures (rawIndex block : ℤ) {raw : Raw} (hraw : raw.length = length) :
    Ensures (putBlock length rawIndex block raw) fun raw => raw.length = length := by
  refine ensures_foldlM _ (fun raw hraw j hj => ?_) hraw
  have hbelow := List.mem_takeWhile_imp hj
  obtain ⟨h0, hlt⟩ := unsignedLt_mem (Nat.cast_nonneg length) hbelow
  refine (update_ensures _ (inside_of_le h0 ?_)).imp fun raw' hraw' => hraw'.trans hraw
  omega

lemma putBlocks_ensures {b : Bytes} (hb : (decodeBlocks b).isSome = true) (rawIndex : ℤ) (hraw : raw.length = length) :
    Ensures (putBlocks length b rawIndex raw) fun raw => raw.length = length := by
  fun_induction decodeBlocks b generalizing rawIndex raw with
  | case1 => exact ensures_pure hraw
  | case2 a b c d rest block =>
    rename_i ih
    rw [Option.isSome_map] at hb
    refine Ensures.bind (putBlock_ensures rawIndex block hraw) fun raw' hraw' => ?_
    exact ih hb _ hraw'
  | case3 b => cases hb

/-- The text has whole groups of four characters, one of them is no padding, and there is not more padding than there
are bytes to decode. -/
def DecodingFits (b : Bytes) : Prop :=
  b = [] ∨ 4 ∣ b.length ∧ (∃ c ∈ b, c ≠ 61) ∧ padLength b ≤ b.length * 6 / 8

lemma decodeInto_isSome_iff (b : Bytes) : (decodeInto b).isSome = true ↔ DecodingFits b := by
  rw [decodeInto, countPad_all, DecodingFits]
  by_cases hnil : b = []
  · rw [if_pos hnil]
    exact iff_of_true rfl (.inl hnil)
  rw [if_neg hnil, or_iff_right hnil]
  by_cases hall : b.all (· = 61) = true
  · rw [if_pos hall]
    refine iff_of_false Bool.false_ne_true ?_
    rintro ⟨-, ⟨c, hc, hne⟩, -⟩
    exact hne (of_decide_eq_true (List.all_eq_true.mp hall c hc))
  have hother : ∃ c ∈ b, c ≠ 61 := by simpa using hall
  rw [if_neg hall, Option.bind_eq_bind, Option.bind_some, and_iff_right hother]
  dsimp only
  by_cases hpad : padLength b ≤ b.length * 6 / 8
  · have hlength : (b.length : ℤ) * 6 / 8 - padLength b = (b.length * 6 / 8 - padLength b : ℕ) := by omega
    rw [hlength, Int.toNat_natCast, and_iff_left hpad, ← decodeBlocks_isSome]
    cases hblocks : decodeBlocks b with
    | none =>
      rw [decodeBlocks_none hblocks]
      exact Iff.rfl
    | some raw =>
      have hsome : (decodeBlocks b).isSome = true := by rw [hblocks]; rfl
      obtain ⟨raw', hraw', -⟩ := putBlocks_ensures hsome 0 (List.length_replicate (a := (none : Option UInt8)))
      rw [hraw']
      exact iff_of_true rfl rfl
  · have hnegative : (b.length : ℤ) * 6 / 8 - padLength b < 0 := by omega
    rw [Int.toNat_of_nonpos hnegative.le, List.replicate_zero, putBlocks_negative hnil hnegative]
    exact iff_of_false Bool.false_ne_true fun h => hpad h.2

end Memory

section Overflow

lemma update_unwritten {y : Option UInt8} {raw raw' : Raw} {start : ℤ} {p : ℕ} (hp : start ≠ p)
    (h : raw' ∈ update (fun _ => y) raw start 1) : raw'[p]? = raw[p]? := by
  rw [update] at h
  split_ifs at h
  · obtain rfl := Option.some.inj h
    have hout : ¬(start ≤ (p : ℤ) ∧ (p : ℤ) < start + 1) := by omega
    simp only [List.getElem?_mapIdx, if_neg hout, Option.map_id_fun', id_eq]
  · cases h

lemma putBlock_unwritten {length rawIndex block : ℤ} {raw : Raw} {p : ℕ} (hfree : ∀ j < 3, rawIndex + (j : ℕ) ≠ p) :
    Allows (putBlock length rawIndex block raw) fun raw' => raw'[p]? = raw[p]? := by
  refine allows_foldlM _ (fun raw₁ hraw j hj raw₂ h => ?_) rfl
  have hrange := (List.takeWhile_sublist _).subset hj
  exact (update_unwritten (hfree j (List.mem_range.mp hrange)) h).trans hraw

lemma putBlocks_unwritten {length : ℤ} {raw : Raw} {p : ℕ} (b : Bytes) (index : ℤ)
    (hfree : ∀ k < b.length / 4, ∀ j < 3, wrap32 (index + 3 * (k : ℕ)) + (j : ℕ) ≠ p) :
    Allows (putBlocks length b (wrap32 index) raw) fun raw' => raw'[p]? = raw[p]? := by
  fun_induction decodeBlocks b generalizing index raw with
  | case1 => exact allows_pure rfl
  | case2 a b c d rest block =>
    rename_i ih
    have hlength : (a :: b :: c :: d :: rest).length / 4 = rest.length / 4 + 1 :=
      Nat.add_div_right rest.length (by decide : 0 < 4)
    rw [hlength] at hfree
    have hfirst := hfree 0 (by omega)
    rw [Nat.cast_zero, mul_zero, add_zero] at hfirst
    refine Allows.bind (putBlock_unwritten hfirst) fun raw' hraw' => ?_
    have hwrap : wrap32 (wrap32 index + 3) = wrap32 (index + 3) := by
      exact wrap32_of_modEq ((wrap32_modEq index).add_right 3)
    rw [hwrap]
    refine (ih (index + 3) fun k hk j hj => ?_).imp fun raw'' hraw'' => hraw''.trans hraw'
    have hnext := hfree (k + 1) (by omega) j hj
    have hsum : index + 3 + 3 * (k : ℕ) = index + 3 * ((k + 1 : ℕ) : ℤ) := by
      push_cast
      ring
    rwa [hsum]
  | case3 b hnil hcons =>
    rw [putBlocks]
    · exact nofun
    · exact hcons
    · exact hnil

end Overflow

end Xperimentum.Pantomime
