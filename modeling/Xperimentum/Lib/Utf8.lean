import Mathlib.Tactic
import Xperimentum.Lib.Byte

/-! UTF-8 text as a list of bytes, and what a piece cut out of its front decodes to. -/

namespace Xperimentum.Lib.Utf8

open Xperimentum.Lib.Byte

def encode (t : List Char) : List UInt8 := t.flatMap String.utf8EncodeChar

def decode (b : List UInt8) : Option (List Char) := b.toByteArray.utf8Decode?.map Array.toList

variable {t u : List Char} {b : List UInt8} {x : Char}

@[simp] lemma encode_nil : encode [] = [] := rfl

lemma encode_cons : encode (x :: t) = String.utf8EncodeChar x ++ encode t := by simp [encode]

lemma encode_append : encode (t ++ u) = encode t ++ encode u := by simp [encode]

@[simp] lemma encode_eq_nil : encode t = [] ↔ t = [] := by
  cases t with
  | nil => simp
  | cons x t => simp [encode_cons]

lemma toByteArray_encode : (encode t).toByteArray = t.utf8Encode := rfl

lemma toByteArray_injective : Function.Injective List.toByteArray := by
  intro b c h
  rw [← List.toList_data_toByteArray (l := b), h, List.toList_data_toByteArray]

@[simp] lemma decode_nil : decode [] = some [] := by simp [decode]

@[simp] lemma decode_encode : decode (encode t) = some t := by
  rw [decode, toByteArray_encode, List.utf8Decode?_utf8Encode]
  simp

lemma eq_encode (h : decode b = some t) : b = encode t := by
  obtain ⟨a, ha, rfl⟩ := Option.map_eq_some_iff.mp h
  have hsome : b.toByteArray.utf8Decode?.isSome := by simp [ha]
  have hget := ByteArray.utf8Encode_get_utf8Decode? (h := hsome)
  simp only [ha, Option.get_some] at hget
  exact toByteArray_injective hget.symm

lemma decode_cons (x : Char) (b : List UInt8) :
    decode (String.utf8EncodeChar x ++ b) = (decode b).map (x :: ·) := by
  have hx : (String.utf8EncodeChar x).toByteArray = [x].utf8Encode := List.utf8Encode_singleton.symm
  rw [decode, List.toByteArray_append, hx, ByteArray.utf8Decode?_utf8Encode_singleton_append, decode]
  cases b.toByteArray.utf8Decode? <;> simp

lemma prefix_of_encode (h : encode t <+: encode u) : t <+: u := by
  obtain ⟨b, hb⟩ := h
  apply List.isPrefix_of_utf8Encode_append_eq_utf8Encode b.toByteArray
  rw [← toByteArray_encode, ← toByteArray_encode, ← List.toByteArray_append, hb]

lemma exists_rest (h : encode t <+: encode u) : ∃ v, u = t ++ v := by
  obtain ⟨v, hv⟩ := prefix_of_encode h
  exact ⟨v, hv.symm⟩

lemma encode_of_size (h : x.utf8Size = 1) : String.utf8EncodeChar x = [x.val.toUInt8] :=
  String.utf8EncodeChar_eq_singleton h

lemma continuation_ne (a : UInt8) : a ||| 0x80 ≠ 10 := by
  revert a
  exact forall_byte (by decide)

lemma lead_ne {m : UInt8} (hm : m = 0xc0 ∨ m = 0xe0 ∨ m = 0xf0) (a : UInt8) : a ||| m ≠ 10 := by
  rcases hm with rfl | rfl | rfl
  all_goals revert a; exact forall_byte (by decide)

lemma eq_newline (h : (10 : UInt8) ∈ String.utf8EncodeChar x) : x = '\n' := by
  rcases x.utf8Size_eq with hs | hs | hs | hs
  · rw [encode_of_size hs, List.mem_singleton] at h
    rw [Char.utf8Size_eq_one_iff, UInt32.le_iff_toNat_le] at hs
    have hx : x.val.toNat = 10 := by
      have := congrArg UInt8.toNat h
      simp only [UInt32.toNat_toUInt8] at this
      change (10 : ℕ) = x.val.toNat % 2 ^ 8 at this
      have hs' : x.val.toNat ≤ 127 := hs
      omega
    exact Char.ext (UInt32.toNat_inj.mp hx)
  · rw [String.utf8EncodeChar_eq_cons_cons hs] at h
    simp only [List.mem_cons, List.not_mem_nil, or_false] at h
    rcases h with h | h
    · exact absurd h.symm (lead_ne (by simp) _)
    · exact absurd h.symm (continuation_ne _)
  · rw [String.utf8EncodeChar_eq_cons_cons_cons hs] at h
    simp only [List.mem_cons, List.not_mem_nil, or_false] at h
    rcases h with h | h | h
    · exact absurd h.symm (lead_ne (by simp) _)
    · exact absurd h.symm (continuation_ne _)
    · exact absurd h.symm (continuation_ne _)
  · rw [String.utf8EncodeChar_eq_cons_cons_cons_cons hs] at h
    simp only [List.mem_cons, List.not_mem_nil, or_false] at h
    rcases h with h | h | h | h
    · exact absurd h.symm (lead_ne (by simp) _)
    · exact absurd h.symm (continuation_ne _)
    · exact absurd h.symm (continuation_ne _)
    · exact absurd h.symm (continuation_ne _)

lemma encode_newline : String.utf8EncodeChar '\n' = [10] := by decide

lemma exists_text_of_newline (h : b ++ [10] <+: encode u) : ∃ t v, u = t ++ '\n' :: v ∧ b = encode t := by
  induction u generalizing b with
  | nil => simp at h
  | cons x u ih =>
    rw [encode_cons] at h
    by_cases hx : x = '\n'
    · subst hx
      rw [encode_newline] at h
      cases b with
      | nil => exact ⟨[], u, rfl, rfl⟩
      | cons a b =>
        obtain ⟨ha, hb⟩ := List.cons_prefix_cons.mp h
        obtain ⟨t, v, hu, hv⟩ := ih hb
        exact ⟨'\n' :: t, v, by simp [hu], by rw [encode_cons, encode_newline, ha, hv]; rfl⟩
    · have hlong : (String.utf8EncodeChar x).length ≤ b.length := by
        by_contra hshort
        have hpre : b ++ [10] <+: String.utf8EncodeChar x := by
          refine List.prefix_of_prefix_length_le h (List.prefix_append _ _) ?_
          simp only [List.length_append, List.length_singleton]
          omega
        exact hx (eq_newline (hpre.subset (by simp)))
      have hpre : String.utf8EncodeChar x <+: b :=
        List.prefix_of_prefix_length_le ((List.prefix_append _ _).trans (List.prefix_rfl))
          ((List.prefix_append b [10]).trans h) hlong
      obtain ⟨b, rfl⟩ := hpre
      rw [List.append_assoc, List.prefix_append_right_inj] at h
      obtain ⟨t, v, hu, hv⟩ := ih h
      exact ⟨x :: t, v, by simp [hu], by rw [encode_cons, hv]⟩

end Xperimentum.Lib.Utf8
