import Mathlib.Tactic

/-! Writes into a buffer of fixed length, and items that are put behind each other by a counter that wraps. -/

namespace Xperimentum.Lib.Buffers

variable {α : Type} {buf out a b c d : List α} {offset modulus : ℕ}

/-- A write that reaches over the end is `none`. -/
def put (buf : List α) (offset : ℕ) (b : List α) : Option (List α) :=
  if offset + b.length ≤ buf.length then some (buf.take offset ++ (b ++ buf.drop (offset + b.length))) else none

lemma exists_split {n : ℕ} (h : offset + n ≤ buf.length) :
    ∃ p q r, buf = p ++ (q ++ r) ∧ p.length = offset ∧ q.length = n := by
  refine ⟨buf.take offset, (buf.drop offset).take n, (buf.drop offset).drop n, ?_, ?_, ?_⟩
  · rw [List.take_append_drop, List.take_append_drop]
  · rw [List.length_take]
    omega
  · rw [List.length_take, List.length_drop]
    omega

lemma put_append {p q r : List α} (hp : p.length = offset) (hq : q.length = b.length) :
    put (p ++ (q ++ r)) offset b = some (p ++ (b ++ r)) := by
  have hdrop : (p ++ (q ++ r)).drop (offset + b.length) = r := by
    rw [← List.append_assoc, List.drop_left' (by rw [List.length_append, hp, hq])]
  rw [put, if_pos, hdrop, List.take_left' hp]
  simp only [List.length_append]
  omega

lemma put_of_lt (h : buf.length < offset + b.length) : put buf offset b = none := if_neg (Nat.not_le.mpr h)

lemma length_of_put (h : put buf offset b = some out) : offset + b.length ≤ buf.length ∧ out.length = buf.length := by
  rw [put] at h
  split_ifs at h with hle
  rw [← Option.some.inj h]
  simp only [List.length_append, List.length_take, List.length_drop]
  omega

lemma take_of_put (h : put buf offset b = some out) : out.take (offset + b.length) = buf.take offset ++ b := by
  obtain ⟨hle, -⟩ := length_of_put h
  obtain ⟨p, q, r, rfl, hp, hq⟩ := exists_split hle
  rw [put_append hp hq] at h
  rw [← Option.some.inj h, ← List.append_assoc, List.take_left' (by rw [List.length_append, hp]), List.take_left' hp]

lemma getElem?_of_put (h : put buf offset b = some out) {i : ℕ} (hi : i < b.length) : out[offset + i]? = b[i]? := by
  have htake := take_of_put h
  obtain ⟨hle, -⟩ := length_of_put h
  have hoffset : (buf.take offset).length = offset := List.length_take_of_le (by omega)
  rw [← List.getElem?_take_of_lt (show offset + i < offset + b.length by omega), htake,
    List.getElem?_append_right (by omega), hoffset, Nat.add_sub_cancel_left]

/-- Room for two writes behind each other. -/
lemma exists_split_two {k n : ℕ} (h : offset + (k + n) ≤ buf.length) :
    ∃ p s t r, buf = p ++ (s ++ (t ++ r)) ∧ p.length = offset ∧ s.length = k ∧ t.length = n := by
  obtain ⟨p, q, r, rfl, hp, hq⟩ := exists_split h
  obtain ⟨s, t, u, rfl, hs, ht⟩ := exists_split (show k + n ≤ q.length from hq.ge)
  exact ⟨p, s, t, u ++ r, by simp only [List.append_assoc], hp, hs, ht⟩

lemma put_append_two {p s t r : List α} (hp : p.length = offset) (hs : s.length = a.length) (ht : t.length = b.length) :
    put (p ++ (s ++ (t ++ r))) offset (a ++ b) = some (p ++ (a ++ (b ++ r))) := by
  have hlength : (s ++ t).length = (a ++ b).length := by rw [List.length_append, List.length_append, hs, ht]
  rw [← List.append_assoc s, put_append hp hlength, List.append_assoc a]

/-- A write right behind another one. -/
lemma put_behind (buf : List α) (offset : ℕ) (a b : List α) :
    ((put buf offset a).bind fun out => put out (offset + a.length) b) = put buf offset (a ++ b) := by
  by_cases h : offset + (a.length + b.length) ≤ buf.length
  · obtain ⟨p, s, t, r, rfl, hp, hs, ht⟩ := exists_split_two h
    have hpa : (p ++ a).length = offset + a.length := by rw [List.length_append, hp]
    rw [put_append hp hs, Option.bind_some, put_append_two hp hs ht, ← List.append_assoc, put_append hpa ht,
      List.append_assoc]
  · have hnone : put buf offset (a ++ b) = none := put_of_lt (by rw [List.length_append]; omega)
    rw [hnone]
    refine Option.bind_eq_none_iff.mpr fun out hout => put_of_lt ?_
    have hlength := (length_of_put hout).2
    omega

/-- A part of what has been written is written again. -/
lemma put_within (h : b.length = c.length) (buf : List α) (offset : ℕ) (a d : List α) :
    ((put buf offset (a ++ (b ++ d))).bind fun out => put out (offset + a.length) c) = put buf offset (a ++ (c ++ d)) := by
  have hsame : (a ++ (b ++ d)).length = (a ++ (c ++ d)).length := by simp only [List.length_append, h]
  by_cases hfits : offset + (a ++ (b ++ d)).length ≤ buf.length
  · obtain ⟨p, q, r, rfl, hp, hq⟩ := exists_split hfits
    rw [put_append hp hq, Option.bind_some, put_append hp (hq.trans hsame)]
    have hsplit : p ++ ((a ++ (b ++ d)) ++ r) = (p ++ a) ++ (b ++ (d ++ r)) := by simp only [List.append_assoc]
    rw [hsplit, put_append (by rw [List.length_append, hp]) h]
    simp only [List.append_assoc]
  · rw [put_of_lt (not_le.mp hfits), put_of_lt (hsame ▸ not_le.mp hfits)]
    rfl

/-- A write right in front of another one. -/
lemma put_front (buf : List α) (offset : ℕ) (a b : List α) :
    ((put buf (offset + a.length) b).bind fun out => put out offset a) = put buf offset (a ++ b) := by
  by_cases h : offset + (a.length + b.length) ≤ buf.length
  · obtain ⟨p, s, t, r, rfl, hp, hs, ht⟩ := exists_split_two h
    have hps : (p ++ s).length = offset + a.length := by rw [List.length_append, hp, hs]
    rw [put_append_two hp hs ht, ← List.append_assoc, put_append hps ht, Option.bind_some, List.append_assoc,
      put_append hp hs]
  · have hnone : put buf (offset + a.length) b = none := put_of_lt (by omega)
    rw [hnone, put_of_lt (by rw [List.length_append]; omega)]
    rfl

/-- The items behind each other, with the counter of what has been written. -/
def putAll (modulus : ℕ) : List (List α) → List α → ℕ → Option (List α × ℕ)
  | [], buf, total => some (buf, total)
  | b :: bs, buf, total => (put buf total b).bind fun buf => putAll modulus bs buf ((total + b.length) % modulus)

/-- As long as the counter does not wrap, the items are put exactly if there is room for all. -/
lemma putAll_eq (modulus : ℕ) (bs : List (List α)) (buf : List α) {total : ℕ} (htotal : total ≤ buf.length)
    (hlt : total + bs.flatten.length < modulus) :
    (total + bs.flatten.length ≤ buf.length → ∃ out, putAll modulus bs buf total = some (out, total + bs.flatten.length) ∧
      out.take (total + bs.flatten.length) = buf.take total ++ bs.flatten ∧ out.length = buf.length) ∧
    (buf.length < total + bs.flatten.length → putAll modulus bs buf total = none) := by
  induction bs generalizing buf total with
  | nil =>
    refine ⟨fun _ => ⟨buf, rfl, (List.append_nil _).symm, rfl⟩, fun hover => ?_⟩
    rw [List.flatten_nil, List.length_nil] at hover
    omega
  | cons b bs ih =>
    rw [List.flatten_cons, List.length_append] at hlt ⊢
    have hmod : (total + b.length) % modulus = total + b.length := Nat.mod_eq_of_lt (by omega)
    rw [putAll, hmod]
    cases hput : put buf total b with
    | none =>
      refine ⟨fun hroom => ?_, fun _ => rfl⟩
      rw [put, if_pos (by omega)] at hput
      exact absurd hput (Option.some_ne_none _)
    | some next =>
      obtain ⟨hle, hlength⟩ := length_of_put hput
      have htotal : total + b.length ≤ next.length := by omega
      have hnext := ih next htotal (by omega)
      rw [hlength, take_of_put hput, Nat.add_assoc, List.append_assoc] at hnext
      exact hnext

end Xperimentum.Lib.Buffers
