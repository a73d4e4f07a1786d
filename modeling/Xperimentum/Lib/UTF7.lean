import Xperimentum.Lib.Byte

/-! UTF-7: texts of direct characters and of shifted sequences in base 64, their decoder, and an encoder. -/

namespace Xperimentum.Lib.UTF7

open Byte

def isBase64 (c : UInt8) : Bool :=
  65 ≤ c && c ≤ 90 || 97 ≤ c && c ≤ 122 || 48 ≤ c && c ≤ 57 || c = 43 || c = 47

def sextet (c : UInt8) : ℕ :=
  if c ≤ 43 then 62 else if c ≤ 47 then 63 else if c ≤ 57 then c.toNat + 4 else if c ≤ 90 then c.toNat - 65
  else c.toNat - 71

/-- The characters of both sets that may stand for themselves, and the blanks. -/
def isDirect (c : UInt8) : Bool :=
  c = 9 || c = 10 || c = 13 || 32 ≤ c && c ≤ 125 && c ≠ 43 && c ≠ 92

/-- The code units behind `n` bits of value `acc`; fewer than six bits may be left, and they are zero. -/
@[grind =] def units : ℕ → ℕ → List UInt8 → Option (List UInt16)
  | acc, n, [] => if n < 6 ∧ acc = 0 then some [] else none
  | acc, n, c :: b =>
    if 10 ≤ n then
      (units ((64 * acc + sextet c) % 2 ^ (n - 10)) (n - 10) b).map
        (UInt16.ofNat ((64 * acc + sextet c) / 2 ^ (n - 10)) :: ·)
    else units (64 * acc + sextet c) (n + 6) b

def shifted (sextets : List UInt8) : Option (List UInt16) := if sextets = [] then none else units 0 0 sextets

/-- The sextets of the shifted sequence that is being read, if there is one. -/
@[grind =] def decode : Option (List UInt8) → List UInt8 → Option (List UInt16)
  | none, [] => some []
  | none, c :: b =>
    if c = 43 then decode (some []) b
    else if isDirect c then (decode none b).map (c.toUInt16 :: ·)
    else none
  | some sextets, [] => shifted sextets
  | some sextets, c :: b =>
    if isBase64 c then decode (some (sextets ++ [c])) b
    else if c = 45 then
      (if sextets = [] then some [43] else shifted sextets).bind fun us => (decode none b).map (us ++ ·)
    else if isDirect c then (shifted sextets).bind fun us => (decode none b).map fun vs => us ++ c.toUInt16 :: vs
    else none

/-- The texts of a sequence of code units that leave the decoder in its initial state. -/
inductive Encoding : List UInt16 → List UInt8 → Prop
  | nil : Encoding [] []
  | direct {c us b} (hc : isDirect c = true) (h : Encoding us b) : Encoding (c.toUInt16 :: us) (c :: b)
  | plus {us b} (h : Encoding us b) : Encoding (43 :: us) (43 :: 45 :: b)
  | closed {sextets vs us b} (hs : ∀ c ∈ sextets, isBase64 c = true) (hv : shifted sextets = some vs)
      (h : Encoding us b) : Encoding (vs ++ us) (43 :: (sextets ++ 45 :: b))
  | ended {sextets vs c us b} (hs : ∀ c ∈ sextets, isBase64 c = true) (hv : shifted sextets = some vs)
      (hc : isDirect c = true) (hc' : isBase64 c = false) (hne : c ≠ 45) (h : Encoding us b) :
      Encoding (vs ++ c.toUInt16 :: us) (43 :: (sextets ++ c :: b))

section Decoding

variable {us vs : List UInt16} {b rest sextets : List UInt8}

lemma decode_sextets (hs : ∀ c ∈ sextets, isBase64 c = true) (front : List UInt8) :
    decode (some front) (sextets ++ rest) = decode (some (front ++ sextets)) rest := by
  induction sextets generalizing front with
  | nil => rw [List.nil_append, List.append_nil]
  | cons c sextets ih =>
    rw [List.cons_append, decode, if_pos (hs c List.mem_cons_self),
      ih fun x hx => hs x (List.mem_cons_of_mem c hx), List.append_assoc, List.singleton_append]

lemma decode_direct {c : UInt8} (hc : isDirect c = true) :
    decode none (c :: b) = (decode none b).map (c.toUInt16 :: ·) := by
  have hplus : c ≠ 43 := by
    rintro rfl
    cases hc
  rw [decode, if_neg hplus, if_pos hc]

lemma shifted_ne_nil (hv : shifted sextets = some vs) : sextets ≠ [] := by
  rintro rfl
  cases hv

lemma decode_closed (hs : ∀ c ∈ sextets, isBase64 c = true) (hv : shifted sextets = some vs) :
    decode none (43 :: (sextets ++ 45 :: b)) = (decode none b).map (vs ++ ·) := by
  have hdash : isBase64 45 = false := by decide
  rw [decode, if_pos rfl, decode_sextets hs, List.nil_append, decode, hdash]
  simp [shifted_ne_nil hv, hv]

lemma decode_ended {c : UInt8} (hs : ∀ c ∈ sextets, isBase64 c = true) (hv : shifted sextets = some vs)
    (hc : isDirect c = true) (hc' : isBase64 c = false) (hne : c ≠ 45) :
    decode none (43 :: (sextets ++ c :: b)) = (decode none b).map fun us => vs ++ c.toUInt16 :: us := by
  rw [decode, if_pos rfl, decode_sextets hs, List.nil_append, decode, hc', hv]
  simp [hc, hne]

lemma units_length {acc n : ℕ} (h : units acc n b = some us) : 16 * us.length ≤ n + 6 * b.length ∧
    n + 6 * b.length < 16 * us.length + 6 := by
  induction b generalizing acc n us with
  | nil =>
    rw [units] at h
    split at h
    · next hn =>
      cases h
      simpa using hn.1
    · cases h
  | cons c b ih =>
    rw [units] at h
    split at h
    · obtain ⟨vs, hvs, rfl⟩ := Option.map_eq_some_iff.mp h
      have := ih hvs
      simp only [List.length_cons]
      omega
    · have := ih h
      simp only [List.length_cons]
      omega

lemma shifted_length (h : shifted sextets = some us) : 16 * us.length ≤ 6 * sextets.length ∧
    6 * sextets.length < 16 * us.length + 6 := by
  rw [shifted] at h
  split at h
  · cases h
  · simpa using units_length h

lemma isBase64_ascii : ∀ c, isBase64 c = true → c < 128 := forall_byte (by decide)

lemma isDirect_ascii : ∀ c, isDirect c = true → c < 128 := forall_byte (by decide)

lemma sextet_lt : ∀ c, isBase64 c = true → sextet c < 64 := forall_byte (by decide)

lemma encoding_ascii (h : Encoding us b) : ∀ c ∈ b, c < 128 := by
  induction h with
  | nil => simp
  | direct hc _ ih =>
    rw [List.forall_mem_cons]
    exact ⟨isDirect_ascii _ hc, ih⟩
  | plus _ ih =>
    rw [List.forall_mem_cons, List.forall_mem_cons]
    exact ⟨by decide, by decide, ih⟩
  | closed hs _ _ ih =>
    rw [List.forall_mem_cons, List.forall_mem_append, List.forall_mem_cons]
    exact ⟨by decide, fun c hc => isBase64_ascii c (hs c hc), by decide, ih⟩
  | ended hs _ hc _ _ _ ih =>
    rw [List.forall_mem_cons, List.forall_mem_append, List.forall_mem_cons]
    exact ⟨by decide, fun c hc => isBase64_ascii c (hs c hc), isDirect_ascii _ hc, ih⟩

lemma shifted_head {u : UInt16} (h : shifted sextets = some (u :: us)) : ∃ x y z front, sextets = x :: y :: z :: front ∧
    u = UInt16.ofNat ((4096 * sextet x + 64 * sextet y + sextet z) / 4) := by
  rw [shifted] at h
  split at h
  · cases h
  · cases sextets with
    | nil => cases h
    | cons x sextets =>
      simp only [units, Nat.reduceLeDiff, if_false] at h
      cases sextets with
      | nil => simp [units] at h
      | cons y sextets =>
        simp only [units] at h
        cases sextets with
        | nil => simp [units] at h
        | cons z sextets =>
          simp only [units] at h
          obtain ⟨vs, -, hvs⟩ := Option.map_eq_some_iff.mp h
          refine ⟨x, y, z, sextets, rfl, ?_⟩
          rw [← (List.cons.inj hvs).1]
          congr 2
          omega

end Decoding

section Encoding

def digit (i : ℕ) : UInt8 :=
  UInt8.ofNat (if i < 26 then i + 65 else if i < 52 then i + 71 else if i < 62 then i - 4 else if i = 62 then 43 else 47)

/-- One shifted sequence for each code unit. -/
def encode (us : List UInt16) : List UInt8 := us.flatMap fun u =>
  [43, digit (u.toNat / 1024), digit (u.toNat / 16 % 64), digit (u.toNat % 16 * 4), 45]

lemma digit_base64 {i : ℕ} (h : i < 64) : isBase64 (digit i) = true := by
  have hall : ∀ i : Fin 64, isBase64 (digit i) = true := by decide
  exact hall ⟨i, h⟩

lemma sextet_digit {i : ℕ} (h : i < 64) : sextet (digit i) = i := by
  have hall : ∀ i : Fin 64, sextet (digit i) = i := by decide
  exact hall ⟨i, h⟩

lemma encoding_encode (us : List UInt16) : Encoding us (encode us) := by
  induction us with
  | nil => exact .nil
  | cons u us ih =>
    have hu := u.toNat_lt
    have hx : u.toNat / 1024 < 64 := by omega
    have hy : u.toNat / 16 % 64 < 64 := by omega
    have hz : u.toNat % 16 * 4 < 64 := by omega
    refine @Encoding.closed [digit (u.toNat / 1024), digit (u.toNat / 16 % 64), digit (u.toNat % 16 * 4)] [u] us _ ?_ ?_ ih
    · simp [digit_base64 hx, digit_base64 hy, digit_base64 hz]
    · have hleft : (64 * (64 * (u.toNat / 1024) + u.toNat / 16 % 64) + u.toNat % 16 * 4) % 4 = 0 := by omega
      have hunit : (64 * (64 * (u.toNat / 1024) + u.toNat / 16 % 64) + u.toNat % 16 * 4) / 4 = u.toNat := by omega
      simp [shifted, units, sextet_digit hx, sextet_digit hy, sextet_digit hz, hleft, hunit]

end Encoding

end Xperimentum.Lib.UTF7
