import Xperimentum.Lib.Memory
import Xperimentum.Pantomime.Data

/-! `replaceCRLFWithLF` and `replaceLFWithCRLF` as loops over a buffer. A byte that is read outside of the data, or
written outside of what has been allocated, leaves no result. -/

namespace Xperimentum.Pantomime.LineEndings

open Lib.Memory Lib.Partial

/-- Whether CR and LF are next, which is not asked of the last byte. -/
def atCRLF (bytes : Bytes) (i : ℕ) : Option Bool := do
  if i + 1 < bytes.length then
    let c ← bytes[i]?
    if c = 13 then
      let d ← bytes[i + 1]?
      pure (d = 10)
    else pure false
  else pure false

@[grind =] def countFrom (bytes : Bytes) : ℕ → ℕ → ℕ → Option ℕ
  | 0, _, delta => some delta
  | n + 1, i, delta => do
    let c ← bytes[i]?
    if c = 10 then
      let d ← bytes[i - 1]?
      countFrom bytes n (i + 1) (if d ≠ 13 then delta + 1 else delta)
    else countFrom bytes n (i + 1) delta

/-- The first pass: how many line feeds have no carriage return. -/
def count (bytes : Bytes) : Option ℕ := do
  let c ← bytes[0]?
  countFrom bytes (bytes.length - 1) 1 (if c = 10 then 1 else 0)

/-- The second pass. -/
@[grind =] def copyFrom (bytes : Bytes) (size : ℕ) : ℕ → ℕ → Bytes → Option Bytes
  | 0, _, _ => none
  | n + 1, i, out =>
    if i < bytes.length then do
      let pair ← atCRLF bytes i
      let c ← bytes[i]?
      if pair then
        let out ← push size out c
        let d ← bytes[i + 1]?
        let out ← push size out d
        copyFrom bytes size n (i + 2) out
      else if c = 10 then
        let out ← push size out 13
        let out ← push size out c
        copyFrom bytes size n (i + 1) out
      else
        let out ← push size out c
        copyFrom bytes size n (i + 1) out
    else some out

/-- How many bytes have been allocated, and what has been written to them. -/
def replaceLFWithCRLF (bytes : Bytes) : Option (ℕ × Bytes) := do
  let delta ← count bytes
  let out ← copyFrom bytes (bytes.length + delta) (bytes.length + 1) 0 []
  pure (bytes.length + delta, out)

/-- The data is changed in place. -/
@[grind =] def shrinkFrom : ℕ → Bytes → ℕ → ℕ → ℕ → Option Bytes
  | 0, _, _, _, _ => none
  | n + 1, bytes, i, o, delta =>
    if i < bytes.length then do
      let pair ← atCRLF bytes i
      let (i, delta) := if pair then (i + 1, delta + 1) else (i, delta)
      let c ← bytes[i]?
      if o < bytes.length then shrinkFrom n (bytes.set o c) (i + 1) (o + 1) delta else none
    else some (bytes.take (bytes.length - delta))

def replaceCRLFWithLF (bytes : Bytes) : Option Bytes := shrinkFrom (bytes.length + 1) bytes 0 0 0

section Copying

variable {bytes s out : Bytes} {i n size : ℕ} {c d p : UInt8}

lemma read_drop (hs : bytes.drop i = c :: s) : bytes[i]? = some c ∧ i < bytes.length ∧ bytes.drop (i + 1) = s := by
  have hlt : i < bytes.length := by
    by_contra hge
    rw [List.drop_eq_nil_of_le (not_lt.mp hge)] at hs
    cases hs
  rw [List.drop_eq_getElem_cons hlt] at hs
  obtain ⟨hc, hrest⟩ := List.cons.inj hs
  exact ⟨(List.getElem?_eq_getElem hlt).trans (congrArg some hc), hlt, hrest⟩

lemma atCRLF_pair (hs : bytes.drop i = 13 :: 10 :: s) : atCRLF bytes i = some true := by
  obtain ⟨hc, -, hrest⟩ := read_drop hs
  obtain ⟨hd, hlt, -⟩ := read_drop hrest
  rw [atCRLF, if_pos hlt, hc, hd]
  rfl

lemma atCRLF_other (hs : bytes.drop i = c :: s) (hne : ∀ t, c = 13 → s ≠ 10 :: t) : atCRLF bytes i = some false := by
  obtain ⟨hc, -, hrest⟩ := read_drop hs
  rw [atCRLF]
  split_ifs with hlt
  · cases s with
    | nil =>
      rw [List.drop_eq_nil_iff] at hrest
      omega
    | cons d t =>
      obtain ⟨hd, -, -⟩ := read_drop hrest
      rw [hc, hd]
      by_cases hcr : c = 13
      · have hlf : d ≠ 10 := by
          rintro rfl
          exact hne t hcr rfl
        simp [hcr, hlf]
      · simp [hcr]
  · rfl

/-- The line feeds of `s` without a carriage return, where `p` is the byte in front of it. -/
@[grind =] def lone : UInt8 → Bytes → ℕ
  | _, [] => 0
  | p, c :: s => (if c = 10 ∧ p ≠ 13 then 1 else 0) + lone c s

lemma countFrom_eq (hs : bytes.drop i = s) (hp : 0 < i ∧ bytes[i - 1]? = some p) (delta : ℕ) :
    countFrom bytes s.length i delta = some (delta + lone p s) := by
  induction s generalizing i p delta with
  | nil => rfl
  | cons c s ih =>
    obtain ⟨hc, -, hrest⟩ := read_drop hs
    have hnext : 0 < i + 1 ∧ bytes[i + 1 - 1]? = some c := ⟨Nat.succ_pos i, hc⟩
    rw [List.length_cons, countFrom, hc, lone]
    change (if c = 10 then _ else _) = _
    by_cases hlf : c = 10
    · rw [if_pos hlf, hp.2]
      change countFrom bytes s.length (i + 1) _ = _
      rw [ih hrest hnext]
      by_cases hcr : p = 13 <;> simp [hlf, hcr]
      omega
    · rw [if_neg hlf, ih hrest hnext]
      simp [hlf]

lemma count_eq (c : UInt8) (s : Bytes) : count (c :: s) = some (lone 0 (c :: s)) := by
  have hfirst : (c :: s).drop 1 = s := rfl
  have hrest := countFrom_eq hfirst ⟨Nat.one_pos, rfl⟩ (if c = 10 then 1 else 0)
  rw [count, lone]
  refine hrest.trans ?_
  simp

lemma length_replaced (hp : ∀ t, p = 13 → s ≠ 10 :: t) : (Pantomime.replaceLFWithCRLF s).length = s.length + lone p s := by
  induction s using Pantomime.replaceLFWithCRLF.induct generalizing p with
  | case1 s ih =>
    have hrest := ih (p := 10) fun t h => absurd h (by decide)
    rw [Pantomime.replaceLFWithCRLF]
    simp [lone, hrest]
    omega
  | case2 s ih =>
    have hrest := ih (p := 10) fun t h => absurd h (by decide)
    have hcr : p ≠ 13 := fun h => hp s h rfl
    rw [Pantomime.replaceLFWithCRLF]
    simp [lone, hrest, hcr]
    omega
  | case3 c s hpair hlf ih =>
    have hrest := ih (p := c) fun t hc hs => hpair t hc hs
    rw [Pantomime.replaceLFWithCRLF]
    · rw [lone, if_neg (fun h => hlf h.1), List.length_cons, List.length_cons, hrest]
      omega
    · exact hpair
    · exact hlf
  | case4 => rfl

lemma replaceLFWithCRLF_cons (hpair : ∀ t, c = 13 → s ≠ 10 :: t) (hlf : c ≠ 10) :
    Pantomime.replaceLFWithCRLF (c :: s) = c :: Pantomime.replaceLFWithCRLF s := by
  rw [Pantomime.replaceLFWithCRLF]
  · exact fun t h hs => hpair t h hs
  · exact hlf

lemma replaceCRLFWithLF_cons (hpair : ∀ t, c = 13 → s ≠ 10 :: t) :
    Pantomime.replaceCRLFWithLF (c :: s) = c :: Pantomime.replaceCRLFWithLF s := by
  rw [Pantomime.replaceCRLFWithLF]
  exact fun t h hs => hpair t h hs

lemma copyFrom_eq (hs : bytes.drop i = s) (hn : s.length < n)
    (hsize : out.length + (Pantomime.replaceLFWithCRLF s).length ≤ size) :
    copyFrom bytes size n i out = some (out ++ Pantomime.replaceLFWithCRLF s) := by
  induction s using Pantomime.replaceLFWithCRLF.induct generalizing i n out with
  | case1 s ih =>
    obtain ⟨n, rfl⟩ : ∃ m, n = m + 1 := ⟨n - 1, by omega⟩
    obtain ⟨hc, hlt, hrest⟩ := read_drop hs
    obtain ⟨hd, -, hrest⟩ := read_drop hrest
    rw [Pantomime.replaceLFWithCRLF] at hsize ⊢
    simp only [List.length_cons] at hn hsize
    rw [copyFrom, if_pos hlt, atCRLF_pair hs, hc, hd]
    change (push size out 13 >>= fun out => push size out 10 >>= copyFrom bytes size n (i + 2)) = _
    rw [push_of_lt (by omega)]
    change (push size (out ++ [13]) 10 >>= copyFrom bytes size n (i + 2)) = _
    rw [push_of_lt (by simp; omega)]
    refine (ih hrest (by omega) (by simp; omega)).trans ?_
    simp
  | case2 s ih =>
    obtain ⟨n, rfl⟩ : ∃ m, n = m + 1 := ⟨n - 1, by omega⟩
    obtain ⟨hc, hlt, hrest⟩ := read_drop hs
    rw [Pantomime.replaceLFWithCRLF] at hsize ⊢
    simp only [List.length_cons] at hn hsize
    rw [copyFrom, if_pos hlt, atCRLF_other hs (fun t h => absurd h (by decide)), hc]
    change (push size out 13 >>= fun out => push size out 10 >>= copyFrom bytes size n (i + 1)) = _
    rw [push_of_lt (by omega)]
    change (push size (out ++ [13]) 10 >>= copyFrom bytes size n (i + 1)) = _
    rw [push_of_lt (by simp; omega)]
    refine (ih hrest (by omega) (by simp; omega)).trans ?_
    simp
  | case3 c s hpair hlf ih =>
    obtain ⟨n, rfl⟩ : ∃ m, n = m + 1 := ⟨n - 1, by omega⟩
    obtain ⟨hc, hlt, hrest⟩ := read_drop hs
    rw [replaceLFWithCRLF_cons (fun t h hs => hpair t h hs) hlf] at hsize ⊢
    simp only [List.length_cons] at hn hsize
    rw [copyFrom, if_pos hlt, atCRLF_other hs fun t h hs => hpair t h hs, hc]
    change (if c = 10 then _ else push size out c >>= copyFrom bytes size n (i + 1)) = _
    rw [if_neg hlf, push_of_lt (by omega)]
    refine (ih hrest (by omega) (by simp; omega)).trans ?_
    simp
  | case4 =>
    obtain ⟨n, rfl⟩ : ∃ m, n = m + 1 := ⟨n - 1, by omega⟩
    have hend : ¬i < bytes.length := not_lt.mpr (List.drop_eq_nil_iff.mp hs)
    rw [copyFrom, if_neg hend, Pantomime.replaceLFWithCRLF, List.append_nil]

lemma shrinkFrom_eq (hs : bytes.drop i = s) (hn : s.length < n) {o delta : ℕ} (ho : o + delta = i) (hi : i ≤ bytes.length) :
    shrinkFrom n bytes i o delta = some (bytes.take o ++ Pantomime.replaceCRLFWithLF s) := by
  induction s using Pantomime.replaceCRLFWithLF.induct generalizing bytes i n o delta with
  | case1 s ih =>
    obtain ⟨n, rfl⟩ : ∃ m, n = m + 1 := ⟨n - 1, by omega⟩
    obtain ⟨-, hlt, hrest⟩ := read_drop hs
    obtain ⟨hd, hlt', hrest⟩ := read_drop hrest
    simp only [List.length_cons] at hn
    rw [shrinkFrom, if_pos hlt, atCRLF_pair hs]
    change (bytes[i + 1]? >>= fun c => if o < bytes.length then
      shrinkFrom n (bytes.set o c) (i + 1 + 1) (o + 1) (delta + 1) else none) = _
    rw [hd]
    change (if o < bytes.length then shrinkFrom n (bytes.set o 10) (i + 1 + 1) (o + 1) (delta + 1) else none) = _
    have holt : o < bytes.length := by omega
    have hdrop : (bytes.set o 10).drop (i + 1 + 1) = s := by
      rw [List.drop_set_of_lt (by omega)]
      exact hrest
    rw [if_pos holt, ih hdrop (by omega) (by omega) (by rw [List.length_set]; omega)]
    rw [List.take_add_one, List.take_set_of_le (le_refl o), List.getElem?_set_self holt, Pantomime.replaceCRLFWithLF]
    simp
  | case2 c s hpair ih =>
    obtain ⟨n, rfl⟩ : ∃ m, n = m + 1 := ⟨n - 1, by omega⟩
    obtain ⟨hc, hlt, hrest⟩ := read_drop hs
    simp only [List.length_cons] at hn
    rw [shrinkFrom, if_pos hlt, atCRLF_other hs fun t h hs => hpair t h hs]
    change (bytes[i]? >>= fun c => if o < bytes.length then
      shrinkFrom n (bytes.set o c) (i + 1) (o + 1) delta else none) = _
    rw [hc]
    change (if o < bytes.length then shrinkFrom n (bytes.set o c) (i + 1) (o + 1) delta else none) = _
    have holt : o < bytes.length := by omega
    have hdrop : (bytes.set o c).drop (i + 1) = s := by
      rw [List.drop_set_of_lt (by omega)]
      exact hrest
    rw [if_pos holt, ih hdrop (by omega) (by omega) (by rw [List.length_set]; omega)]
    rw [List.take_add_one, List.take_set_of_le (le_refl o), List.getElem?_set_self holt,
      replaceCRLFWithLF_cons fun t h hs => hpair t h hs]
    simp
  | case3 =>
    obtain ⟨n, rfl⟩ : ∃ m, n = m + 1 := ⟨n - 1, by omega⟩
    have hend : bytes.length ≤ i := List.drop_eq_nil_iff.mp hs
    have hdelta : bytes.length - delta = o := by omega
    rw [shrinkFrom, if_neg (not_lt.mpr hend), hdelta, Pantomime.replaceCRLFWithLF, List.append_nil]

end Copying

section Results

lemma replaceCRLFWithLF_eq (b : Bytes) : replaceCRLFWithLF b = some (Pantomime.replaceCRLFWithLF b) := by
  refine (shrinkFrom_eq (i := 0) (s := b) rfl (Nat.lt_succ_self _) rfl (Nat.zero_le _)).trans ?_
  rw [List.take_zero, List.nil_append]

lemma replaceLFWithCRLF_eq {b : Bytes} (h : b ≠ []) :
    replaceLFWithCRLF b = some ((Pantomime.replaceLFWithCRLF b).length, Pantomime.replaceLFWithCRLF b) := by
  obtain ⟨c, s, rfl⟩ := List.exists_cons_of_ne_nil h
  have hlength := length_replaced (s := c :: s) (p := 0) fun t h => absurd h (by decide)
  rw [replaceLFWithCRLF, count_eq]
  change (copyFrom (c :: s) ((c :: s).length + lone 0 (c :: s)) ((c :: s).length + 1) 0 [] >>= fun out =>
    pure ((c :: s).length + lone 0 (c :: s), out)) = _
  rw [copyFrom_eq (s := c :: s) rfl (Nat.lt_succ_self _) (by rw [hlength]; simp), ← hlength]
  rfl

/-- Every line feed follows a carriage return, where `p` is the byte in front. -/
@[grind =] def Paired : UInt8 → Bytes → Prop
  | _, [] => True
  | p, c :: s => (c = 10 → p = 13) ∧ Paired c s

lemma paired_replaced (p : UInt8) (b : Bytes) : Paired p (Pantomime.replaceLFWithCRLF b) := by
  induction b using Pantomime.replaceLFWithCRLF.induct generalizing p with
  | case1 s ih =>
    rw [Pantomime.replaceLFWithCRLF]
    exact ⟨fun h => absurd h (by decide), fun _ => rfl, ih 10⟩
  | case2 s ih =>
    rw [Pantomime.replaceLFWithCRLF]
    exact ⟨fun h => absurd h (by decide), fun _ => rfl, ih 10⟩
  | case3 c s hpair hlf ih =>
    rw [replaceLFWithCRLF_cons (fun t h hs => hpair t h hs) hlf]
    exact ⟨fun h => absurd h hlf, ih c⟩
  | case4 => trivial

lemma Paired.split {p : UInt8} {l r : Bytes} (h : Paired p (l ++ 10 :: r)) :
    (l = [] ∧ p = 13) ∨ ∃ l', l = l' ++ [13] := by
  induction l generalizing p with
  | nil => exact .inl ⟨rfl, h.1 rfl⟩
  | cons c l ih =>
    rcases ih h.2 with ⟨rfl, rfl⟩ | ⟨l', rfl⟩
    · exact .inr ⟨[], rfl⟩
    · exact .inr ⟨c :: l', rfl⟩

lemma replaceLFWithCRLF_paired {p : UInt8} {b : Bytes} (h : Paired p b) (hp : p ≠ 13) :
    Pantomime.replaceLFWithCRLF b = b := by
  induction b using Pantomime.replaceLFWithCRLF.induct generalizing p with
  | case1 s ih => rw [Pantomime.replaceLFWithCRLF, ih h.2.2 (by decide)]
  | case2 s ih => exact absurd (h.1 rfl) hp
  | case3 c s hpair hlf ih =>
    rw [replaceLFWithCRLF_cons (fun t h hs => hpair t h hs) hlf]
    by_cases hc : c = 13
    · cases s with
      | nil => rfl
      | cons d s =>
        have hd : d ≠ 10 := by
          rintro rfl
          exact hpair s hc rfl
        have hrest : Paired 0 (d :: s) := ⟨fun h => absurd h hd, h.2.2⟩
        rw [ih hrest (by decide)]
    · rw [ih h.2 hc]
  | case4 => rfl

lemma replaceCRLFWithLF_replaced {b : Bytes} (h : 13 ∉ b) :
    Pantomime.replaceCRLFWithLF (Pantomime.replaceLFWithCRLF b) = b := by
  induction b using Pantomime.replaceLFWithCRLF.induct with
  | case1 s ih => exact absurd List.mem_cons_self h
  | case2 s ih =>
    rw [Pantomime.replaceLFWithCRLF, Pantomime.replaceCRLFWithLF, ih fun hs => h (List.mem_cons_of_mem _ hs)]
  | case3 c s hpair hlf ih =>
    obtain ⟨hc, hs⟩ := List.ne_and_not_mem_of_not_mem_cons h
    rw [replaceLFWithCRLF_cons (fun t h hs => hpair t h hs) hlf, replaceCRLFWithLF_cons fun t h => absurd h hc.symm, ih hs]
  | case4 => rfl

/-- What is to hold of the result for the data `b`: as much is written as has been allocated, every line feed follows a
carriage return, a second conversion changes nothing, and the way back is there. -/
def Converts (b : Bytes) : Prop :=
  ∃ out, replaceLFWithCRLF b = some (out.length, out) ∧ (∀ l r, out = l ++ 10 :: r → ∃ l', l = l' ++ [13]) ∧
    replaceLFWithCRLF out = some (out.length, out) ∧ Ensures (replaceCRLFWithLF out) fun b' => 13 ∉ b → b' = b

theorem converts_iff (b : Bytes) : Converts b ↔ b ≠ [] := by
  constructor
  · rintro ⟨out, hout, -⟩ rfl
    cases hout
  · intro h
    have hpaired := paired_replaced 0 b
    have hne : Pantomime.replaceLFWithCRLF b ≠ [] := by
      intro hnil
      have hlength := length_replaced (s := b) (p := 0) fun t h => absurd h (by decide)
      rw [hnil, List.length_nil] at hlength
      exact h (List.length_eq_zero_iff.mp (by omega))
    have htwice := replaceLFWithCRLF_eq hne
    rw [replaceLFWithCRLF_paired hpaired (by decide)] at htwice
    refine ⟨_, replaceLFWithCRLF_eq h, fun l r hlr => ?_, htwice, ?_⟩
    · rw [hlr] at hpaired
      exact hpaired.split.resolve_left fun hp => absurd hp.2 (by decide)
    · rw [replaceCRLFWithLF_eq]
      exact ensures_some replaceCRLFWithLF_replaced

/-- Of no data, a byte is read that is not there. -/
theorem not_converts_empty : ¬Converts [] := by
  rintro ⟨out, hout, -⟩
  cases hout

end Results

end Xperimentum.Pantomime.LineEndings
