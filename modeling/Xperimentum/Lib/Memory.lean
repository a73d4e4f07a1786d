import Mathlib.Tactic
import Xperimentum.Lib.Partial

/-! Memory blocks as lists with integer offsets; an access outside the block is `none`. -/

namespace Xperimentum.Lib.Memory

open Xperimentum.Lib.Partial

variable {α : Type}

def Inside (n : ℕ) (start count : ℤ) : Prop := count ≤ 0 ∨ (0 ≤ start ∧ start + count ≤ n)

instance (n : ℕ) (start count : ℤ) : Decidable (Inside n start count) := inferInstanceAs (Decidable (_ ∨ _))

def read (buf : List α) (i : ℤ) : Option α := if 0 ≤ i then buf[i.toNat]? else none

def update (f : α → α) (buf : List α) (start count : ℤ) : Option (List α) :=
  if Inside buf.length start count then
    some (buf.mapIdx fun i a => if start ≤ i ∧ i < start + count then f a else a)
  else none

/-- `memmove` of `count` cells; a negative count is a huge `size_t`. -/
def move (dst : List α) (d : ℤ) (src : List α) (s count : ℤ) : Option (List α) :=
  if 0 ≤ count ∧ Inside dst.length d count ∧ Inside src.length s count then
    some (dst.mapIdx fun i a => if d ≤ i ∧ i < d + count then src.getD (s + (i - d)).toNat a else a)
  else none

/-- A cell is written behind those that have been, in a block of `size` cells. -/
def push (size : ℕ) (out : List α) (a : α) : Option (List α) := if out.length < size then some (out ++ [a]) else none

lemma push_of_lt {size : ℕ} {out : List α} {a : α} (h : out.length < size) : push size out a = some (out ++ [a]) :=
  if_pos h

lemma length_of_push {size : ℕ} {out out' : List α} {a : α} (h : push size out a = some out') :
    out.length < size ∧ out' = out ++ [a] := by
  rw [push] at h
  split_ifs at h with hlt
  · exact ⟨hlt, (Option.some.inj h).symm⟩

def pushAll (size : ℕ) (out as : List α) : Option (List α) := as.foldlM (push size) out

lemma pushAll_of_le {size : ℕ} {out as : List α} (h : out.length + as.length ≤ size) :
    pushAll size out as = some (out ++ as) := by
  induction as generalizing out with
  | nil => exact congrArg some (List.append_nil out).symm
  | cons a as ih =>
    rw [List.length_cons] at h
    rw [pushAll, List.foldlM_cons, push_of_lt (by omega)]
    refine (ih ?_).trans ?_
    · rw [List.length_append, List.length_singleton]
      omega
    · rw [List.append_assoc]
      rfl

lemma length_of_pushAll {size : ℕ} {out out' as : List α} (h : pushAll size out as = some out')
    (hout : out.length ≤ size) : out.length + as.length ≤ size ∧ out' = out ++ as := by
  induction as generalizing out with
  | nil => exact ⟨hout, (Option.some.inj h).symm.trans (List.append_nil out).symm⟩
  | cons a as ih =>
    rw [pushAll, List.foldlM_cons] at h
    obtain ⟨next, hnext, hrest⟩ := Option.bind_eq_some_iff.mp h
    obtain ⟨hlt, rfl⟩ := length_of_push hnext
    have hroom : (out ++ [a]).length ≤ size := by
      rw [List.length_append, List.length_singleton]
      exact hlt
    obtain ⟨hle, rfl⟩ := ih hrest hroom
    rw [List.length_append, List.length_singleton] at hle
    refine ⟨?_, by rw [List.append_assoc]; rfl⟩
    rw [List.length_cons]
    omega

lemma update_allows (f : α → α) (buf : List α) (start count : ℤ) :
    Allows (update f buf start count) fun b => b.length = buf.length := by
  intro b hb
  simp only [update] at hb
  split_ifs at hb
  · rw [← Option.some.inj hb, List.length_mapIdx]
  · cases hb

lemma update_of_nonpos (f : α → α) (buf : List α) (start : ℤ) {count : ℤ} (h : count ≤ 0) :
    update f buf start count = some buf := by
  rw [update, if_pos (.inl h)]
  congr 1
  apply List.ext_getElem List.length_mapIdx
  intro i _ _
  rw [List.getElem_mapIdx, if_neg (by omega)]

lemma move_allows (dst src : List α) (d s count : ℤ) :
    Allows (move dst d src s count) fun b => b.length = dst.length := by
  intro b hb
  simp only [move] at hb
  split_ifs at hb
  · rw [← Option.some.inj hb, List.length_mapIdx]
  · cases hb

lemma inside_of_move {dst src b : List α} {d s count : ℤ} (h : b ∈ move dst d src s count) :
    0 ≤ count ∧ Inside dst.length d count ∧ Inside src.length s count := by
  simp only [move] at h
  split_ifs at h with hc
  · exact hc
  · cases h

lemma getD_update {f : α → α} {buf b : List α} {start count : ℤ} (h : b ∈ update f buf start count) (z : α)
    {k : ℤ} (h0 : 0 ≤ k) (hk : k < buf.length) :
    b.getD k.toNat z = if start ≤ k ∧ k < start + count then f (buf.getD k.toNat z) else buf.getD k.toNat z := by
  have hlt : k.toNat < buf.length := by omega
  simp only [update] at h
  split_ifs at h
  · obtain rfl := Option.some.inj h
    simp only [List.getD_eq_getElem?_getD, List.getElem?_mapIdx, List.getElem?_eq_getElem hlt, Option.map_some,
      Option.getD_some, Int.toNat_of_nonneg h0]
  · cases h

lemma getD_move {dst src b : List α} {d s count : ℤ} (h : b ∈ move dst d src s count) (z : α) {k : ℤ}
    (h0 : 0 ≤ k) (hk : k < dst.length) :
    b.getD k.toNat z =
      if d ≤ k ∧ k < d + count then src.getD (s + (k - d)).toNat z else dst.getD k.toNat z := by
  have hlt : k.toNat < dst.length := by omega
  simp only [move] at h
  split_ifs at h with hc
  · obtain rfl := Option.some.inj h
    simp only [List.getD_eq_getElem?_getD, List.getElem?_mapIdx, List.getElem?_eq_getElem hlt, Option.map_some,
      Option.getD_some, Int.toNat_of_nonneg h0]
    split_ifs with hin
    · have hsrc : (s + (k - d)).toNat < src.length := by
        rcases hc.2.2 with hz | hs
        · omega
        · omega
      rw [List.getElem?_eq_getElem hsrc]
      rfl
    · rfl
  · cases h

lemma inside_of_le {n : ℕ} {start count : ℤ} (h0 : 0 ≤ start) (h : start + count ≤ n) : Inside n start count :=
  .inr ⟨h0, h⟩

lemma read_ensures (buf : List α) {i : ℤ} (h0 : 0 ≤ i) (h : i < buf.length) :
    Ensures (read buf i) fun _ => True := by
  have hlt : i.toNat < buf.length := by omega
  rw [read, if_pos h0, List.getElem?_eq_getElem hlt]
  exact ensures_some trivial

lemma update_ensures (f : α → α) {buf : List α} {start count : ℤ} (h : Inside buf.length start count) :
    Ensures (update f buf start count) fun b => b.length = buf.length := by
  rw [update, if_pos h]
  exact ensures_some List.length_mapIdx

lemma move_ensures {dst src : List α} {d s count : ℤ} (h0 : 0 ≤ count) (hd : Inside dst.length d count)
    (hs : Inside src.length s count) : Ensures (move dst d src s count) fun b => b.length = dst.length := by
  rw [move, if_pos ⟨h0, hd, hs⟩]
  exact ensures_some List.length_mapIdx

lemma move_eq (dst src : List α) {d s n : ℕ} (hd : d + n ≤ dst.length) (hs : s + n ≤ src.length) :
    move dst d src s n = some (dst.take d ++ ((src.drop s).take n ++ dst.drop (d + n))) := by
  have hin : 0 ≤ (n : ℤ) ∧ Inside dst.length d n ∧ Inside src.length s n := by
    refine ⟨by omega, inside_of_le (by omega) (by omega), inside_of_le (by omega) (by omega)⟩
  rw [move, if_pos hin]
  refine congrArg some (List.ext_getElem ?_ fun i hi _ => ?_)
  · simp only [List.length_mapIdx, List.length_append, List.length_take, List.length_drop]
    omega
  · rw [List.length_mapIdx] at hi
    rw [List.getElem_mapIdx]
    split_ifs with hmoved
    · have hsrc : (s + (i - d) : ℤ).toNat = s + (i - d) := by omega
      have htake : (dst.take d).length = d := List.length_take_of_le (by omega)
      rw [List.getElem_append_right (by omega), List.getElem_append_left (by
        simp only [List.length_take, List.length_drop]
        omega), List.getElem_take, List.getElem_drop, hsrc, List.getD_eq_getElem?_getD,
        List.getElem?_eq_getElem (by omega), Option.getD_some]
      congr 1
      omega
    · rcases Nat.lt_or_ge i d with hlt | hge
      · rw [List.getElem_append_left (by rw [List.length_take]; omega), List.getElem_take]
      · have htake : (dst.take d).length = d := List.length_take_of_le (by omega)
        have hmiddle : ((src.drop s).take n).length = n := by
          rw [List.length_take, List.length_drop]
          omega
        rw [List.getElem_append_right (by omega), List.getElem_append_right (by omega), List.getElem_drop]
        congr 1
        omega

lemma update_eq (a : α) {buf : List α} {i : ℕ} (h : i < buf.length) : update (fun _ => a) buf i 1 = some (buf.set i a) := by
  rw [update, if_pos (inside_of_le (by omega) (by omega))]
  refine congrArg some (List.ext_getElem (by rw [List.length_mapIdx, List.length_set]) fun j hj _ => ?_)
  rw [List.getElem_mapIdx, List.getElem_set]
  by_cases hij : i = j
  · rw [if_pos hij, if_pos (by omega)]
  · rw [if_neg hij, if_neg (by omega)]

lemma read_eq {buf : List α} {i : ℕ} (h : i < buf.length) : read buf i = some buf[i] := by
  rw [read, if_pos (by omega)]
  exact List.getElem?_eq_getElem h

end Xperimentum.Lib.Memory
