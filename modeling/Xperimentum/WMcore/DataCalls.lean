import Xperimentum.WMcore.Data

/-! What each call on a data makes of the bytes that it holds, and which block it leaves them in. -/

namespace Xperimentum.WMcore.Data

open Lib.Blocks Lib.Blocks.Heap Lib.Int32 Lib.Partial

variable {m m' : Memory} {d e : WMData} {b c x y z : List UInt8} {p q n newLength : ℕ} {aRange : DynamicArray.WMRange}
  {source : Source} {r : WMData × Memory}

structure Holds (m : Memory) (d : WMData) (b : List UInt8) : Prop where
  sound : Sound m
  block : ∃ spare, m.block d.bytes = some (b.map some ++ spare) ∧ b.length + spare.length = d.capacity
  length : d.length = b.length
  capacity : d.capacity < 2 ^ 32
  growth : 1 ≤ d.growth ∧ d.growth ≤ max d.capacity 1
  null : d.bytes = 0 ↔ d.capacity = 0
  bytes : d.bytes < m.next

def Yields (p : ℕ) (m : Memory) (b : List UInt8) (r : WMData × Memory) : Prop :=
  Moves p r.1.bytes m r.2 ∧ Holds r.2 r.1 b

lemma Holds.length_le (h : Holds m d b) : b.length ≤ d.capacity := by
  obtain ⟨spare, -, hlength⟩ := h.block
  omega

lemma Holds.moved (h : Holds m d b) (hm : Moves p q m m') (hp : d.bytes = 0 ∨ d.bytes ≠ p) : Holds m' d b where
  sound := hm.sound h.sound
  block := (hm.kept _ h.bytes hp).symm ▸ h.block
  length := h.length
  capacity := h.capacity
  growth := h.growth
  null := h.null
  bytes := h.bytes.trans_le hm.next

lemma growthOf_bounds (n : ℕ) : 1 ≤ growthOf n ∧ growthOf n ≤ max n 1 := by
  rw [growthOf]
  split_ifs <;> omega

lemma Holds.shrink (h : Holds m d b) (n : ℕ) : Holds m { d with length := (b.take n).length } (b.take n) := by
  obtain ⟨spare, hblock, hlength⟩ := h.block
  refine ⟨h.sound, ⟨(b.drop n).map some ++ spare, ?_, ?_⟩, rfl, h.capacity, h.growth, h.null, h.bytes⟩
  · rw [← List.append_assoc, ← List.map_append, List.take_append_drop]
    exact hblock
  · rw [List.length_append, List.length_map, ← Nat.add_assoc, ← List.length_append, List.take_append_drop]
    exact hlength

lemma Holds.load (h : Holds m d (x ++ (y ++ z))) : m.load d.bytes x.length y.length = some (y.map some) := by
  obtain ⟨spare, hblock, -⟩ := h.block
  rw [List.map_append, List.map_append, List.append_assoc, List.append_assoc] at hblock
  exact load_eq hblock (List.length_map _) (List.length_map _)

lemma Holds.load_all (h : Holds m d b) : m.load d.bytes 0 b.length = some (b.map some) := by
  have hnil : Holds m d ([] ++ (b ++ [])) := by rwa [List.append_nil]
  exact hnil.load

lemma Holds.overwrite (h : Holds m d (x ++ (y ++ z))) (hc : y.length = c.length) :
    Ensures (m.store d.bytes x.length (c.map some)) fun m' =>
      Moves d.bytes d.bytes m m' ∧ Holds m' d (x ++ (c ++ z)) := by
  obtain ⟨spare, hblock, hlength⟩ := h.block
  rw [List.map_append, List.map_append, List.append_assoc, List.append_assoc] at hblock
  have hcells : (y.map some).length = (c.map some).length := by rw [List.length_map, List.length_map, hc]
  refine (store_ensures h.sound hblock (List.length_map _) hcells).imp fun m' hm' => ?_
  obtain ⟨hmoves, hnext, hstored⟩ := hm'
  have hsame : (x ++ (c ++ z)).length = (x ++ (y ++ z)).length := by simp only [List.length_append, hc]
  refine ⟨hmoves, hmoves.sound h.sound, ⟨spare, ?_, hsame ▸ hlength⟩, h.length.trans hsame.symm, h.capacity, h.growth,
    h.null, hnext ▸ h.bytes⟩
  rw [hstored, List.map_append, List.map_append, List.append_assoc, List.append_assoc]

/-- The spare cells take what is put behind the bytes. -/
lemma Holds.extend (h : Holds m d b) (hroom : b.length + c.length ≤ d.capacity) :
    Ensures (m.store d.bytes b.length (c.map some)) fun m' =>
      Moves d.bytes d.bytes m m' ∧ Holds m' { d with length := b.length + c.length } (b ++ c) ∧ m'.next = m.next := by
  obtain ⟨spare, hblock, hlength⟩ := h.block
  have htake : (spare.take c.length).length = c.length := List.length_take_of_le (by omega)
  rw [← List.take_append_drop c.length spare] at hblock
  have hcells : (spare.take c.length).length = (c.map some).length := by rw [htake, List.length_map]
  refine (store_ensures h.sound hblock (List.length_map _) hcells).imp fun m' hm' => ?_
  obtain ⟨hmoves, hnext, hstored⟩ := hm'
  refine ⟨hmoves, ⟨hmoves.sound h.sound, ⟨spare.drop c.length, ?_, ?_⟩, List.length_append.symm, h.capacity, h.growth,
    h.null, hnext ▸ h.bytes⟩, hnext⟩
  · rw [hstored, List.map_append, List.append_assoc]
  · rw [List.length_append, List.length_drop]
    show b.length + c.length + (spare.length - c.length) = d.capacity
    omega

/-! The calls that make a data. -/

lemma holds_fresh (hm : Sound m) (hn : n ≠ 0) (hlt : n < 2 ^ 32) :
    Yields 0 m (List.replicate n 0) (⟨n, n, growthOf n, (m.fresh (zeros n)).1⟩, (m.fresh (zeros n)).2) := by
  have hmoves := fresh_moves 0 (zeros n) m
  refine ⟨hmoves, hmoves.sound hm, ⟨[], ?_, ?_⟩, ?_, hlt, growthOf_bounds n, ?_, Nat.lt_succ_self _⟩
  · rw [List.append_nil, List.map_replicate]
    exact fresh_block _ _
  · exact List.length_replicate
  · exact List.length_replicate.symm
  · exact iff_of_false hm.next.ne' hn

lemma holds_null (hm : Sound m) : Holds m ⟨0, 0, growthOf 0, 0⟩ [] :=
  ⟨hm, ⟨[], hm.null, rfl⟩, rfl, by decide, growthOf_bounds 0, Iff.rfl, hm.next⟩

lemma createDataWithLength_ensures (hm : Sound m) (hlt : n < 2 ^ 32) :
    Ensures (createDataWithLength n m) (Yields 0 m (List.replicate n 0)) := by
  rw [createDataWithLength, createDataWithCapacity]
  split_ifs with hn
  · rw [wmalloc, if_neg hn.ne']
    exact ensures_some (holds_fresh hm hn.ne' hlt)
  · obtain rfl : n = 0 := by omega
    exact ensures_some ⟨Moves.refl 0 m, holds_null hm⟩

lemma createDataWithCapacity_ensures (hm : Sound m) (hlt : n < 2 ^ 32) :
    Ensures (createDataWithCapacity n m) fun made => Yields 0 m [] made ∧ made.1.capacity = n := by
  rw [createDataWithCapacity]
  split_ifs with hn
  · rw [wmalloc, if_neg hn.ne']
    have hfresh := holds_fresh hm hn.ne' hlt
    exact ensures_some ⟨⟨hfresh.1, hfresh.2.shrink 0⟩, rfl⟩
  · obtain rfl : n = 0 := by omega
    exact ensures_some ⟨⟨Moves.refl 0 m, holds_null hm⟩, rfl⟩

lemma createDataWithBytes_ensures (hm : Sound m) (hlt : b.length < 2 ^ 32)
    (hload : ∀ made, Yields 0 m [] made → source.load b.length made.2 = some (b.map some)) :
    Ensures (createDataWithBytes source b.length m) (Yields 0 m b) := by
  obtain ⟨made, hmade, hyields, hcapacity⟩ := createDataWithCapacity_ensures hm hlt
  rw [createDataWithBytes, hmade, Option.bind_eq_bind, Option.bind_some, hload made hyields, Option.bind_eq_bind,
    Option.bind_some]
  have hroom : ([] : List UInt8).length + b.length ≤ made.1.capacity := by
    rw [hcapacity]
    exact (Nat.zero_add _).le
  refine (hyields.2.extend hroom).bind fun m' hm' => ?_
  obtain ⟨hmoves, hholds, _⟩ := hm'
  refine ensures_pure ⟨hyields.1.trans hmoves, ?_⟩
  rw [List.length_nil, Nat.zero_add] at hholds
  exact hholds

/-! The calls that change one. -/

lemma wrealloc_ensures (h : Holds m d b) (hchange : d.capacity ≠ n) :
    Ensures (wrealloc d.bytes n m) fun made => Moves d.bytes made.1 m made.2 ∧
      (∃ spare, made.2.block made.1 = some ((b.take n).map some ++ spare) ∧ (b.take n).length + spare.length = n) ∧
      (made.1 = 0 ↔ n = 0) ∧ made.1 < made.2.next ∧ made.2.next ≤ m.next + 1 ∧
      (d.bytes ≠ 0 → made.2.block d.bytes = none) := by
  obtain ⟨spare, hblock, hlength⟩ := h.block
  rw [wrealloc]
  split_ifs with hnull hn
  · -- `NULL` has no cells, and is not asked for no cells again.
    have hzero := h.null.mp hnull
    have hn : n ≠ 0 := fun hn => hchange (hzero.trans hn.symm)
    obtain rfl : b = [] := List.length_eq_zero_iff.mp (by omega)
    rw [wmalloc, if_neg hn]
    refine ensures_some ⟨fresh_moves _ _ m, ⟨zeros n, ?_, ?_⟩, iff_of_false h.sound.next.ne' hn,
      Nat.lt_succ_self _, le_rfl, fun hbytes => absurd hnull hbytes⟩
    · rw [List.take_nil]
      exact fresh_block _ _
    · rw [zeros, List.length_replicate, List.take_nil, List.length_nil, Nat.zero_add]
  · obtain rfl := hn
    obtain ⟨m', hm', hmoves, hfreed, hnext⟩ := free_ensures hblock hnull
    rw [hm']
    have hsound := hmoves.sound h.sound
    have hle : m'.next ≤ m.next + 1 := hnext.le.trans (Nat.le_succ _)
    exact ensures_some ⟨hmoves, ⟨[], hsound.null, rfl⟩, Iff.rfl, hsound.next, hle, fun _ => hfreed⟩
  · obtain ⟨made, hmade, hmoves, haddress, hnext, hcells, hfreed⟩ := realloc_ensures hblock hnull h.bytes n
    rw [hmade]
    refine ensures_some ⟨hmoves, ⟨(spare ++ List.replicate n none).take (n - b.length), ?_, ?_⟩, ?_, ?_, hnext.le,
      fun _ => hfreed⟩
    · rw [hcells, List.append_assoc, List.take_append, List.length_map, List.map_take]
    · simp only [List.length_take, List.length_append, List.length_replicate]
      omega
    · exact iff_of_false (haddress ▸ h.sound.next.ne') hn
    · rw [haddress, hnext]
      exact Nat.lt_succ_self _

/-- What is left of the bytes, and the room for them afterwards. -/
lemma setDataCapacity_ensures (h : Holds m d b) (hlt : n < 2 ^ 32) :
    Ensures (setDataCapacity n d m) fun r => Yields d.bytes m (b.take n) r ∧ r.1.capacity = n ∧
      r.2.next ≤ m.next + 1 ∧ (d.capacity ≠ n → d.bytes ≠ 0 → r.2.block d.bytes = none) := by
  have hcut : (if n < d.length then n else d.length) = (b.take n).length := by
    rw [List.length_take, h.length]
    split_ifs <;> omega
  rw [setDataCapacity]
  split_ifs with hchange
  · obtain ⟨made, hmade, hmoves, hblock, hnull, hbytes, hnext, hfreed⟩ := wrealloc_ensures h hchange
    rw [hmade]
    exact ensures_some ⟨⟨hmoves, hmoves.sound h.sound, hblock, hcut, hlt, growthOf_bounds n, hnull, hbytes⟩, rfl,
      hnext, fun _ => hfreed⟩
  · obtain rfl : d.capacity = n := not_not.mp hchange
    have htake : b.take d.capacity = b := List.take_of_length_le h.length_le
    have hshrunk := h.shrink d.capacity
    rw [← hcut] at hshrunk
    exact ensures_some ⟨⟨Moves.refl _ m, hshrunk⟩, rfl, Nat.le_succ _, fun hne => absurd rfl hne⟩

lemma Yields.trans {r' : WMData × Memory} (h : Yields p m b r) (h' : Yields r.1.bytes r.2 c r') : Yields p m c r' :=
  ⟨h.1.trans h'.1, h'.2⟩

lemma zeros_eq (n : ℕ) : zeros n = (List.replicate n 0).map some := List.map_replicate.symm

lemma setDataLength_ensures (h : Holds m d b) (hlt : n < 2 ^ 32) :
    Ensures (setDataLength n d m) (Yields d.bytes m ((b ++ List.replicate n 0).take n)) := by
  have hgrown : Ensures (if d.capacity < n then setDataCapacity n d m else some (d, m)) fun r =>
      Yields d.bytes m b r ∧ n ≤ r.1.capacity := by
    split_ifs with hroom
    · refine (setDataCapacity_ensures h hlt).imp fun r hr => ?_
      obtain ⟨hyields, hcapacity, _, _⟩ := hr
      refine ⟨?_, hcapacity.ge⟩
      rwa [List.take_of_length_le (h.length_le.trans hroom.le)] at hyields
    · exact ensures_some ⟨⟨Moves.refl _ m, h⟩, not_lt.mp hroom⟩
  refine hgrown.bind fun r hr => ?_
  obtain ⟨hyields, hroom⟩ := hr
  rw [hyields.2.length]
  split_ifs with hlength
  · have hend : b.length + (List.replicate (n - b.length) (0 : UInt8)).length = n := by
      rw [List.length_replicate]
      omega
    rw [zeros_eq]
    refine (hyields.2.extend (hend.le.trans hroom)).bind fun m' hm' => ?_
    obtain ⟨hmoves, hholds, _⟩ := hm'
    rw [hend] at hholds
    have htake : (b ++ List.replicate n 0).take n = b ++ List.replicate (n - b.length) 0 := by
      rw [List.take_append, List.take_of_length_le hlength.le, List.take_replicate, min_eq_left (Nat.sub_le _ _)]
    rw [htake]
    exact ensures_pure ⟨hyields.1.trans hmoves, hholds⟩
  · have hshrunk := hyields.2.shrink n
    rw [List.length_take_of_le (not_lt.mp hlength)] at hshrunk
    rw [List.take_append_of_le_length (not_lt.mp hlength)]
    exact ensures_pure ⟨hyields.1, hshrunk⟩

/-- As long as the sums do not wrap, the loop ends before the capacity has doubled what is needed. -/
lemma nextCapacity_ensures (hnew : newLength ≤ 2 ^ 31) (turns : ℕ) {capacity growth : ℕ} (hgrowth : 1 ≤ growth)
    (hle : growth ≤ capacity) (hlt : capacity < 2 * newLength) (hturns : newLength - capacity < turns) :
    Ensures (nextCapacity newLength turns capacity growth) fun next =>
      newLength ≤ next.1 ∧ capacity ≤ next.1 ∧ next.1 < 2 * newLength ∧ growth ≤ next.2 ∧ next.2 ≤ next.1 := by
  induction turns generalizing capacity growth with
  | zero => omega
  | succ turns ih =>
    rw [nextCapacity]
    split_ifs with hshort
    · have hmod : (capacity + growth) % 2 ^ 32 = capacity + growth := Nat.mod_eq_of_lt (by omega)
      rw [hmod]
      refine (ih (hgrowth.trans hle) (Nat.le_add_right _ _) (by omega) (by omega)).imp fun next h => ?_
      omega
    · exact ensures_some ⟨not_lt.mp hshort, le_rfl, hlt, le_rfl, hle⟩

/-- How the room of a data changes. -/
structure Grows (newLength : ℕ) (d : WMData) (m : Memory) (r : WMData × Memory) : Prop where
  upper : r.1.capacity ≤ max d.capacity (2 * newLength)
  once : r.2.next ≤ m.next ∧ d.capacity ≤ r.1.capacity ∧ d.growth ≤ r.1.growth ∨
    r.2.next ≤ m.next + 1 ∧ d.capacity + d.growth ≤ r.1.capacity ∧ d.capacity ≤ r.1.growth

lemma makeRoom_of_le (h : newLength ≤ d.capacity) : makeRoom newLength d m = some (d, m) := if_neg (not_lt.mpr h)

lemma makeRoom_ensures (h : Holds m d b) (hnew : newLength ≤ 2 ^ 31) :
    Ensures (makeRoom newLength d m) fun r => Yields d.bytes m b r ∧ newLength ≤ r.1.capacity ∧
      Grows newLength d m r ∧ (d.capacity < newLength → d.bytes ≠ 0 → r.2.block d.bytes = none) := by
  by_cases hshort : d.capacity < newLength
  · have hgrowth := h.growth
    have hmod : (d.capacity + d.growth) % 2 ^ 32 = d.capacity + d.growth := Nat.mod_eq_of_lt (by omega)
    rw [makeRoom, if_pos hshort, hmod]
    obtain ⟨next, hnext, hroom, hcapacity, hupper, hnextGrowth, hle⟩ :
        Ensures (nextCapacity newLength (2 ^ 64) (d.capacity + d.growth) (if d.capacity = 0 then 1 else d.capacity))
          fun next => newLength ≤ next.1 ∧ d.capacity + d.growth ≤ next.1 ∧ next.1 < 2 * newLength ∧
            (if d.capacity = 0 then 1 else d.capacity) ≤ next.2 ∧ next.2 ≤ next.1 :=
      nextCapacity_ensures hnew _ (by split_ifs <;> omega) (by split_ifs <;> omega) (by omega) (by omega)
    rw [hnext, Option.bind_eq_bind, Option.bind_some]
    have hgrows : 1 ≤ next.2 ∧ d.capacity ≤ next.2 := by
      split_ifs at hnextGrowth <;> omega
    refine (setDataCapacity_ensures h (show next.1 < 2 ^ 32 by omega)).bind fun r hr => ?_
    obtain ⟨hyields, hset, hmemory, hfreed⟩ := hr
    have hholds := hyields.2
    rw [List.take_of_length_le (by have := h.length_le; omega)] at hholds
    refine ensures_pure ⟨⟨hyields.1, hholds.sound, hholds.block, hholds.length, hholds.capacity, ⟨hgrows.1, ?_⟩,
      hholds.null, hholds.bytes⟩, hset ▸ hroom, ⟨?_, .inr ⟨hmemory, hset ▸ hcapacity, hgrows.2⟩⟩,
      fun _ => hfreed (by omega)⟩
    · show next.2 ≤ max r.1.capacity 1
      omega
    · show r.1.capacity ≤ _
      omega
  · rw [makeRoom_of_le (not_lt.mp hshort)]
    exact ensures_some ⟨⟨Moves.refl _ m, h⟩, not_lt.mp hshort, ⟨le_max_left _ _, .inl ⟨le_rfl, le_rfl, le_rfl⟩⟩,
      fun hlt => absurd hlt hshort⟩

lemma appendDataBytes_ensures (h : Holds m d b) (hnew : b.length + c.length ≤ 2 ^ 31)
    (hload : ∀ r, Yields d.bytes m b r → r ∈ makeRoom (b.length + c.length) d m →
      source.load c.length r.2 = some (c.map some)) :
    Ensures (appendDataBytes source c.length d m) fun r =>
      Yields d.bytes m (b ++ c) r ∧ Grows (b.length + c.length) d m r := by
  have hmod : (b.length + c.length) % 2 ^ 32 = b.length + c.length := Nat.mod_eq_of_lt (by omega)
  obtain ⟨r, hr, hyields, hroom, hgrows, -⟩ := makeRoom_ensures h hnew
  rw [appendDataBytes, h.length, hmod, hr, Option.bind_eq_bind, Option.bind_some, hload r hyields hr,
    Option.bind_eq_bind, Option.bind_some]
  refine (hyields.2.extend hroom).bind fun m' hm' => ?_
  obtain ⟨hmoves, hholds, hnext⟩ := hm'
  refine ensures_pure ⟨⟨hyields.1.trans hmoves, hholds⟩, hgrows.upper, ?_⟩
  rw [hnext]
  exact hgrows.once

/-! Ranges. -/

lemma inRange_iff (hlt : n < 2 ^ 31) (aRange : DynamicArray.WMRange) : InRange aRange n ↔
    0 ≤ aRange.position ∧ 0 ≤ aRange.count ∧ aRange.position < n ∧ aRange.position + aRange.count ≤ n := by
  have hposition := aRange.position_mem
  have hcount := aRange.count_mem
  unfold InRange toU32
  omega

lemma exists_split_range (hlt : b.length < 2 ^ 31) (h : InRange aRange b.length) :
    ∃ x y z : List UInt8, b = x ++ (y ++ z) ∧ aRange.position = x.length ∧ aRange.count = y.length := by
  obtain ⟨hposition, hcount, -, hend⟩ := (inRange_iff hlt aRange).mp h
  obtain ⟨x, y, z, rfl, hx, hy⟩ := Lib.Buffers.exists_split
    (show aRange.position.toNat + aRange.count.toNat ≤ b.length by omega)
  exact ⟨x, y, z, rfl, by omega, by omega⟩

def replaced (aRange : DynamicArray.WMRange) (c b : List UInt8) : List UInt8 :=
  if InRange aRange b.length then
    b.take aRange.position.toNat ++
      (c.take aRange.count.toNat ++ b.drop (aRange.position.toNat + aRange.count.toNat))
  else b

def subdata (aRange : DynamicArray.WMRange) (b : List UInt8) : List UInt8 :=
  if InRange aRange b.length then (b.drop aRange.position.toNat).take aRange.count.toNat
  else List.replicate aRange.count.toNat 0

lemma replaced_split (h : InRange aRange (x ++ (y ++ z)).length) (hposition : aRange.position = x.length)
    (hcount : aRange.count = y.length) : replaced aRange c (x ++ (y ++ z)) = x ++ (c.take y.length ++ z) := by
  have hdrop : (x ++ (y ++ z)).drop (x.length + y.length) = z := by
    rw [← List.append_assoc, List.drop_left' List.length_append]
  rw [replaced, if_pos h, hposition, hcount, Int.toNat_natCast, Int.toNat_natCast, List.take_left, hdrop]

lemma size_natCast (n : ℕ) : size n = some n := if_pos (Int.natCast_nonneg n)

lemma replaceDataBytesInRange_ensures (h : Holds m d b) (hlt : b.length < 2 ^ 31) (hc : aRange.count ≤ c.length) :
    Ensures (replaceDataBytesInRange aRange (.given c) d m) (Yields d.bytes m (replaced aRange c b)) := by
  rw [replaceDataBytesInRange, h.length]
  by_cases hin : InRange aRange b.length
  · obtain ⟨x, y, z, rfl, hposition, hcount⟩ := exists_split_range hlt hin
    have hle : y.length ≤ c.length := by omega
    have htake : y.length = (c.take y.length).length := (List.length_take_of_le hle).symm
    rw [if_pos hin, replaced_split hin hposition hcount, hposition, hcount, size_natCast, size_natCast,
      Option.bind_eq_bind, Option.bind_some, Option.bind_eq_bind, Option.bind_some, Source.load, if_pos hle,
      Option.bind_eq_bind, Option.bind_some]
    exact (h.overwrite htake).bind fun m' hm' => ensures_pure hm'
  · rw [if_neg hin, replaced, if_neg hin]
    exact ensures_some ⟨Moves.refl _ m, h⟩

lemma resetDataBytesInRange_ensures (h : Holds m d b) (hlt : b.length < 2 ^ 31) :
    Ensures (resetDataBytesInRange aRange d m)
      (Yields d.bytes m (replaced aRange (List.replicate aRange.count.toNat 0) b)) := by
  rw [resetDataBytesInRange, h.length]
  by_cases hin : InRange aRange b.length
  · obtain ⟨x, y, z, rfl, hposition, hcount⟩ := exists_split_range hlt hin
    rw [if_pos hin, replaced_split hin hposition hcount, hposition, hcount, size_natCast, size_natCast,
      Option.bind_eq_bind, Option.bind_some, Option.bind_eq_bind, Option.bind_some, Int.toNat_natCast,
      List.take_replicate, min_self, zeros_eq]
    exact (h.overwrite List.length_replicate.symm).bind fun m' hm' => ensures_pure hm'
  · rw [if_neg hin, replaced, if_neg hin]
    exact ensures_some ⟨Moves.refl _ m, h⟩

lemma Holds.overwrite_all (h : Holds m d b) (hc : b.length = c.length) :
    Ensures (m.store d.bytes 0 (c.map some)) fun m' => Moves d.bytes d.bytes m m' ∧ Holds m' d c := by
  have hnil : Holds m d ([] ++ (b ++ [])) := by rwa [List.append_nil]
  have hwritten := hnil.overwrite hc
  rw [List.append_nil] at hwritten
  exact hwritten

lemma getSubdataWithRange_ensures (h : Holds m d b) (hlt : b.length < 2 ^ 31) :
    Ensures (getSubdataWithRange aRange d m) (Yields 0 m (subdata aRange b)) := by
  rw [getSubdataWithRange]
  by_cases hcount : aRange.count ≤ 0
  · have hempty : subdata aRange b = [] := by
      rw [subdata, Int.toNat_of_nonpos hcount, List.take_zero, List.replicate_zero, ite_self]
    rw [if_pos hcount, hempty]
    exact (createDataWithCapacity_ensures h.sound (by decide)).imp fun _ hmade => hmade.1
  · have hne : aRange.count.toNat ≠ 0 := by omega
    have hsize : aRange.count.toNat < 2 ^ 32 := by
      have := aRange.count_mem
      omega
    have hfresh := holds_fresh h.sound hne hsize
    have hkept := h.moved hfresh.1 (Decidable.em _)
    rw [if_neg hcount, wmalloc, if_neg hne, Option.bind_eq_bind, Option.bind_some, h.length]
    by_cases hin : InRange aRange b.length
    · obtain ⟨x, y, z, rfl, hx, hy⟩ := exists_split_range hlt hin
      have hpart : subdata aRange (x ++ (y ++ z)) = y := by
        rw [subdata, if_pos hin, hx, hy, Int.toNat_natCast, Int.toNat_natCast, List.drop_left, List.take_left]
      have hlength : (List.replicate aRange.count.toNat (0 : UInt8)).length = y.length := by
        rw [List.length_replicate, hy, Int.toNat_natCast]
      obtain ⟨m', hm', hmoves, hholds⟩ := hfresh.2.overwrite_all hlength
      have hload := hkept.load
      have htoNat : aRange.count.toNat = y.length := by omega
      rw [← htoNat] at hload
      rw [if_pos hin, hpart, hx, size_natCast]
      simp only [Option.bind_eq_bind, Option.bind_some, hload, hm']
      exact ensures_pure ⟨hfresh.1.trans hmoves, hholds⟩
    · rw [if_neg hin, subdata, if_neg hin]
      exact ensures_pure hfresh

lemma createDataWithData_ensures (h : Holds m d b) : Ensures (createDataWithData d m) (Yields 0 m b) := by
  have hlength := h.length
  rw [createDataWithData]
  split_ifs with hpos
  · rw [hlength]
    refine createDataWithBytes_ensures h.sound (h.length_le.trans_lt h.capacity) fun made hmade => ?_
    exact (h.moved hmade.1 (Decidable.em _)).load_all
  · obtain rfl : b = [] := List.length_eq_zero_iff.mp (by omega)
    exact (createDataWithCapacity_ensures h.sound (by decide)).imp fun _ hmade => hmade.1

lemma setData_ensures (h : Holds m d b) (hlt : c.length < 2 ^ 32) {other : WMData → WMData}
    (hload : ∀ r, Yields d.bytes m (b.take c.length) r → r.2.load (other r.1).bytes 0 c.length = some (c.map some)) :
    Ensures (setData c.length other d m) (Yields d.bytes m c) := by
  obtain ⟨r, hr, hyields, hcapacity, -, -⟩ := setDataCapacity_ensures h hlt
  have hempty := hyields.2.shrink 0
  have hwritten := hempty.extend (c := c) (by rw [hcapacity]; exact (Nat.zero_add _).le)
  rw [setData, hr, Option.bind_eq_bind, Option.bind_some]
  by_cases hpos : 0 < c.length
  · rw [if_pos hpos, hload r hyields, Option.bind_eq_bind, Option.bind_eq_bind, Option.bind_some]
    refine hwritten.bind fun m' hm' => ?_
    obtain ⟨hmoves, hholds, _⟩ := hm'
    refine ensures_pure ⟨hyields.1.trans hmoves, ?_⟩
    rw [List.take_zero, List.length_nil, Nat.zero_add] at hholds
    exact hholds
  · obtain rfl : c = [] := List.length_eq_zero_iff.mp (by omega)
    rw [if_neg hpos]
    exact ensures_pure ⟨hyields.1, hempty⟩

end Xperimentum.WMcore.Data
