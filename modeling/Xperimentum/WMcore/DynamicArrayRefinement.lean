import Mathlib.Data.List.Basic
import Mathlib.Data.Option.Basic
import Xperimentum.WMcore.DynamicArray

/-! An array holds a list, and every call does to it what the list operation does. -/

namespace Xperimentum.WMcore.DynamicArray

open Lib.Int32 Lib.Memory Lib.Partial

variable {α : Type} [Inhabited α] {array : WMArray α} {items : List α}

structure Holds (array : WMArray α) (items : List α) : Prop where
  count : array.itemCount = items.length
  content : items <+: array.items
  alloc : array.allocSize = array.items.length
  alloc_pos : 1 ≤ array.allocSize
  alloc_lt : array.allocSize < 2 ^ 31

lemma Holds.count_le (h : Holds array items) : array.itemCount ≤ array.allocSize := by
  have hle := h.content.length_le
  rw [h.count, h.alloc]
  omega

lemma length_block (size : ℤ) : (block size : List α).length = size.toNat := List.length_replicate

lemma holds_create {size : ℤ} (h : size < 2 ^ 31) : Holds (createArray size : WMArray α) [] := by
  refine ⟨rfl, List.nil_prefix, ?_, ?_, ?_⟩
  · simp only [createArray, length_block]
    split_ifs
    · rfl
    · omega
  · simp only [createArray]
    split_ifs
    · decide
    · omega
  · simp only [createArray]
    split_ifs
    · decide
    · exact h

/-- There is a place left, or the block can grow. -/
def HasRoom (array : WMArray α) : Prop :=
  array.itemCount < array.allocSize ∨ array.allocSize + resizeIncrement < 2 ^ 31

lemma Holds.grow (h : Holds array items) {more : ℤ} (h0 : 0 ≤ more) (hlt : array.allocSize + more < 2 ^ 31) :
    Ensures (grow more array) fun grown =>
      Holds grown items ∧ grown.allocSize = array.allocSize + more ∧ array.items <+: grown.items := by
  have hpos := h.alloc_pos
  have hwrap : wrap32 (array.allocSize + more) = array.allocSize + more := wrap32_of_mem (by omega) hlt
  have hlength := h.alloc
  have hprefix : array.items <+: (array.items ++ block (array.allocSize + more)).take (array.allocSize + more).toNat := by
    rw [List.prefix_take_iff]
    exact ⟨List.prefix_append _ _, by omega⟩
  rw [DynamicArray.grow]
  simp only [hwrap]
  rw [if_neg (by omega)]
  refine ensures_some ⟨⟨h.count, h.content.trans hprefix, ?_, by dsimp only; omega, hlt⟩, rfl, hprefix⟩
  simp only [List.length_take, List.length_append, length_block]
  omega

lemma Holds.makeRoom (h : Holds array items) (hroom : HasRoom array) :
    Ensures (makeRoom array) fun grown => Holds grown items ∧ grown.itemCount < grown.allocSize := by
  have hle := h.count_le
  rw [DynamicArray.makeRoom]
  split_ifs with hfull
  · refine (h.grow (by decide) (hroom.resolve_left (by omega))).imp fun grown hgrown => ⟨hgrown.1, ?_⟩
    rw [hgrown.1.count, ← h.count, hgrown.2.1, resizeIncrement]
    omega
  · exact ensures_some ⟨h, by omega⟩

lemma Holds.split (h : Holds array items) (hfree : array.itemCount < array.allocSize) :
    ∃ place rest, array.items = items ++ place :: rest := by
  obtain ⟨rest, hrest⟩ := h.content
  cases rest with
  | nil =>
    rw [h.count, h.alloc, ← hrest, List.append_nil] at hfree
    omega
  | cons place rest => exact ⟨place, rest, hrest.symm⟩

lemma Holds.write (h : Holds array items) {written block : List α} {count : ℤ} (hcount : count = written.length)
    (hcontent : written <+: block) (hlength : block.length = array.items.length) :
    Holds { array with items := block, itemCount := count } written :=
  ⟨hcount, hcontent, h.alloc.trans (by rw [hlength]), h.alloc_pos, h.alloc_lt⟩

lemma Holds.countUp (h : Holds array items) (hfree : array.itemCount < array.allocSize) {written block : List α}
    (rest : List α) (hwritten : written.length = items.length + 1) (hblock : block = written ++ rest)
    (hlength : block.length = array.items.length) :
    Holds (countUp { array with items := block }) written := by
  have hlt := h.alloc_lt
  have hcount := h.count
  refine h.write ?_ ⟨rest, hblock.symm⟩ hlength
  dsimp only
  rw [wrap32_of_mem (by omega) (by omega), hwritten, hcount]
  push_cast
  rfl

lemma Holds.addToArray (h : Holds array items) (item : α) (hroom : HasRoom array) :
    Ensures (addToArray array item) fun changed => Holds changed (items ++ [item]) := by
  refine Ensures.bind (h.makeRoom hroom) fun grown ⟨hgrown, hfree⟩ => ?_
  obtain ⟨place, rest, hitems⟩ := hgrown.split hfree
  have hset : update (fun _ => item) grown.items grown.itemCount 1 = some (items ++ item :: rest) := by
    rw [hgrown.count, update_eq item, hitems, List.set_append_right _ _ le_rfl, Nat.sub_self, List.set_cons_zero]
    rw [hitems, List.length_append, List.length_cons]
    omega
  rw [hset]
  refine ensures_pure (hgrown.countUp hfree rest ?_ ?_ ?_)
  · rw [List.length_append, List.length_singleton]
  · rw [List.append_assoc, List.singleton_append]
  · rw [hitems, List.length_append, List.length_append]
    rfl

lemma insertIdx_eq (items : List α) {i : ℕ} (hi : i ≤ items.length) (item : α) :
    items.insertIdx i item = items.take i ++ item :: items.drop i := by
  induction items generalizing i with
  | nil =>
    obtain rfl := Nat.le_zero.mp hi
    rfl
  | cons first items ih =>
    cases i with
    | zero => rfl
    | succ i =>
      rw [List.insertIdx_succ_cons, ih (Nat.le_of_succ_le_succ hi)]
      rfl

lemma Holds.shiftUp (h : Holds array items) (hfree : array.itemCount < array.allocSize) {i : ℕ} (hi : i ≤ items.length) :
    Ensures (shiftUp array i) fun moved => ∃ place rest, moved = items.take i ++ place :: (items.drop i ++ rest) ∧
      moved.length = array.items.length := by
  obtain ⟨place, rest, hitems⟩ := h.split hfree
  have hcount := h.count
  have hlength : array.items.length = items.length + (rest.length + 1) := by
    rw [hitems, List.length_append, List.length_cons]
  rw [DynamicArray.shiftUp]
  split_ifs with hlast
  · obtain ⟨n, hn⟩ : ∃ n : ℕ, array.itemCount - i = n := ⟨items.length - i, by omega⟩
    have htake : array.items.take (i + 1) = items.take i ++ [items[i]] := by
      rw [hitems, List.take_append_of_le_length (by omega), List.take_concat_get']
    have hdrop : (array.items.drop i).take n = items.drop i := by
      rw [hitems, List.drop_append_of_le_length hi]
      exact List.take_left' (by rw [List.length_drop]; omega)
    have hrest : array.items.drop (i + 1 + n) = rest := by
      have hend : i + 1 + n = items.length + 1 := by omega
      rw [hitems, hend, List.drop_append, List.drop_of_length_le (by omega), Nat.add_sub_cancel_left]
      rfl
    have hmove := move_eq array.items array.items (d := i + 1) (s := i) (n := n) (by omega) (by omega)
    rw [htake, hdrop, hrest, Nat.cast_succ] at hmove
    rw [hn, hmove]
    refine ensures_some ⟨items[i], rest, ?_, ?_⟩
    · rw [List.append_assoc]
      rfl
    · rw [List.length_append, List.length_append, List.length_append, List.length_take, List.length_drop, hlength]
      dsimp only [List.length_singleton]
      omega
  · have htake : items.take i = items := List.take_of_length_le (by omega)
    have hdrop : items.drop i = [] := List.drop_of_length_le (by omega)
    exact ensures_some ⟨place, rest, by rw [htake, hdrop, hitems]; rfl, rfl⟩

lemma Holds.insertInArray (h : Holds array items) (index : ℤ) (item : α)
    (hroom : 0 ≤ index → index ≤ array.itemCount → HasRoom array) :
    Ensures (insertInArray array index item) fun changed => Holds changed
      (if 0 ≤ index ∧ index ≤ items.length then items.insertIdx index.toNat item else items) := by
  rw [← h.count, DynamicArray.insertInArray]
  split_ifs with hindex
  · obtain ⟨i, rfl⟩ := Int.eq_ofNat_of_zero_le hindex.1
    refine Ensures.bind (h.makeRoom (hroom hindex.1 hindex.2)) fun grown ⟨hgrown, hfree⟩ => ?_
    have hi : i ≤ items.length := by
      rw [h.count] at hindex
      omega
    refine Ensures.bind (hgrown.shiftUp hfree hi) fun moved ⟨place, rest, hmoved, hlength⟩ => ?_
    have htake : (items.take i).length = i := List.length_take_of_le hi
    have hset : update (fun _ => item) moved i 1 = some (items.take i ++ item :: (items.drop i ++ rest)) := by
      rw [update_eq item, hmoved, List.set_append_right _ _ (by omega), htake, Nat.sub_self, List.set_cons_zero]
      rw [hmoved, List.length_append, List.length_cons, htake]
      omega
    rw [Int.toNat_natCast, insertIdx_eq items hi, hset]
    refine ensures_pure (hgrown.countUp hfree rest ?_ ?_ ?_)
    · rw [List.length_append, htake, List.length_cons, List.length_drop]
      omega
    · rw [List.append_assoc, List.cons_append]
    · rw [← hlength, hmoved, List.length_append, List.length_append]
      rfl
  · exact ensures_some h

lemma Holds.replaceInArray (h : Holds array items) (index : ℤ) (item : α) (hroom : index = array.itemCount → HasRoom array) :
    Ensures (replaceInArray array index item) fun changed => Holds changed.1
      (if 0 ≤ index ∧ index < items.length then items.set index.toNat item
      else if index = items.length then items ++ [item] else items) := by
  rw [← h.count, DynamicArray.replaceInArray]
  by_cases hend : index = array.itemCount
  · have hcount := h.count
    rw [if_pos (by omega), if_pos hend, if_neg (by omega), if_pos hend]
    obtain ⟨changed, hadd, hholds⟩ := h.addToArray item (hroom hend)
    rw [hadd]
    exact ensures_some hholds
  · rw [if_neg hend]
    by_cases hindex : 0 ≤ index ∧ index < array.itemCount
    · obtain ⟨rest, hrest⟩ := h.content
      obtain ⟨i, rfl⟩ := Int.eq_ofNat_of_zero_le hindex.1
      have hi : i < items.length := by
        rw [h.count] at hindex
        omega
      have hlt : i < array.items.length := by
        rw [← hrest, List.length_append]
        omega
      have hset : array.items.set i item = items.set i item ++ rest := by
        rw [← hrest, List.set_append_left _ _ hi]
      rw [if_pos ⟨hindex.1, hindex.2.le⟩, if_neg hend, if_pos hindex, read_eq hlt, update_eq item hlt, Int.toNat_natCast]
      refine ensures_some (h.write ?_ ⟨rest, hset.symm⟩ (List.length_set ..))
      rw [List.length_set]
      exact h.count
    · rw [if_neg (by omega), if_neg hindex, if_neg hend]
      exact ensures_some h

lemma Holds.shiftDown (h : Holds array items) {i : ℕ} (hi : i < items.length) :
    Ensures (shiftDown array i) fun moved => items.eraseIdx i <+: moved ∧ moved.length = array.items.length := by
  obtain ⟨rest, hrest⟩ := h.content
  have hcount := h.count
  have hlength : array.items.length = items.length + rest.length := by rw [← hrest, List.length_append]
  rw [DynamicArray.shiftDown]
  split_ifs with hlast
  · obtain ⟨n, hn⟩ : ∃ n : ℕ, array.itemCount - i - 1 = n := ⟨items.length - i - 1, by omega⟩
    have htake : array.items.take i = items.take i := by rw [← hrest, List.take_append_of_le_length hi.le]
    have hdrop : (array.items.drop (i + 1)).take n = items.drop (i + 1) := by
      rw [← hrest, List.drop_append_of_le_length hi]
      exact List.take_left' (by rw [List.length_drop]; omega)
    have hmove := move_eq array.items array.items (d := i) (s := i + 1) (n := n) (by omega) (by omega)
    rw [htake, hdrop, Nat.cast_succ] at hmove
    rw [hn, hmove]
    refine ensures_some ⟨⟨array.items.drop (i + n), ?_⟩, ?_⟩
    · rw [List.eraseIdx_eq_take_drop_succ, List.append_assoc]
    · simp only [List.length_append, List.length_take, List.length_drop]
      omega
  · have hdrop : items.drop (i + 1) = [] := List.drop_of_length_le (by omega)
    rw [List.eraseIdx_eq_take_drop_succ, hdrop, List.append_nil]
    exact ensures_some ⟨(List.take_prefix i items).trans h.content, rfl⟩

lemma Holds.deleteFromArray (h : Holds array items) (index : ℤ) :
    Ensures (deleteFromArray array index) fun changed => Holds changed.1
      (if 0 ≤ index then items.eraseIdx index.toNat else items) := by
  have hcount := h.count
  rw [DynamicArray.deleteFromArray]
  split_ifs with hindex h0 h0
  · obtain ⟨i, rfl⟩ := Int.eq_ofNat_of_zero_le h0
    have hi : i < items.length := by omega
    refine Ensures.bind (h.shiftDown hi) fun moved ⟨hmoved, hlength⟩ => ?_
    refine ensures_pure (h.write ?_ hmoved hlength)
    rw [Int.toNat_natCast, List.length_eraseIdx_of_lt hi, hcount]
    omega
  · omega
  · rw [List.eraseIdx_of_length_le (by omega)]
    exact ensures_some h
  · exact ensures_some h

lemma Holds.read (h : Holds array items) {i : ℕ} (hi : i < items.length) : read array.items i = some items[i] := by
  obtain ⟨rest, hrest⟩ := h.content
  have hlt : i < array.items.length := by
    rw [← hrest, List.length_append]
    omega
  rw [read_eq hlt]
  simp only [← hrest, List.getElem_append_left hi]

lemma Holds.findFrom (h : Holds array items) (isMatch : α → Bool) {i : ℕ} {rest : List α} (hrest : items.drop i = rest) :
    findFrom array isMatch rest.length i = some ((rest.findIdx? isMatch).map fun j => ((i + j : ℕ) : ℤ)) := by
  induction rest generalizing i with
  | nil => rfl
  | cons item rest ih =>
    have hi : i < items.length := by
      by_contra hge
      rw [List.drop_of_length_le (not_lt.mp hge)] at hrest
      cases hrest
    rw [List.drop_eq_getElem_cons hi] at hrest
    obtain ⟨hitem, hdrop⟩ := List.cons_eq_cons.mp hrest
    subst hitem
    rw [List.length_cons, DynamicArray.findFrom, h.read hi, List.findIdx?_cons]
    change (if isMatch items[i] = true then some (some (i : ℤ)) else DynamicArray.findFrom array isMatch rest.length (i + 1)) = _
    split_ifs
    · rfl
    · have hih := ih hdrop
      rw [Nat.cast_succ] at hih
      rw [hih, Option.map_map]
      congr 2
      funext j
      simp only [Function.comp_apply]
      push_cast
      ring

lemma Holds.removeFromArrayMatching (h : Holds array items) (isMatch : α → Bool) :
    Ensures (removeFromArrayMatching array isMatch) fun changed => Holds changed.1 (items.eraseP isMatch) := by
  have hfind := h.findFrom isMatch (i := 0) List.drop_zero
  have hcount : array.itemCount.toNat = items.length := by rw [h.count, Int.toNat_natCast]
  rw [DynamicArray.removeFromArrayMatching, hcount, ← Nat.cast_zero, hfind, List.eraseP_eq_eraseIdx]
  cases items.findIdx? isMatch with
  | none => exact ensures_pure h
  | some i =>
    obtain ⟨changed, hdelete, hholds⟩ := h.deleteFromArray ((0 + i : ℕ) : ℤ)
    rw [if_pos (by omega), Int.toNat_natCast, Nat.zero_add] at hholds
    refine ⟨(changed.1, 1), ?_, hholds⟩
    change (DynamicArray.deleteFromArray array ((0 + i : ℕ) : ℤ)).map _ = _
    rw [hdelete]
    rfl

lemma Holds.popFromArray (h : Holds array items) :
    Ensures (popFromArray array) fun changed => Holds changed.1 items.dropLast ∧ changed.2 = items.getLast? := by
  have hcount := h.count
  rw [DynamicArray.popFromArray]
  split_ifs with hempty
  · obtain rfl : items = [] := List.length_eq_zero_iff.mp (by omega)
    exact ensures_some ⟨h, rfl⟩
  · have hlast : array.itemCount - 1 = ((items.length - 1 : ℕ) : ℤ) := by omega
    rw [hlast, h.read (by omega)]
    refine ensures_some ⟨h.write ?_ ((List.dropLast_prefix items).trans h.content) rfl, ?_⟩
    · rw [List.length_dropLast]
    · rw [List.getLast?_eq_getElem?]
      exact (List.getElem?_eq_getElem _).symm

lemma Holds.sortArray (h : Holds array items) (qsort : QSort α) (comparer : α → α → ℤ) :
    Ensures (sortArray qsort array comparer) fun changed => Holds changed (qsort.sort comparer items) := by
  have hcount := h.count
  have hperm := qsort.perm comparer items
  obtain ⟨rest, hrest⟩ := h.content
  rw [DynamicArray.sortArray]
  split_ifs with hmany hinside
  · have htake : array.items.take array.itemCount.toNat = items := by
      rw [hcount, Int.toNat_natCast, ← hrest]
      exact List.take_left
    rw [htake]
    refine ensures_some (h.write ?_ (List.prefix_append _ _) ?_)
    · rw [hperm.length_eq]
      exact hcount
    · rw [List.length_append, hperm.length_eq, List.length_drop]
      omega
  · rw [← hrest, List.length_append] at hinside
    omega
  · have hsame : qsort.sort comparer items = items := by
      match items, hperm, hcount with
      | [], hperm, _ => exact hperm.eq_nil
      | [item], hperm, _ => exact List.perm_singleton.mp hperm
      | _ :: _ :: items, _, hcount =>
        rw [List.length_cons, List.length_cons] at hcount
        omega
    rw [hsame]
    exact ensures_some h

lemma Holds.createArrayWithArray (h : Holds array items) :
    Ensures (createArrayWithArray array) fun copy => Holds copy items := by
  have hcount := h.count
  have hle := h.count_le
  have halloc := h.alloc
  have hblock := length_block (α := α) array.allocSize
  obtain ⟨rest, hrest⟩ := h.content
  have hmove := move_eq (block array.allocSize) array.items (d := 0) (s := 0) (n := items.length) (by omega) (by omega)
  have htake : array.items.take items.length = items := by
    rw [← hrest]
    exact List.take_left
  rw [List.drop_zero, htake, List.take_zero, List.nil_append, Nat.cast_zero, ← hcount] at hmove
  rw [DynamicArray.createArrayWithArray, hmove]
  refine ensures_some (h.write hcount (List.prefix_append _ _) ?_)
  rw [List.length_append, List.length_drop]
  omega

/-- The range begins inside, its end is an `int`, and if it begins in front of the array it goes to its end. -/
def RangeFits (array : WMArray α) (aRange : WMRange) : Prop :=
  0 < array.itemCount ∧ aRange.position < array.itemCount ∧
    if aRange.position < 0 then array.itemCount ≤ aRange.position + aRange.count
    else aRange.position + aRange.count < 2 ^ 31

lemma filter_zipIdx (items : List α) (k low high : ℕ) :
    ((items.zipIdx k).filter fun item => low ≤ item.2 ∧ item.2 < high).map Prod.fst =
      (items.drop (low - k)).take (high - max low k) := by
  induction items generalizing k with
  | nil => rw [List.zipIdx_nil, List.drop_nil, List.take_nil]; rfl
  | cons item items ih =>
    rw [List.zipIdx_cons]
    by_cases hlow : low ≤ k
    · have hdrop : low - k = 0 := by omega
      have hdrop' : low - (k + 1) = 0 := by omega
      have hmax : max low k = k := max_eq_right hlow
      have hmax' : max low (k + 1) = k + 1 := max_eq_right (by omega)
      specialize ih (k + 1)
      rw [hdrop', hmax', List.drop_zero] at ih
      rw [hdrop, hmax, List.drop_zero]
      by_cases hhigh : k < high
      · obtain ⟨n, hn⟩ : ∃ n, high - k = n + 1 := ⟨high - (k + 1), by omega⟩
        have hn' : high - (k + 1) = n := by omega
        rw [List.filter_cons_of_pos (by simp [hlow, hhigh]), List.map_cons, ih, hn, hn', List.take_succ_cons]
      · have hzero : high - k = 0 := by omega
        have hzero' : high - (k + 1) = 0 := by omega
        rw [List.filter_cons_of_neg (by simp [hhigh]), ih, hzero, hzero', List.take_zero, List.take_zero]
    · obtain ⟨n, hn⟩ : ∃ n, low - k = n + 1 := ⟨low - (k + 1), by omega⟩
      have hn' : low - (k + 1) = n := by omega
      have hmax : max low k = low := max_eq_left (by omega)
      have hmax' : max low (k + 1) = low := max_eq_left (by omega)
      rw [List.filter_cons_of_neg (by simp [hlow]), ih, hn, hn', hmax, hmax', List.drop_succ_cons]

lemma subList_eq (aRange : WMRange) (items : List α) : subList aRange items =
    (items.drop aRange.position.toNat).take ((aRange.position + aRange.count).toNat - aRange.position.toNat) := by
  have hfilter := filter_zipIdx items 0 aRange.position.toNat (aRange.position + aRange.count).toNat
  rw [Nat.sub_zero, Nat.max_zero] at hfilter
  rw [← hfilter, subList]
  congr 2
  funext item
  apply decide_eq_decide.mpr
  omega

lemma Holds.clipped (h : Holds array items) {aRange : WMRange} (hcount : 0 < aRange.count) (hfits : RangeFits array aRange) :
    ∃ p c : ℕ, clippedPosition array aRange = p ∧ clippedCount array aRange = c ∧ 1 ≤ c ∧ p + c ≤ items.length ∧
      (items.drop aRange.position.toNat).take ((aRange.position + aRange.count).toNat - aRange.position.toNat) =
        (items.drop p).take c := by
  have hlength := h.count
  obtain ⟨hpos, hbegin, hend⟩ := hfits
  have hint := aRange.count_mem
  by_cases hneg : aRange.position < 0
  · have hp : clippedPosition array aRange = 0 := by
      rw [clippedPosition, if_pos hneg, if_neg (by omega)]
    rw [if_pos hneg] at hend
    refine ⟨0, items.length, hp, ?_, by omega, by omega, ?_⟩
    · rw [clippedCount, hp, zero_add, wrap32_of_mem hint.1 hint.2, if_pos (by omega)]
      omega
    · have hzero : aRange.position.toNat = 0 := by omega
      rw [hzero, List.drop_zero, List.take_of_length_le (by omega), List.take_length]
  · have hp : clippedPosition array aRange = aRange.position := by
      rw [clippedPosition, if_neg hneg, if_neg (by omega)]
    rw [if_neg hneg] at hend
    have hwrap : wrap32 (aRange.position + aRange.count) = aRange.position + aRange.count :=
      wrap32_of_mem (by omega) hend
    have hwant : (aRange.position + aRange.count).toNat - aRange.position.toNat = aRange.count.toNat := by omega
    by_cases hlong : array.itemCount < aRange.position + aRange.count
    · refine ⟨aRange.position.toNat, items.length - aRange.position.toNat, by omega, ?_, by omega, by omega, ?_⟩
      · rw [clippedCount, hp, hwrap, if_pos hlong]
        omega
      · have hdrop : (items.drop aRange.position.toNat).length = items.length - aRange.position.toNat := List.length_drop
        rw [hwant, List.take_of_length_le (by omega), List.take_of_length_le (by omega)]
    · refine ⟨aRange.position.toNat, aRange.count.toNat, by omega, ?_, by omega, by omega, ?_⟩
      · rw [clippedCount, hp, hwrap, if_neg hlong]
        omega
      · rw [hwant]

lemma Holds.getSubarrayWithRange (h : Holds array items) (aRange : WMRange)
    (hfits : 0 < aRange.count → RangeFits array aRange) :
    Ensures (getSubarrayWithRange array aRange) fun newArray => Holds newArray (subList aRange items) := by
  have hlength := h.count
  have hlt := h.alloc_lt
  have hle := h.count_le
  have halloc := h.alloc
  rw [subList_eq, DynamicArray.getSubarrayWithRange]
  split_ifs with hempty
  · have hzero : (aRange.position + aRange.count).toNat - aRange.position.toNat = 0 := by omega
    rw [hzero, List.take_zero]
    exact ensures_some (holds_create (by decide))
  · obtain ⟨p, c, hp, hc, hc1, hin, htake⟩ : ∃ p c : ℕ, clippedPosition array aRange = p ∧ clippedCount array aRange = c ∧
        1 ≤ c ∧ p + c ≤ items.length ∧
          (items.drop aRange.position.toNat).take ((aRange.position + aRange.count).toNat - aRange.position.toNat) =
            (items.drop p).take c := h.clipped (not_le.mp hempty) (hfits (not_le.mp hempty))
    obtain ⟨rest, hrest⟩ := h.content
    have hnew : createArray (c : ℤ) = (⟨block c, 0, c⟩ : WMArray α) := by
      rw [createArray, if_neg (by omega)]
    have hblock : (block c : List α).length = c := (length_block c).trans (Int.toNat_natCast c)
    have hmove := move_eq (block c) array.items (d := 0) (s := p) (n := c) (by omega) (by omega)
    have hsource : (array.items.drop p).take c = (items.drop p).take c := by
      rw [← hrest, List.drop_append_of_le_length (by omega), List.take_append_of_le_length]
      rw [List.length_drop]
      omega
    rw [List.take_zero, List.nil_append, hsource, Nat.cast_zero] at hmove
    have htaken : ((items.drop p).take c).length = c := by
      rw [List.length_take, List.length_drop]
      omega
    rw [hc, hp, hnew, htake]
    dsimp only
    rw [hmove]
    refine ensures_pure ⟨congrArg Nat.cast htaken.symm, List.prefix_append _ _, ?_, by dsimp only; omega, by dsimp only; omega⟩
    rw [List.length_append, htaken, List.length_drop, hblock]
    dsimp only
    omega

/-! Runs. -/

structure Represents (arrays : Arrays α) (lists : Lists α) : Prop where
  next : lists.next = arrays.next
  holds : ∀ address, Option.Rel Holds (arrays.find address) (lists.find address)

lemma represents_empty : Represents (Arrays.empty : Arrays α) Lists.empty := ⟨rfl, fun _ => .none⟩

variable {arrays : Arrays α} {lists : Lists α}

lemma Represents.cases (h : Represents arrays lists) (address : ℕ) :
    (arrays.find address = none ∧ lists.find address = none) ∨
      ∃ array items, arrays.find address = some array ∧ lists.find address = some items ∧ Holds array items := by
  have hrel := h.holds address
  cases harray : arrays.find address with
  | none =>
    rw [harray] at hrel
    cases hlist : lists.find address with
    | none => exact .inl ⟨rfl, rfl⟩
    | some items =>
      rw [hlist] at hrel
      cases hrel
  | some array =>
    rw [harray] at hrel
    cases hlist : lists.find address with
    | none =>
      rw [hlist] at hrel
      cases hrel
    | some items =>
      rw [hlist] at hrel
      cases hrel with
      | some hholds => exact .inr ⟨array, items, rfl, rfl, hholds⟩

lemma Represents.put (h : Represents arrays lists) (address : ℕ) {array : WMArray α} {items : List α}
    (hholds : Holds array items) :
    Represents (arrays.put address array) { lists with find := Function.update lists.find address (some items) } := by
  refine ⟨h.next, fun other => ?_⟩
  by_cases hother : other = address
  · dsimp only [Arrays.put]
    rw [hother, Function.update_self, Function.update_self]
    exact .some hholds
  · dsimp only [Arrays.put]
    rw [Function.update_of_ne hother, Function.update_of_ne hother]
    exact h.holds other

lemma Represents.create (h : Represents arrays lists) {array : WMArray α} {items : List α} (hholds : Holds array items) :
    Represents (arrays.create array) (lists.create items) := by
  have hput := h.put arrays.next hholds
  refine ⟨congrArg (· + 1) h.next, fun address => ?_⟩
  rw [Lists.create, h.next]
  exact hput.holds address

lemma Represents.change (h : Represents arrays lists) (address : ℕ) {f : WMArray α → Option (WMArray α)}
    {g : List α → List α}
    (hf : ∀ array items, arrays.find address = some array → Holds array items →
      Ensures (f array) fun changed => Holds changed (g items)) :
    Ensures (DynamicArray.change arrays address f) fun changed => Represents changed (lists.change address g) := by
  rw [DynamicArray.change, Lists.change]
  rcases h.cases address with ⟨harray, hlist⟩ | ⟨array, items, harray, hlist, hholds⟩
  · rw [harray, hlist]
    have hsame : Function.update lists.find address (Option.map g none) = lists.find := by
      rw [Option.map_none, ← hlist, Function.update_eq_self]
    rw [hsame]
    exact ensures_some h
  · rw [harray, hlist]
    obtain ⟨changed, hchanged, hnew⟩ := hf array items harray hholds
    dsimp only
    rw [hchanged]
    exact ensures_some (h.put address hnew)

/-- The sizes that are added are `int`s. -/
def AppendFits (array other : WMArray α) : Prop :=
  array.itemCount + other.itemCount < 2 ^ 31 ∧
    (array.allocSize < array.itemCount + other.itemCount → array.allocSize + other.allocSize < 2 ^ 31)

lemma Holds.makeRoomFor (h : Holds array items) {other : WMArray α} {others : List α} (hother : Holds other others)
    (hfits : AppendFits array other) :
    Ensures (makeRoomFor other array) fun grown =>
      Holds grown items ∧ grown.itemCount + other.itemCount ≤ grown.allocSize := by
  have hle := h.count_le
  have hotherLe := hother.count_le
  have hpos := hother.alloc_pos
  have hcount := h.count
  have hotherCount := hother.count
  have hwrap : wrap32 (array.itemCount + other.itemCount) = array.itemCount + other.itemCount :=
    wrap32_of_mem (by omega) hfits.1
  rw [DynamicArray.makeRoomFor, hwrap]
  split_ifs with hfull
  · refine (h.grow (by omega) (hfits.2 hfull)).imp fun grown hgrown => ⟨hgrown.1, ?_⟩
    rw [hgrown.1.count, ← h.count, hgrown.2.1]
    omega
  · exact ensures_some ⟨h, not_lt.mp hfull⟩

lemma Holds.append (h : Holds array items) {source : WMArray α} {others : List α} (hsource : Holds source others)
    (hfree : array.itemCount + others.length ≤ array.allocSize) :
    Ensures (move array.items array.itemCount source.items 0 others.length) fun moved =>
      items ++ others <+: moved ∧ moved.length = array.items.length := by
  have hcount := h.count
  have halloc := h.alloc
  obtain ⟨rest, hrest⟩ := h.content
  obtain ⟨more, hmore⟩ := hsource.content
  have hlength : array.items.length = items.length + rest.length := by rw [← hrest, List.length_append]
  have hotherLength : source.items.length = others.length + more.length := by rw [← hmore, List.length_append]
  have hmove := move_eq array.items source.items (d := items.length) (s := 0) (n := others.length) (by omega) (by omega)
  have htake : array.items.take items.length = items := by rw [← hrest, List.take_left]
  have htaken : source.items.take others.length = others := by rw [← hmore, List.take_left]
  rw [htake, List.drop_zero, htaken, Nat.cast_zero] at hmove
  rw [hcount, hmove]
  refine ensures_some ⟨⟨_, List.append_assoc ..⟩, ?_⟩
  rw [List.length_append, List.length_append, List.length_drop]
  omega

lemma Represents.appendArray (h : Represents arrays lists) (array other : ℕ)
    (hfits : ∀ a ∈ arrays.find array, ∀ o ∈ arrays.find other, AppendFits a o) :
    Ensures (appendArray arrays array other) fun changed =>
      Represents changed (lists.change array (· ++ (lists.find other).getD [])) := by
  rw [DynamicArray.appendArray, Lists.change]
  rcases h.cases array with ⟨harray, hlist⟩ | ⟨a, items, harray, hlist, hholds⟩
  · rw [harray, hlist, Option.map_none, ← hlist, Function.update_eq_self]
    exact ensures_some h
  · rw [harray, hlist, Option.map_some]
    rcases h.cases other with ⟨hother, hotherList⟩ | ⟨o, others, hother, hotherList, hotherHolds⟩
    · rw [hother, hotherList, Option.getD_none, List.append_nil, ← hlist, Function.update_eq_self]
      exact ensures_some h
    · rw [hother, hotherList, Option.getD_some]
      dsimp only
      have hcount := hotherHolds.count
      split_ifs with hempty
      · obtain rfl : others = [] := List.length_eq_zero_iff.mp (by omega)
        rw [List.append_nil, ← hlist, Function.update_eq_self]
        exact ensures_some h
      · refine Ensures.bind (hholds.makeRoomFor hotherHolds (hfits a harray o hother)) fun grown ⟨hgrown, hfree⟩ => ?_
        obtain ⟨source, hsource, hsourceHolds⟩ :
            ∃ source, ((arrays.put array grown).find other).getD o = source ∧ Holds source others := by
          refine ⟨_, rfl, ?_⟩
          dsimp only [Arrays.put]
          by_cases hsame : other = array
          · obtain rfl : others = items := Option.some_inj.mp (hotherList.symm.trans ((congrArg _ hsame).trans hlist))
            rw [hsame, Function.update_self]
            exact hgrown
          · rw [Function.update_of_ne hsame, hother]
            exact hotherHolds
        rw [hcount] at hfree
        rw [hsource, hsourceHolds.count]
        refine Ensures.bind (hgrown.append hsourceHolds hfree) fun moved ⟨happended, hlength⟩ => ?_
        refine ensures_pure (h.put array (hgrown.write ?_ happended hlength))
        have hint := hgrown.alloc_lt
        have hgrownCount := hgrown.count
        rw [wrap32_of_mem (by omega) (by omega), List.length_append, hgrownCount]
        push_cast
        rfl

/-- What a call asks of the arrays: sizes stay in the range of an `int`, and a range that is not empty fits. -/
def MayCall (arrays : Arrays α) : Call α → Prop
  | .createWithArray array => (arrays.find array).isSome
  | .append array other => ∀ a ∈ arrays.find array, ∀ o ∈ arrays.find other, AppendFits a o
  | .add array _ => ∀ a ∈ arrays.find array, HasRoom a
  | .insert array index _ => ∀ a ∈ arrays.find array, 0 ≤ index → index ≤ a.itemCount → HasRoom a
  | .replace array index _ => ∀ a ∈ arrays.find array, index = a.itemCount → HasRoom a
  | .subarray array aRange => ∀ a ∈ arrays.find array, 0 < aRange.count → RangeFits a aRange
  | _ => True

lemma Represents.call (h : Represents arrays lists) (qsort : QSort α) (c : Call α) (hc : MayCall arrays c) :
    Ensures (call qsort arrays c) fun changed => Represents changed (listCall qsort lists c) := by
  cases c with
  | create size => exact ensures_some (h.create (holds_create (wrap32_upper size)))
  | createWithArray array =>
    rcases h.cases array with ⟨harray, _⟩ | ⟨a, items, harray, hlist, hholds⟩
    · rw [MayCall, harray] at hc
      cases hc
    · simp only [DynamicArray.call, listCall, harray, hlist]
      exact Ensures.map (hholds.createArrayWithArray.imp fun _ => h.create)
  | empty array =>
    exact h.change array fun a items _ hholds => ensures_some (hholds.write rfl List.nil_prefix rfl)
  | append array other => exact h.appendArray array other hc
  | add array item => exact h.change array fun a items harray hholds => hholds.addToArray item (hc a harray)
  | insert array index item =>
    exact h.change array fun a items harray hholds => hholds.insertInArray index item (hc a harray)
  | replace array index item =>
    exact h.change array fun a items harray hholds => Ensures.map (hholds.replaceInArray index item (hc a harray))
  | delete array index => exact h.change array fun a items _ hholds => Ensures.map (hholds.deleteFromArray index)
  | remove array isMatch => exact h.change array fun a items _ hholds => Ensures.map (hholds.removeFromArrayMatching isMatch)
  | pop array =>
    exact h.change array fun a items _ hholds => Ensures.map (hholds.popFromArray.imp fun _ => And.left)
  | subarray array aRange =>
    rcases h.cases array with ⟨harray, hlist⟩ | ⟨a, items, harray, hlist, hholds⟩
    · simp only [DynamicArray.call, listCall, harray, hlist]
      exact ensures_some (h.create (holds_create (show (0 : ℤ) < 2 ^ 31 by decide)))
    · simp only [DynamicArray.call, listCall, harray, hlist]
      exact Ensures.map ((hholds.getSubarrayWithRange aRange (hc a harray)).imp fun _ => h.create)
  | sort array comparer => exact h.change array fun a items _ hholds => hholds.sortArray qsort comparer

lemma run_represents (qsort : QSort α) (h : Represents arrays lists) {calls : List (Call α)}
    (hcalls : Admits (call qsort) MayCall arrays calls) :
    Ensures (tryRun (call qsort) arrays calls) fun changed =>
      Represents changed (calls.foldl (listCall qsort) lists) := by
  induction calls generalizing arrays lists with
  | nil => exact ensures_pure h
  | cons c calls ih =>
    obtain ⟨changed, hchanged, hnew⟩ := h.call qsort c hcalls.1
    have hrest := ih hnew (hcalls.2 changed hchanged)
    rw [tryRun, List.foldlM_cons, hchanged]
    exact hrest

theorem arrays_refine_lists (qsort : QSort α) (calls : List (Call α))
    (h : Admits (call qsort) MayCall Arrays.empty calls) :
    Ensures (tryRun (call qsort) Arrays.empty calls) fun arrays =>
      Represents arrays (calls.foldl (listCall qsort) Lists.empty) ∧
        ∀ address, ∀ array ∈ arrays.find address, array.itemCount ≤ array.allocSize := by
  refine (run_represents qsort represents_empty h).imp fun arrays hrun => ⟨hrun, fun address array harray => ?_⟩
  rcases hrun.cases address with ⟨hnone, _⟩ | ⟨a, items, ha, _, hholds⟩
  · rw [hnone] at harray
    cases harray
  · obtain rfl : a = array := Option.some_inj.mp (ha.symm.trans harray)
    exact hholds.count_le

instance (array : WMArray α) : Decidable (HasRoom array) := inferInstanceAs (Decidable (_ ∨ _))

instance (array : WMArray α) (aRange : WMRange) : Decidable (RangeFits array aRange) :=
  inferInstanceAs (Decidable (_ ∧ _ ∧ _))

instance (array other : WMArray α) : Decidable (AppendFits array other) := inferInstanceAs (Decidable (_ ∧ _))

instance (arrays : Arrays α) (c : Call α) : Decidable (MayCall arrays c) :=
  match c with
  | .createWithArray array => inferInstanceAs (Decidable ((arrays.find array).isSome = true))
  | .append array other =>
    inferInstanceAs (Decidable (∀ a ∈ arrays.find array, ∀ o ∈ arrays.find other, AppendFits a o))
  | .add array _ => inferInstanceAs (Decidable (∀ a ∈ arrays.find array, HasRoom a))
  | .insert array index _ =>
    inferInstanceAs (Decidable (∀ a ∈ arrays.find array, 0 ≤ index → index ≤ a.itemCount → HasRoom a))
  | .replace array index _ =>
    inferInstanceAs (Decidable (∀ a ∈ arrays.find array, index = a.itemCount → HasRoom a))
  | .subarray array aRange =>
    inferInstanceAs (Decidable (∀ a ∈ arrays.find array, 0 < aRange.count → RangeFits a aRange))
  | .create _ | .empty _ | .delete _ _ | .remove _ _ | .pop _ | .sort _ _ => inferInstanceAs (Decidable True)

def mergeSort : QSort α where
  sort comparer items := items.mergeSort fun a b => comparer a b ≤ 0
  perm comparer items := List.mergeSort_perm items _
  sorted comparer total trans items := by
    refine (List.pairwise_mergeSort (fun a b c hab hbc => ?_) (fun a b => ?_) items).imp fun {a b} h => by simpa using h
    · simpa using trans a b c (by simpa using hab) (by simpa using hbc)
    · simpa using total a b

def firstAndLast : WMRange := ⟨0, 2, by decide, by decide⟩

/-- Three items, two of them as a new array, which goes behind them. -/
def exampleCalls : List (Call ℕ) :=
  [.create 0, .add 0 7, .insert 0 0 8, .replace 0 2 9, .subarray 0 firstAndLast, .append 0 1, .sort 1 fun a b => a - b]

theorem exampleCalls_refine_lists : Admits (call mergeSort) MayCall Arrays.empty exampleCalls ∧
    Ensures (tryRun (call mergeSort) Arrays.empty exampleCalls) fun arrays =>
      Represents arrays (exampleCalls.foldl (listCall mergeSort) Lists.empty) ∧
        ∀ address, ∀ array ∈ arrays.find address, array.itemCount ≤ array.allocSize := by
  have hcalls : Admits (call mergeSort) MayCall Arrays.empty exampleCalls := by decide
  exact ⟨hcalls, arrays_refine_lists mergeSort exampleCalls hcalls⟩

def pastTheEnd : WMRange := ⟨1, 1, by decide, by decide⟩

/-- The elements of a one-element array from index 1 on are its element 0. -/
theorem subarray_past_the_end :
    ¬∀ calls : List (Call ℕ), Ensures (tryRun (call mergeSort) Arrays.empty calls) fun arrays =>
      Represents arrays (calls.foldl (listCall mergeSort) Lists.empty) ∧
        ∀ address, ∀ array ∈ arrays.find address, array.itemCount ≤ array.allocSize := by
  intro hall
  obtain ⟨arrays, hrun, hrep, _⟩ := hall [.create 0, .add 0 7, .subarray 0 pastTheEnd]
  have hcount : ((tryRun (call mergeSort) Arrays.empty
      [.create 0, .add 0 7, .subarray 0 pastTheEnd]).bind fun arrays => (arrays.find 1).map WMArray.itemCount) =
        some 1 := by decide
  rw [hrun] at hcount
  rcases hrep.cases 1 with ⟨hnone, _⟩ | ⟨array, items, harray, hlist, hholds⟩
  · rw [Option.bind_some, hnone] at hcount
    cases hcount
  · rw [Option.bind_some, harray, Option.map_some, hholds.count] at hcount
    obtain rfl : items = [] := (Option.some_inj.mp hlist).symm
    cases hcount

end Xperimentum.WMcore.DynamicArray
