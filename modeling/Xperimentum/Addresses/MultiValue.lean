import Mathlib.Data.List.InsertIdx
import Mathlib.Data.List.TakeWhile
import Mathlib.Tactic
import Xperimentum.Lib.Int32

/-! `ADMutableMultiValue`: an array of dictionaries, and the list of triples that it stands for. -/

namespace Xperimentum.Addresses.MultiValue

open Lib.Int32

abbrev Text := List Char

/-- The dictionary of an entry; `unnamed` is what it has under the empty key. -/
structure Entry (V L : Type) where
  value : Option V
  label : Option L
  unnamed : Option L
  identifier : Option Text
  deriving DecidableEq

structure Triple (V L : Type) where
  value : V
  label : L
  identifier : Option Text
  deriving DecidableEq

inductive Op (V L : Type)
  | addValue (value : V) (label : L)
  | addValueWithIdentifier (value : V) (label : L) (identifier : Option Text)
  | insertValue (value : V) (label : L) (index : ℕ)
  | removeValueAndLabel (index : ℕ)
  | replaceValue (index : ℕ) (value : V)
  | replaceLabel (index : ℕ) (label : L)

def isSpace (c : Char) : Bool := c = ' ' || 9 ≤ c.toNat && c.toNat ≤ 13

def digits (s : Text) : ℤ := Nat.ofDigitChars 10 (s.takeWhile Char.isDigit) 0

/-- The digits are read as a `long`, which stops at its bounds, and narrowed. -/
def intValue (s : Text) : ℤ :=
  match s.dropWhile isSpace with
  | '-' :: t => wrap32 (max (-2 ^ 63) (-digits t))
  | '+' :: t => wrap32 (min (2 ^ 63 - 1) (digits t))
  | t => wrap32 (min (2 ^ 63 - 1) (digits t))

/-- `%d` -/
def decimal (n : ℤ) : Text := if n < 0 then '-' :: Nat.toDigits 10 n.natAbs else Nat.toDigits 10 n.toNat

section Code

variable {V L : Type} (arr : List (Entry V L))

/-- No result is the exception of an index out of range. -/
def valueAtIndex (index : ℕ) : Option (Option V) := arr[index]?.map Entry.value

def labelAtIndex (index : ℕ) : Option (Option L) := arr[index]?.map Entry.label

def identifierAtIndex (index : ℕ) : Option (Option Text) := arr[index]?.map Entry.identifier

/-- No string is equal to `nil`. -/
def indexForIdentifier (identifier : Option Text) : Option ℕ :=
  identifier.bind fun s => arr.findIdx? fun dict => dict.identifier = some s

/-- A message to `nil` returns zero. -/
def intValue? (identifier : Option Text) : ℤ := (identifier.map intValue).getD 0

def maxIdentifier : ℤ := arr.foldl (fun m dict => max m (intValue? dict.identifier)) 0

def nextValidID : Text := decimal (wrap32 (maxIdentifier arr + 1))

def addValue (value : V) (label : L) : Text × List (Entry V L) :=
  (nextValidID arr, arr ++ [⟨some value, some label, none, some (nextValidID arr)⟩])

def addValueWithIdentifier (value : V) (label : L) (identifier : Option Text) : Bool × List (Entry V L) :=
  if (indexForIdentifier arr identifier).isSome then (false, arr)
  else (true, arr ++ [⟨some value, some label, none, identifier⟩])

/-- The label is stored under the empty key. -/
def insertValue (value : V) (label : L) (index : ℕ) : Option (Text × List (Entry V L)) :=
  if index ≤ arr.length then
    some (nextValidID arr, arr.insertIdx index ⟨some value, none, some label, some (nextValidID arr)⟩)
  else none

def removeValueAndLabelAtIndex (index : ℕ) : Bool × List (Entry V L) :=
  if arr.length ≤ index then (false, arr) else (true, arr.eraseIdx index)

def replaceValueAtIndex (index : ℕ) (value : V) : Bool × List (Entry V L) :=
  match arr[index]? with
  | none => (false, arr)
  | some dict => (true, arr.set index { dict with value := some value })

def replaceLabelAtIndex (index : ℕ) (label : L) : Bool × List (Entry V L) :=
  match arr[index]? with
  | none => (false, arr)
  | some dict => (true, arr.set index { dict with label := some label })

def step : Op V L → Option (List (Entry V L))
  | .addValue value label => some (addValue arr value label).2
  | .addValueWithIdentifier value label identifier => some (addValueWithIdentifier arr value label identifier).2
  | .insertValue value label index => (insertValue arr value label index).map Prod.snd
  | .removeValueAndLabel index => some (removeValueAndLabelAtIndex arr index).2
  | .replaceValue index value => some (replaceValueAtIndex arr index value).2
  | .replaceLabel index label => some (replaceLabelAtIndex arr index label).2

end Code

section Runs

variable {V L : Type}

/-- An operation on the triples; a new identifier is the one that the code returns. -/
def abstractStep (fresh : Text) (ts : List (Triple V L)) : Op V L → List (Triple V L)
  | .addValue value label => ts ++ [⟨value, label, some fresh⟩]
  | .addValueWithIdentifier value label identifier =>
    if identifier ∈ ts.map Triple.identifier then ts else ts ++ [⟨value, label, identifier⟩]
  | .insertValue value label index => ts.insertIdx index ⟨value, label, some fresh⟩
  | .removeValueAndLabel index => ts.eraseIdx index
  | .replaceValue index value => ts.modify index fun t => { t with value := value }
  | .replaceLabel index label => ts.modify index fun t => { t with label := label }

/-- The array of the object, and the triples after the same operations. -/
structure Both (V L : Type) where
  arr : List (Entry V L)
  triples : List (Triple V L)

def Both.step (s : Both V L) (op : Op V L) : Option (Both V L) :=
  (MultiValue.step s.arr op).map fun arr => ⟨arr, abstractStep (nextValidID s.arr) s.triples op⟩

def Op.InRange (count : ℕ) : Op V L → Prop
  | .addValue .. | .addValueWithIdentifier .. => True
  | .insertValue _ _ index => index ≤ count
  | .removeValueAndLabel index | .replaceValue index _ | .replaceLabel index _ => index < count

structure Good (s : Both V L) : Prop where
  value : ∀ i, valueAtIndex s.arr i = s.triples[i]?.map fun t => some t.value
  label : ∀ i, labelAtIndex s.arr i = s.triples[i]?.map fun t => some t.label
  identifier : ∀ i, identifierAtIndex s.arr i = s.triples[i]?.map Triple.identifier
  distinct : (s.triples.map Triple.identifier).Nodup
  inverse : ∀ i t, s.triples[i]? = some t → indexForIdentifier s.arr t.identifier = some i

def InRangeAll (s : Both V L) : List (Op V L) → Prop
  | [] => True
  | op :: ops => op.InRange s.arr.length ∧ ∀ s' ∈ s.step op, InRangeAll s' ops

/-- No call raises an exception, and every state is good. -/
def GoodAll (s : Both V L) : List (Op V L) → Prop
  | [] => Good s
  | op :: ops => Good s ∧ ∃ s' ∈ s.step op, GoodAll s' ops

/-- The largest number that an identifier can be read as is followed by the smallest one. -/
def lastIdentifier : Text := decimal (-2 ^ 31)

/-- No value is inserted, an identifier from outside is a string, and where an identifier is read as the largest
number, the smallest is not in use. -/
def Op.Kept (arr : List (Entry V L)) : Op V L → Prop
  | .addValue .. => maxIdentifier arr < 2 ^ 31 - 1 ∨ indexForIdentifier arr (some lastIdentifier) = none
  | .addValueWithIdentifier _ _ identifier => identifier ≠ none
  | .insertValue .. => False
  | .removeValueAndLabel _ | .replaceValue .. | .replaceLabel .. => True

def KeptAll (s : Both V L) : List (Op V L) → Prop
  | [] => True
  | op :: ops => op.Kept s.arr ∧ ∀ s' ∈ s.step op, KeptAll s' ops

end Runs

lemma digits_toDigits (n : ℕ) : digits (Nat.toDigits 10 n) = n := by
  have hall : (Nat.toDigits 10 n).takeWhile Char.isDigit = Nat.toDigits 10 n :=
    List.takeWhile_eq_self_iff.mpr fun c hc => Nat.isDigit_of_mem_toDigits (by decide) (by decide) hc
  rw [digits, hall, Nat.ofDigitChars_ten_toDigits]

lemma not_isSpace_of_isDigit {c : Char} (h : c.isDigit = true) : isSpace c = false ∧ c ≠ '-' ∧ c ≠ '+' := by
  have hbounds : 48 ≤ c.toNat ∧ c.toNat ≤ 57 := by simpa [Char.isDigit, UInt32.le_iff_toNat_le] using h
  refine ⟨?_, ?_, ?_⟩
  · simp only [isSpace, Bool.or_eq_false_iff, Bool.and_eq_false_iff, decide_eq_false_iff_not]
    refine ⟨?_, .inr (by omega)⟩
    rintro rfl
    exact absurd hbounds.1 (by decide)
  · rintro rfl
    exact absurd hbounds.1 (by decide)
  · rintro rfl
    exact absurd hbounds.1 (by decide)

lemma intValue_toDigits {n : ℕ} (hn : (n : ℤ) < 2 ^ 31) : intValue (Nat.toDigits 10 n) = n := by
  have hdigits := digits_toDigits n
  cases hd : Nat.toDigits 10 n with
  | nil => exact absurd hd Nat.toDigits_ne_nil
  | cons c s =>
    have hc := not_isSpace_of_isDigit
      (Nat.isDigit_of_mem_toDigits (by decide) (by decide) (hd ▸ List.mem_cons_self : c ∈ Nat.toDigits 10 n))
    rw [hd] at hdigits
    rw [intValue, List.dropWhile_cons_of_neg (by simp [hc.1])]
    split
    · rename_i heq
      exact absurd (List.cons.inj heq).1 hc.2.1
    · rename_i heq
      exact absurd (List.cons.inj heq).1 hc.2.2
    · rw [hdigits, min_eq_right (by omega), wrap32_of_mem (by omega) hn]

lemma intValue_bounds (s : Text) : -2 ^ 31 ≤ intValue s ∧ intValue s < 2 ^ 31 := by
  rw [intValue]
  split
  all_goals exact ⟨wrap32_lower _, wrap32_upper _⟩

section Identifiers

variable {V L : Type} (arr : List (Entry V L))

lemma le_foldl_max {α : Type} (f : α → ℤ) (xs : List α) (m : ℤ) :
    m ≤ xs.foldl (fun m x => max m (f x)) m ∧ ∀ x ∈ xs, f x ≤ xs.foldl (fun m x => max m (f x)) m := by
  induction xs generalizing m with
  | nil => simp
  | cons y xs ih =>
    obtain ⟨hm, hxs⟩ := ih (max m (f y))
    refine ⟨(le_max_left _ _).trans hm, fun x hx => ?_⟩
    rcases List.mem_cons.mp hx with rfl | hx
    · exact (le_max_right _ _).trans hm
    · exact hxs x hx

lemma foldl_max_lt {α : Type} {f : α → ℤ} {b : ℤ} (hf : ∀ x, f x < b) (xs : List α) {m : ℤ} (hm : m < b) :
    xs.foldl (fun m x => max m (f x)) m < b := by
  induction xs generalizing m with
  | nil => exact hm
  | cons y xs ih => exact ih (max_lt hm (hf y))

lemma maxIdentifier_nonneg : 0 ≤ maxIdentifier arr := (le_foldl_max _ arr 0).1

lemma maxIdentifier_lt : maxIdentifier arr < 2 ^ 31 := by
  refine foldl_max_lt (fun dict => ?_) arr (by decide)
  cases hid : dict.identifier with
  | none =>
    change (0 : ℤ) < 2 ^ 31
    norm_num
  | some s => exact (intValue_bounds s).2

/-- The number of a new identifier is larger than that of every identifier in use, unless it overflows. -/
lemma nextValidID_unused_iff : some (nextValidID arr) ∉ arr.map Entry.identifier ↔
    maxIdentifier arr < 2 ^ 31 - 1 ∨ some lastIdentifier ∉ arr.map Entry.identifier := by
  have hnonneg := maxIdentifier_nonneg arr
  have hlt := maxIdentifier_lt arr
  by_cases hmax : maxIdentifier arr < 2 ^ 31 - 1
  · refine iff_of_true (fun hmem => ?_) (.inl hmax)
    obtain ⟨dict, hdict, hid⟩ := List.mem_map.mp hmem
    have hle := (le_foldl_max (fun dict : Entry V L => intValue? dict.identifier) arr 0).2 dict hdict
    have hnew : intValue (nextValidID arr) = maxIdentifier arr + 1 := by
      rw [nextValidID, wrap32_of_mem (by omega) (by omega), decimal, if_neg (by omega),
        intValue_toDigits (by omega)]
      omega
    rw [hid] at hle
    change intValue (nextValidID arr) ≤ maxIdentifier arr at hle
    omega
  · have heq : maxIdentifier arr = 2 ^ 31 - 1 := by omega
    have hlast : nextValidID arr = lastIdentifier := by
      rw [nextValidID, heq]
      rfl
    rw [hlast]
    simp only [hmax, false_or]

end Identifiers

section Steps

variable {V L : Type} {s : Both V L}

def Entry.view (dict : Entry V L) : Option V × Option L × Option Text := (dict.value, dict.label, dict.identifier)

def Triple.full (t : Triple V L) : Option V × Option L × Option Text := (some t.value, some t.label, t.identifier)

lemma indexForIdentifier_isSome (arr : List (Entry V L)) (identifier : Option Text) :
    (indexForIdentifier arr identifier).isSome ↔ identifier ≠ none ∧ identifier ∈ arr.map Entry.identifier := by
  cases identifier with
  | none => simp [indexForIdentifier]
  | some t => simp [indexForIdentifier, List.mem_map]

lemma good_iff : Good s ↔ s.arr.map Entry.view = s.triples.map Triple.full ∧
    (s.triples.map Triple.identifier).Nodup ∧ none ∉ s.triples.map Triple.identifier := by
  constructor
  · intro h
    refine ⟨List.ext_getElem? fun i => ?_, h.distinct, fun hnone => ?_⟩
    · have hv := h.value i
      have hl := h.label i
      have hi := h.identifier i
      simp only [valueAtIndex, labelAtIndex, identifierAtIndex] at hv hl hi
      rw [List.getElem?_map, List.getElem?_map]
      cases hd : s.arr[i]? <;> cases ht : s.triples[i]? <;> simp_all [Entry.view, Triple.full]
    · obtain ⟨t, ht, hid⟩ := List.mem_map.mp hnone
      obtain ⟨i, hi⟩ := List.mem_iff_getElem?.mp ht
      have hinv := h.inverse i t hi
      rw [hid] at hinv
      cases hinv
  · rintro ⟨hview, hdistinct, hnone⟩
    have hat : ∀ i : ℕ, s.arr[i]?.map Entry.view = s.triples[i]?.map Triple.full := by
      intro i
      rw [← List.getElem?_map, hview, List.getElem?_map]
    have hfield : ∀ {β : Type} (g : Option V × Option L × Option Text → β) (i : ℕ),
        s.arr[i]?.map (g ∘ Entry.view) = s.triples[i]?.map (g ∘ Triple.full) := by
      intro β g i
      rw [← Option.map_map, hat, Option.map_map]
    have hids : ∀ j : ℕ, s.arr[j]?.map Entry.identifier = s.triples[j]?.map Triple.identifier := hfield fun p => p.2.2
    refine ⟨hfield fun p => p.1, hfield fun p => p.2.1, hids, hdistinct, fun i t ht => ?_⟩
    cases hid : t.identifier with
    | none => exact absurd (List.mem_map.mpr ⟨t, List.mem_of_getElem? ht, hid⟩) hnone
    | some text =>
      have hi := hids i
      rw [ht, Option.map_some, hid] at hi
      obtain ⟨dict, hdict, hdid⟩ := Option.map_eq_some_iff.mp hi
      obtain ⟨hlt, rfl⟩ := List.getElem?_eq_some_iff.mp hdict
      refine List.findIdx?_eq_some_iff_getElem.mpr ⟨hlt, by simpa using hdid, fun j hji hj => ?_⟩
      -- an earlier entry with the identifier would be a second one
      have hj' := hids j
      rw [List.getElem?_eq_getElem (hji.trans hlt), Option.map_some, decide_eq_true_iff.mp hj] at hj'
      obtain ⟨t', ht', htid⟩ := Option.map_eq_some_iff.mp hj'.symm
      have hsame : (s.triples.map Triple.identifier)[j]? = (s.triples.map Triple.identifier)[i]? := by
        rw [List.getElem?_map, List.getElem?_map, ht, ht', Option.map_some, Option.map_some, hid, htid]
      have hjlt : j < (s.triples.map Triple.identifier).length := by
        rw [List.length_map]
        exact (List.getElem?_eq_some_iff.mp ht').1
      exact hji.ne ((List.getElem?_inj hjlt hdistinct).mp hsame)

lemma Good.identifiers (h : Good s) : s.arr.map Entry.identifier = s.triples.map Triple.identifier := by
  have hview := congrArg (List.map fun p => p.2.2) (good_iff.mp h).1
  rw [List.map_map, List.map_map] at hview
  exact hview

lemma Good.length (h : Good s) : s.arr.length = s.triples.length := by
  have hview := congrArg List.length (good_iff.mp h).1
  rwa [List.length_map, List.length_map] at hview

/-- An entry behind the others: the state stays good exactly when its identifier is a string not in use. -/
lemma good_append (h : Good s) (value : V) (label : L) (identifier : Option Text) :
    Good ⟨s.arr ++ [⟨some value, some label, none, identifier⟩], s.triples ++ [⟨value, label, identifier⟩]⟩ ↔
      identifier ≠ none ∧ identifier ∉ s.arr.map Entry.identifier := by
  obtain ⟨hview, hdistinct, hnone⟩ := good_iff.mp h
  rw [good_iff, h.identifiers]
  simp only [List.map_append, hview, List.map_singleton, Entry.view, Triple.full, List.nodup_append, hdistinct,
    List.mem_append, List.mem_singleton, hnone, List.nodup_singleton, true_and, false_or, ne_eq, forall_eq]
  constructor
  · rintro ⟨hmem, hne⟩
    exact ⟨fun hn => hne hn.symm, fun hin => hmem _ hin rfl⟩
  · rintro ⟨hne, hmem⟩
    exact ⟨fun x hx hxe => hmem (hxe ▸ hx), fun hn => hne hn.symm⟩

lemma good_modify (h : Good s) {index : ℕ} {dict : Entry V L} (f : Entry V L → Entry V L) (g : Triple V L → Triple V L)
    (hdict : s.arr[index]? = some dict) (hid : ∀ t, (g t).identifier = t.identifier)
    (hfg : ∀ t, dict.view = Triple.full t → (f dict).view = (g t).full) :
    Good ⟨s.arr.set index (f dict), s.triples.modify index g⟩ := by
  obtain ⟨hview, hdistinct, hnone⟩ := good_iff.mp h
  have hids : (s.triples.modify index g).map Triple.identifier = s.triples.map Triple.identifier := by
    refine List.ext_getElem? fun i => ?_
    rw [List.getElem?_map, List.getElem?_map, List.getElem?_modify, Option.map_eq_map, Option.map_map]
    split_ifs
    · exact congrFun (congrArg Option.map (funext hid)) _
    · rfl
  rw [good_iff]
  simp only [hids]
  refine ⟨List.ext_getElem? fun i => ?_, hdistinct, hnone⟩
  have hat : s.arr[i]?.map Entry.view = s.triples[i]?.map Triple.full := by
    rw [← List.getElem?_map, hview, List.getElem?_map]
  rw [List.getElem?_map, List.getElem?_map, List.getElem?_modify]
  by_cases hi : index = i
  · subst hi
    have hlt := (List.getElem?_eq_some_iff.mp hdict).1
    rw [hdict, Option.map_some] at hat
    obtain ⟨t, ht, hfull⟩ := Option.map_eq_some_iff.mp hat.symm
    rw [List.getElem?_set_self hlt, ht]
    simp [hfg t hfull.symm]
  · rw [List.getElem?_set_ne hi, hat]
    simp [hi]

/-- An operation in range raises no exception, and keeps a good state good exactly when it is one of those kept. -/
lemma good_step (h : Good s) {op : Op V L} (hrange : op.InRange s.arr.length) :
    ∃ s', s.step op = some s' ∧ (Good s' ↔ op.Kept s.arr) := by
  obtain ⟨hview, hdistinct, hnone⟩ := good_iff.mp h
  cases op with
  | addValue value label =>
    have hlast : indexForIdentifier s.arr (some lastIdentifier) = none ↔
        some lastIdentifier ∉ s.arr.map Entry.identifier := by
      rw [← Option.not_isSome_iff_eq_none, indexForIdentifier_isSome]
      simp
    refine ⟨_, rfl, (good_append h value label _).trans ?_⟩
    rw [Op.Kept, hlast, nextValidID_unused_iff]
    simp
  | addValueWithIdentifier value label identifier =>
    by_cases hused : identifier ∈ s.arr.map Entry.identifier
    · have hne : identifier ≠ none := by
        rintro rfl
        rw [h.identifiers] at hused
        exact hnone hused
      refine ⟨s, ?_, iff_of_true h hne⟩
      simp only [Both.step, MultiValue.step, addValueWithIdentifier, abstractStep, ← h.identifiers,
        if_pos ((indexForIdentifier_isSome s.arr identifier).mpr ⟨hne, hused⟩), if_pos hused, Option.map_some]
    · have hfree : ¬(indexForIdentifier s.arr identifier).isSome :=
        fun hsome => hused ((indexForIdentifier_isSome s.arr identifier).mp hsome).2
      refine ⟨⟨s.arr ++ [⟨some value, some label, none, identifier⟩], s.triples ++ [⟨value, label, identifier⟩]⟩, ?_, ?_⟩
      · simp only [Both.step, MultiValue.step, addValueWithIdentifier, abstractStep, ← h.identifiers, if_neg hfree,
          if_neg hused, Option.map_some]
      · rw [good_append h]
        simp [Op.Kept, hused]
  | insertValue value label index =>
    have hcount : index ≤ s.arr.length := hrange
    have hle : index ≤ s.triples.length := h.length ▸ hcount
    refine ⟨⟨_, _⟩, by simp only [Both.step, MultiValue.step, insertValue, if_pos hcount, Option.map_some]; rfl, ?_⟩
    refine iff_of_false (fun hgood => ?_) id
    have hlabel := hgood.label index
    simp only [labelAtIndex, abstractStep, List.getElem?_insertIdx_self] at hlabel
    rw [if_pos hcount, if_pos hle] at hlabel
    cases hlabel
  | removeValueAndLabel index =>
    refine ⟨⟨s.arr.eraseIdx index, s.triples.eraseIdx index⟩, ?_, iff_of_true ?_ trivial⟩
    · simp only [Both.step, MultiValue.step, removeValueAndLabelAtIndex, if_neg (not_le.mpr hrange), Option.map_some,
        abstractStep]
    · have hsub := (List.eraseIdx_sublist s.triples index).map Triple.identifier
      refine good_iff.mpr ⟨?_, hdistinct.sublist hsub, fun hmem => hnone (hsub.subset hmem)⟩
      simp only [← List.eraseIdx_map, hview]
  | replaceValue index value =>
    obtain ⟨dict, hdict⟩ : ∃ dict, s.arr[index]? = some dict := ⟨_, List.getElem?_eq_getElem hrange⟩
    refine ⟨_, by simp only [Both.step, MultiValue.step, replaceValueAtIndex, hdict, Option.map_some]; rfl,
      iff_of_true ?_ trivial⟩
    refine good_modify h (fun dict => { dict with value := some value }) _ hdict (fun _ => rfl) fun t ht => ?_
    simp_all [Entry.view, Triple.full]
  | replaceLabel index label =>
    obtain ⟨dict, hdict⟩ : ∃ dict, s.arr[index]? = some dict := ⟨_, List.getElem?_eq_getElem hrange⟩
    refine ⟨_, by simp only [Both.step, MultiValue.step, replaceLabelAtIndex, hdict, Option.map_some]; rfl,
      iff_of_true ?_ trivial⟩
    refine good_modify h (fun dict => { dict with label := some label }) _ hdict (fun _ => rfl) fun t ht => ?_
    simp_all [Entry.view, Triple.full]

lemma goodAll_iff (h : Good s) {ops : List (Op V L)} (hrange : InRangeAll s ops) : GoodAll s ops ↔ KeptAll s ops := by
  induction ops generalizing s with
  | nil => exact iff_of_true h trivial
  | cons op ops ih =>
    obtain ⟨hop, hrest⟩ := hrange
    obtain ⟨s', hstep, hkept⟩ := good_step h hop
    simp only [GoodAll, KeptAll, hstep, Option.mem_some_iff, forall_eq', exists_eq_left', h, true_and]
    constructor
    · intro hall
      have hgood : Good s' := by
        cases ops with
        | nil => exact hall
        | cons _ _ => exact hall.1
      exact ⟨hkept.mp hgood, (ih hgood (hrest s' hstep)).mp hall⟩
    · rintro ⟨hop, hall⟩
      have hgood := hkept.mpr hop
      exact (ih hgood (hrest s' hstep)).mpr hall

/-- From an empty object on, whatever the operations are: the object agrees with the list of triples after every
one of them exactly when each of them is one of those kept. -/
theorem refines_iff (ops : List (Op V L)) (hrange : InRangeAll ⟨[], []⟩ ops) :
    GoodAll ⟨[], []⟩ ops ↔ KeptAll ⟨[], []⟩ ops :=
  goodAll_iff (good_iff.mpr ⟨rfl, by simp, by simp⟩) hrange

/-- The identifier `7` comes from outside. -/
theorem refines_kept_run : GoodAll (V := ℕ) (L := Char) ⟨[], []⟩ [.addValue 1 'h', .addValueWithIdentifier 2 'w'
    (some ['7']), .replaceLabel 1 'x', .removeValueAndLabel 0] := by
  refine (refines_iff _ ?_).mpr ?_
  · simp [InRangeAll, Op.InRange, Both.step, step, addValue, addValueWithIdentifier, indexForIdentifier,
      replaceLabelAtIndex, removeValueAndLabelAtIndex, nextValidID, maxIdentifier, decimal, wrap32,
      show Nat.toDigits 10 1 = ['1'] from rfl]
  · simp [KeptAll, Op.Kept, maxIdentifier]

/-- An inserted value has no label. -/
theorem inserted_not_good : InRangeAll (V := ℕ) (L := Char) ⟨[], []⟩ [.insertValue 1 'h' 0] ∧
    ¬GoodAll (V := ℕ) (L := Char) ⟨[], []⟩ [.insertValue 1 'h' 0] := by
  refine ⟨⟨le_rfl, fun _ _ => trivial⟩, ?_⟩
  rintro ⟨-, s', hs', hgood⟩
  obtain rfl := Option.some.inj hs'
  cases hgood.label 0

end Steps

end Xperimentum.Addresses.MultiValue
