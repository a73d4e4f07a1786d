import Mathlib.Data.Nat.Fib.Basic
import Xperimentum.Lib.Runs
import Xperimentum.WMcore.DataCalls

/-! A run of calls on data changes the lists of bytes as it should, unless a data that has no room for it is appended
to itself; and appending moves a data as seldom as the Fibonacci numbers are sparse. -/

namespace Xperimentum.WMcore.Data

open Lib.Blocks Lib.Blocks.Heap Lib.Int32 Lib.Partial

/-! Several data, each in a block of its own. -/

structure Represents (s : Datas) (l : List (List UInt8)) : Prop where
  sound : Sound s.memory
  length : s.datas.length = l.length
  holds : ∀ (i : ℕ) d b, s.datas[i]? = some d → l[i]? = some b → Holds s.memory d b
  apart : ∀ (i j : ℕ) d e, s.datas[i]? = some d → s.datas[j]? = some e → d.bytes = e.bytes → d.bytes ≠ 0 → i = j

variable {s t : Datas} {l : List (List UInt8)} {i j n : ℕ} {m : Memory} {d e : WMData} {b c : List UInt8}

lemma represents_start : Represents start [] := by
  refine ⟨sound_empty, rfl, fun i d b hd => ?_, fun i j d e hd => ?_⟩ <;> exact absurd hd (by simp [start])

lemma Represents.get (h : Represents s l) (hi : i < l.length) :
    ∃ d, s.datas[i]? = some d ∧ Holds s.memory d (l.getD i []) := by
  have hs : i < s.datas.length := h.length.symm ▸ hi
  refine ⟨s.datas[i], List.getElem?_eq_getElem hs, h.holds i _ _ (List.getElem?_eq_getElem hs) ?_⟩
  rw [List.getD_eq_getElem?_getD, List.getElem?_eq_getElem hi, Option.getD_some]

lemma Represents.of_changed (h : Represents s l) (hi : i < l.length) {f : WMData → Memory → Option (WMData × Memory)}
    (hf : ∀ d, s.datas[i]? = some d → Holds s.memory d (l.getD i []) →
      Ensures (f d s.memory) (Yields d.bytes s.memory c)) :
    Ensures (changed s i f) fun t => Represents t (l.set i c) := by
  obtain ⟨d, hd, hholds⟩ := h.get hi
  obtain ⟨r, hr, hmoves, hnew⟩ := hf d hd hholds
  rw [changed, hd, Option.bind_eq_bind, Option.bind_some, hr]
  have hs : i < s.datas.length := h.length.symm ▸ hi
  have hother {j : ℕ} {e : WMData} (hj : i ≠ j) (he : s.datas[j]? = some e) : e.bytes = 0 ∨ e.bytes ≠ d.bytes := by
    by_contra hsame
    rw [not_or, not_not] at hsame
    exact hj (h.apart j i e d he hd hsame.2 hsame.1).symm
  have hbytes {j : ℕ} {e : WMData} (he : s.datas[j]? = some e) : e.bytes < s.memory.next := by
    obtain ⟨hj, rfl⟩ := List.getElem?_eq_some_iff.mp he
    exact (h.holds j _ _ he (List.getElem?_eq_getElem (h.length ▸ hj))).bytes
  -- The block of the changed data is the one it had, none, or a new one.
  have hplace {j : ℕ} {e : WMData} (hj : i ≠ j) (he : s.datas[j]? = some e) (hne : e.bytes ≠ 0) :
      e.bytes ≠ r.1.bytes := by
    rcases hmoves.place with hsame | hnull | hfresh
    · rw [hsame]
      exact (hother hj he).resolve_left hne
    · rwa [hnull]
    · exact ((hbytes he).trans_le hfresh).ne
  refine ensures_pure ⟨hnew.sound, ?_, fun j e b he hb => ?_, fun j k e f he hf hef hne => ?_⟩
  · rw [List.length_set, List.length_set, h.length]
  · by_cases hj : i = j
    · subst hj
      rw [List.getElem?_set_self hs] at he
      rw [List.getElem?_set_self hi] at hb
      obtain rfl := Option.some.inj he
      obtain rfl := Option.some.inj hb
      exact hnew
    · rw [List.getElem?_set_ne hj] at he hb
      exact (h.holds j e b he hb).moved hmoves (hother hj he)
  · by_cases hj : i = j <;> by_cases hk : i = k
    · exact hj.symm.trans hk
    · subst hj
      rw [List.getElem?_set_self hs] at he
      rw [List.getElem?_set_ne hk] at hf
      obtain rfl := Option.some.inj he
      exact absurd hef.symm (hplace hk hf (hef ▸ hne))
    · subst hk
      rw [List.getElem?_set_self hs] at hf
      rw [List.getElem?_set_ne hj] at he
      obtain rfl := Option.some.inj hf
      exact absurd hef (hplace hj he hne)
    · rw [List.getElem?_set_ne hj] at he
      rw [List.getElem?_set_ne hk] at hf
      exact h.apart j k e f he hf hef hne

lemma Represents.of_made (h : Represents s l) {f : Memory → Option (WMData × Memory)}
    (hf : Ensures (f s.memory) (Yields 0 s.memory c)) : Ensures (made s f) fun t => Represents t (l ++ [c]) := by
  obtain ⟨r, hr, hmoves, hnew⟩ := hf
  rw [made, hr]
  have hlast {α : Type} {k : List α} {a x : α} {j : ℕ} (hx : (k ++ [a])[j]? = some x) :
      k[j]? = some x ∨ j = k.length ∧ x = a := by
    rcases Nat.lt_trichotomy j k.length with hlt | heq | hgt
    · rw [List.getElem?_append_left hlt] at hx
      exact .inl hx
    · subst heq
      rw [List.getElem?_append_right le_rfl, Nat.sub_self] at hx
      exact .inr ⟨rfl, (Option.some.inj hx).symm⟩
    · rw [List.getElem?_eq_none (by rw [List.length_append, List.length_singleton]; omega)] at hx
      cases hx
  have hbytes {j : ℕ} {e : WMData} (he : s.datas[j]? = some e) : e.bytes < s.memory.next := by
    obtain ⟨hj, rfl⟩ := List.getElem?_eq_some_iff.mp he
    exact (h.holds j _ _ he (List.getElem?_eq_getElem (h.length ▸ hj))).bytes
  have hplace {j : ℕ} {e : WMData} (he : s.datas[j]? = some e) (hne : e.bytes ≠ 0) : e.bytes ≠ r.1.bytes := by
    rcases hmoves.place with hnull | hnull | hfresh
    · rwa [hnull]
    · rwa [hnull]
    · exact ((hbytes he).trans_le hfresh).ne
  refine ensures_some ⟨hnew.sound, ?_, fun j e b he hb => ?_, fun j k e f he hf hef hne => ?_⟩
  · rw [List.length_append, List.length_append, h.length, List.length_singleton, List.length_singleton]
  · rcases hlast he with hold | ⟨rfl, rfl⟩
    · have hj : j < l.length := h.length ▸ (List.getElem?_eq_some_iff.mp hold).1
      rw [List.getElem?_append_left hj] at hb
      exact (h.holds j e b hold hb).moved hmoves (Decidable.em _)
    · rw [h.length, List.getElem?_append_right le_rfl, Nat.sub_self] at hb
      obtain rfl := Option.some.inj hb
      exact hnew
  · rcases hlast he with hold | ⟨rfl, rfl⟩ <;> rcases hlast hf with hold' | ⟨rfl, rfl⟩
    · exact h.apart j k e f hold hold' hef hne
    · exact absurd hef (hplace hold hne)
    · exact absurd hef.symm (hplace hold' (hef ▸ hne))
    · rfl

/-- What a call does to the bytes. -/
def effect (l : List (List UInt8)) : Call → List (List UInt8)
  | .withCapacity _ => l ++ [[]]
  | .withLength n => l ++ [List.replicate n 0]
  | .withBytes b => l ++ [b]
  | .withData i => l ++ [l.getD i []]
  | .subdata i aRange => l ++ [subdata aRange (l.getD i [])]
  | .setCapacity i n => l.set i ((l.getD i []).take n)
  | .setLength i n => l.set i ((l.getD i [] ++ List.replicate n 0).take n)
  | .increaseLengthBy i n => l.set i (l.getD i [] ++ List.replicate n 0)
  | .appendBytes i b => l.set i (l.getD i [] ++ b)
  | .appendData i j => l.set i (l.getD i [] ++ l.getD j [])
  | .replace i aRange b => l.set i (replaced aRange b (l.getD i []))
  | .reset i aRange => l.set i (replaced aRange (List.replicate aRange.count.toNat 0) (l.getD i []))
  | .setData i j => l.set i (l.getD j [])

/-- The data are there, sums of lengths do not wrap, and a buffer that is read has as many bytes as are read. -/
def Fits (l : List (List UInt8)) : Call → Prop
  | .withCapacity n | .withLength n => n < 2 ^ 32
  | .withBytes b => b.length < 2 ^ 32
  | .withData i => i < l.length
  | .subdata i _ | .reset i _ => i < l.length ∧ (l.getD i []).length < 2 ^ 31
  | .setCapacity i n | .setLength i n => i < l.length ∧ n < 2 ^ 32
  | .increaseLengthBy i n => i < l.length ∧ (l.getD i []).length + n < 2 ^ 32
  | .appendBytes i b => i < l.length ∧ (l.getD i []).length + b.length ≤ 2 ^ 31
  | .appendData i j => i < l.length ∧ j < l.length ∧ (l.getD i []).length + (l.getD j []).length ≤ 2 ^ 31
  | .replace i aRange b => i < l.length ∧ (l.getD i []).length < 2 ^ 31 ∧ aRange.count ≤ b.length
  | .setData i j => i < l.length ∧ j < l.length

/-- A data that is appended to itself has room for it. -/
def Roomy (s : Datas) : Call → Prop
  | .appendData i j => i = j → ∀ d ∈ s.datas[i]?, 2 * d.length ≤ d.capacity
  | _ => True

lemma appendData_ensures (h : Represents s l) (hi : i < l.length) (hj : j < l.length)
    (hlt : (l.getD i []).length + (l.getD j []).length ≤ 2 ^ 31) (hroom : Roomy s (.appendData i j)) :
    Ensures (call s (.appendData i j)) fun t => Represents t (l.set i (l.getD i [] ++ l.getD j [])) := by
  obtain ⟨e, he, hother⟩ := h.get hj
  have hcall : call s (.appendData i j) = changed s i (appendData e) := by rw [call, he, Option.bind_some]
  rw [hcall]
  refine h.of_changed hi fun d hd hholds => ?_
  have hlength := hother.length
  rw [appendData]
  split_ifs with hpos
  · rw [hlength]
    refine (appendDataBytes_ensures hholds hlt fun r hyields hr => ?_).imp fun _ hr => hr.1
    by_cases hij : i = j
    · subst hij
      obtain rfl := Option.some.inj (hd.symm.trans he)
      have hle := hroom rfl d hd
      rw [makeRoom_of_le (by omega)] at hr
      obtain rfl := Option.some.inj hr
      exact hother.load_all
    · refine (hother.moved hyields.1 ?_).load_all
      by_contra hsame
      rw [not_or, not_not] at hsame
      exact hij (h.apart j i e d he hd hsame.2 hsame.1).symm
  · have hnil : l.getD j [] = [] := List.length_eq_zero_iff.mp (by omega)
    rw [hnil, List.append_nil]
    exact ensures_some ⟨Moves.refl _ _, hholds⟩

/-- The bytes that are appended have been freed by then. -/
lemma appendData_of_not_roomy (h : Represents s l) (hi : i < l.length)
    (hlt : (l.getD i []).length + (l.getD i []).length ≤ 2 ^ 31) (hroom : ¬Roomy s (.appendData i i)) :
    call s (.appendData i i) = none := by
  obtain ⟨d, hd, hholds⟩ := h.get hi
  have hlength := hholds.length
  have hle := hholds.length_le
  have hshort : d.capacity < (l.getD i []).length + (l.getD i []).length := by
    by_contra hle
    refine hroom fun _ e he => ?_
    obtain rfl := Option.some.inj (hd.symm.trans he)
    omega
  have hmod : ((l.getD i []).length + (l.getD i []).length) % 2 ^ 32 = (l.getD i []).length + (l.getD i []).length :=
    Nat.mod_eq_of_lt (by omega)
  have hbytes : d.bytes ≠ 0 := fun hnull => by
    have := hholds.null.mp hnull
    omega
  obtain ⟨r, hr, -, -, -, hfreed⟩ := makeRoom_ensures hholds hlt
  have hnone : appendDataBytes (.held d.bytes) d.length d s.memory = none := by
    rw [appendDataBytes, hlength, hmod, hr, Option.bind_eq_bind, Option.bind_some, Source.load,
      load_of_freed (hfreed hshort hbytes)]
    rfl
  rw [call, hd, Option.bind_some, changed, hd, Option.bind_eq_bind, Option.bind_some, appendData, if_pos (by omega),
    hnone]
  rfl

lemma call_ensures (h : Represents s l) {c : Call} (hfits : Fits l c) (hroom : Roomy s c) :
    Ensures (call s c) fun t => Represents t (effect l c) := by
  cases c with
  | withCapacity n => exact h.of_made ((createDataWithCapacity_ensures h.sound hfits).imp fun _ hmade => hmade.1)
  | withLength n => exact h.of_made (createDataWithLength_ensures h.sound hfits)
  | withBytes b =>
    refine h.of_made (createDataWithBytes_ensures h.sound hfits fun made _ => ?_)
    rw [Source.load, if_pos le_rfl, List.take_length]
  | withData i =>
    obtain ⟨d, hd, hholds⟩ := h.get hfits
    rw [call, hd]
    exact h.of_made (createDataWithData_ensures hholds)
  | subdata i aRange =>
    obtain ⟨d, hd, hholds⟩ := h.get hfits.1
    rw [call, hd]
    exact h.of_made (getSubdataWithRange_ensures hholds hfits.2)
  | setCapacity i n =>
    exact h.of_changed hfits.1 fun d _ hholds => (setDataCapacity_ensures hholds hfits.2).imp fun _ hr => hr.1
  | setLength i n => exact h.of_changed hfits.1 fun d _ hholds => setDataLength_ensures hholds hfits.2
  | increaseLengthBy i n =>
    refine h.of_changed hfits.1 fun d _ hholds => ?_
    rw [increaseDataLengthBy, hholds.length, Nat.mod_eq_of_lt hfits.2]
    have hset := setDataLength_ensures hholds hfits.2
    rwa [List.take_append, List.take_of_length_le (Nat.le_add_right _ _), Nat.add_sub_cancel_left,
      List.take_replicate, min_eq_left (Nat.le_add_left _ _)] at hset
  | appendBytes i b =>
    refine h.of_changed hfits.1 fun d _ hholds => ?_
    refine (appendDataBytes_ensures hholds hfits.2 fun r _ _ => ?_).imp fun _ hr => hr.1
    rw [Source.load, if_pos le_rfl, List.take_length]
  | appendData i j => exact appendData_ensures h hfits.1 hfits.2.1 hfits.2.2 hroom
  | replace i aRange b =>
    exact h.of_changed hfits.1 fun d _ hholds => replaceDataBytesInRange_ensures hholds hfits.2.1 hfits.2.2
  | reset i aRange => exact h.of_changed hfits.1 fun d _ hholds => resetDataBytesInRange_ensures hholds hfits.2
  | setData i j =>
    obtain ⟨e, he, hother⟩ := h.get hfits.2
    have hcall : call s (.setData i j) = changed s i (setData e.length fun aData => if i = j then aData else e) := by
      rw [call, he, Option.bind_some]
    rw [hcall, hother.length]
    refine h.of_changed hfits.1 fun d hd hholds => ?_
    refine setData_ensures hholds (hother.length_le.trans_lt hother.capacity) fun r hr => ?_
    by_cases hij : i = j
    · subst hij
      rw [if_pos rfl]
      have hall := hr.2
      rw [List.take_length] at hall
      exact hall.load_all
    · rw [if_neg hij]
      refine (hother.moved hr.1 ?_).load_all
      by_contra hsame
      rw [not_or, not_not] at hsame
      exact hij (h.apart j i e d he hd hsame.2 hsame.1).symm

lemma call_of_not_roomy (h : Represents s l) {c : Call} (hfits : Fits l c) (hroom : ¬Roomy s c) :
    call s c = none := by
  cases c with
  | appendData i j =>
    obtain rfl : i = j := by
      by_contra hij
      exact hroom fun heq => absurd heq hij
    exact appendData_of_not_roomy h hfits.1 hfits.2.2 hroom
  | _ => exact absurd trivial hroom

instance (l : List (List UInt8)) : (c : Call) → Decidable (Fits l c)
  | .withCapacity _ | .withLength _ | .withBytes _ | .withData _ => inferInstanceAs (Decidable (_ < _))
  | .subdata _ _ | .setCapacity _ _ | .setLength _ _ | .increaseLengthBy _ _ | .appendBytes _ _ | .appendData _ _
  | .replace _ _ _ | .reset _ _ | .setData _ _ => inferInstanceAs (Decidable (_ ∧ _))

/-! Runs. -/

lemma tryRun_represents {calls : List Call} (hs : Represents s l) (hfits : Lib.Runs.Along effect Fits l calls) :
    ((tryRun call s calls).isSome ↔ Admits call Roomy s calls) ∧
      ∀ t ∈ tryRun call s calls, Represents t (Lib.Runs.run effect l calls) := by
  induction calls generalizing s l with
  | nil =>
    refine ⟨iff_of_true rfl trivial, fun t ht => ?_⟩
    obtain rfl := Option.some.inj ht
    exact hs
  | cons c calls ih =>
    by_cases hroom : Roomy s c
    · obtain ⟨u, hu, hrepresents⟩ := call_ensures hs hfits.1 hroom
      have hrest := ih hrepresents hfits.2
      have hrun : tryRun call s (c :: calls) = tryRun call u calls := by
        rw [tryRun, List.foldlM_cons, hu]
        rfl
      rw [hrun]
      refine ⟨hrest.1.trans ⟨fun hcalls => ⟨hroom, fun v hv => ?_⟩, fun hcalls => hcalls.2 u hu⟩, hrest.2⟩
      obtain rfl := Option.some.inj (hu.symm.trans hv)
      exact hcalls
    · have hnone : tryRun call s (c :: calls) = none := by
        rw [tryRun, List.foldlM_cons, call_of_not_roomy hs hfits.1 hroom]
        rfl
      rw [hnone]
      refine ⟨iff_of_false Bool.false_ne_true fun hcalls => hroom hcalls.1, fun t ht => ?_⟩
      exact absurd ht (Option.not_mem_none t)

/-- A run goes through exactly when no data is appended to itself without room for it, and the data hold then what
they should, each in a block of its own. -/
theorem run_represents_iff {calls : List Call} (h : Lib.Runs.Along effect Fits [] calls) :
    ((tryRun call start calls).isSome ↔ Admits call Roomy start calls) ∧
      ∀ t ∈ tryRun call start calls, Represents t (Lib.Runs.run effect [] calls) :=
  tryRun_represents represents_start h

/-- A data is copied, and one of the two shortened, extended and put behind the other. -/
def sampleCalls : List Call :=
  [.withCapacity 8, .appendBytes 0 [1, 2, 3], .withData 0, .setLength 1 2, .increaseLengthBy 1 1, .appendData 0 1,
    .setCapacity 0 12, .appendData 0 0]

theorem run_represents_sample : Ensures (tryRun call start sampleCalls) fun t =>
    Represents t [[1, 2, 3, 1, 2, 0, 1, 2, 3, 1, 2, 0], [1, 2, 0]] := by
  have hfits : Lib.Runs.Along effect Fits [] sampleCalls := by decide
  have hrun : (tryRun call start sampleCalls).isSome := rfl
  obtain ⟨t, ht⟩ := Option.isSome_iff_exists.mp hrun
  exact ⟨t, ht, (run_represents_iff hfits).2 t ht⟩

lemma isDataEqualToData_eq (hd : Holds m d b) (he : Holds m e c) : isDataEqualToData d e m =
    some (decide (b = c ∧ (b = [] → (d.capacity = 0 ↔ e.capacity = 0)))) := by
  have hdlength := hd.length_le
  have helength := he.length_le
  have hdnull := hd.null
  have henull := he.null
  rw [isDataEqualToData, hd.length, he.length]
  by_cases hlength : b.length = c.length
  · rw [if_neg (not_not.mpr hlength)]
    have hnil (hb : b.length = 0) : b = [] ∧ c = [] :=
      ⟨List.length_eq_zero_iff.mp hb, List.length_eq_zero_iff.mp (hlength ▸ hb)⟩
    by_cases hdbytes : d.bytes = 0 <;> by_cases hebytes : e.bytes = 0
    · obtain ⟨rfl, rfl⟩ := hnil (by omega)
      rw [if_pos ⟨hdbytes, hebytes⟩]
      exact congrArg some (decide_eq_true ⟨rfl, fun _ => by omega⟩).symm
    · obtain ⟨rfl, rfl⟩ := hnil (by omega)
      rw [if_neg (by omega), if_pos (.inl hdbytes)]
      refine congrArg some (decide_eq_false fun hsame => ?_).symm
      exact hebytes (henull.mpr ((hsame.2 rfl).mp (hdnull.mp hdbytes)))
    · obtain ⟨rfl, rfl⟩ := hnil (by omega)
      rw [if_neg (by omega), if_pos (.inr hebytes)]
      refine congrArg some (decide_eq_false fun hsame => ?_).symm
      exact hdbytes (hdnull.mpr ((hsame.2 rfl).mpr (henull.mp hebytes)))
    · have heload := he.load_all
      rw [← hlength] at heload
      rw [if_neg (by omega), if_neg (by omega), hd.load_all, heload]
      refine congrArg some (decide_eq_decide.mpr ?_)
      rw [(List.map_injective_iff.mpr (Option.some_injective _)).eq_iff]
      exact ⟨fun hsame => ⟨hsame, fun _ => by omega⟩, And.left⟩
  · rw [if_pos hlength]
    exact congrArg some (decide_eq_false fun hsame => hlength (congrArg List.length hsame.1)).symm

/-- Two data are equal that hold the same bytes, but not two empty ones of which one has a block. -/
theorem run_equal_iff {calls : List Call} (h : Lib.Runs.Along effect Fits [] calls) {t : Datas}
    (ht : t ∈ tryRun call start calls) (hd : t.datas[i]? = some d) (he : t.datas[j]? = some e) :
    isDataEqualToData d e t.memory = some true ↔
      (Lib.Runs.run effect [] calls)[i]? = (Lib.Runs.run effect [] calls)[j]? ∧
        ((Lib.Runs.run effect [] calls)[i]? = some [] → (d.capacity = 0 ↔ e.capacity = 0)) := by
  have hrepresents := (tryRun_represents represents_start h).2 t ht
  have hget {k : ℕ} {f : WMData} (hf : t.datas[k]? = some f) :
      ∃ b, (Lib.Runs.run effect [] calls)[k]? = some b ∧ Holds t.memory f b := by
    have hk : k < (Lib.Runs.run effect [] calls).length := hrepresents.length ▸ (List.getElem?_eq_some_iff.mp hf).1
    exact ⟨_, List.getElem?_eq_getElem hk, hrepresents.holds k f _ hf (List.getElem?_eq_getElem hk)⟩
  obtain ⟨b, hb, hdholds⟩ := hget hd
  obtain ⟨c, hc, heholds⟩ := hget he
  rw [isDataEqualToData_eq hdholds heholds, hb, hc, Option.some_inj, decide_eq_true_iff, Option.some_inj,
    Option.some_inj]

def twoEmpty : Datas := ⟨[⟨0, 4, 2, 1⟩, ⟨0, 0, 1, 0⟩], (fresh (zeros 4) .empty).2⟩

theorem run_equal_sample : isDataEqualToData ⟨0, 4, 2, 1⟩ ⟨0, 0, 1, 0⟩ twoEmpty.memory ≠ some true := by
  have hfits : Lib.Runs.Along effect Fits [] [.withCapacity 4, .withCapacity 0] := by decide
  have hrun : twoEmpty ∈ tryRun call start [.withCapacity 4, .withCapacity 0] := rfl
  have hd : twoEmpty.datas[0]? = some ⟨0, 4, 2, 1⟩ := rfl
  have he : twoEmpty.datas[1]? = some ⟨0, 0, 1, 0⟩ := rfl
  intro heq
  exact absurd (((run_equal_iff hfits hrun hd he).mp heq).2 rfl) (by decide)

/-! Appending. -/

def appendPart (r : WMData × Memory) (part : List UInt8) : Option (WMData × Memory) :=
  appendDataBytes (.given part) part.length r.1 r.2

lemma appends_ensures {parts : List (List UInt8)} {k base : ℕ} (h : Holds m d b)
    (hupper : d.capacity ≤ max n (2 * b.length))
    (hfib : Nat.fib k ≤ d.capacity ∧ Nat.fib (k + 1) ≤ d.capacity + d.growth)
    (hnext : m.next ≤ base + k) (hlt : b.length + parts.flatten.length ≤ 2 ^ 31) :
    Ensures (tryRun appendPart (d, m) parts) fun r =>
      Holds r.2 r.1 (b ++ parts.flatten) ∧ r.1.capacity ≤ max n (2 * r.1.length) ∧
        Nat.fib (r.2.next - base) ≤ r.1.capacity := by
  induction parts generalizing d m b k with
  | nil =>
    have hk : m.next - base ≤ k := by omega
    exact ensures_some ⟨by rwa [List.flatten_nil, List.append_nil], h.length ▸ hupper, (Nat.fib_mono hk).trans hfib.1⟩
  | cons part parts ih =>
    rw [List.flatten_cons, List.length_append] at hlt
    have hload (r : WMData × Memory) : (Source.given part).load part.length r.2 = some (part.map some) := by
      rw [Source.load, if_pos le_rfl, List.take_length]
    obtain ⟨r, hr, hyields, hgrows⟩ := appendDataBytes_ensures (c := part) h (by omega) fun r _ _ => hload r
    have hpart : appendPart (d, m) part = some r := hr
    have hrun : tryRun appendPart (d, m) (part :: parts) = tryRun appendPart r parts := by
      rw [tryRun, List.foldlM_cons, hpart]
      rfl
    rw [hrun, List.flatten_cons, ← List.append_assoc]
    have hcapacity : r.1.capacity ≤ max n (2 * (b ++ part).length) := by
      have hbound := hgrows.upper
      rw [List.length_append]
      omega
    have hrest : (b ++ part).length + parts.flatten.length ≤ 2 ^ 31 := by
      rw [List.length_append]
      omega
    -- A move adds the growth to the capacity, and what the capacity was is the growth then.
    rcases hgrows.once with ⟨hsame, hle, hgrowth⟩ | ⟨hmoved, hle, hgrowth⟩
    · have hfib' := hfib.2.trans (Nat.add_le_add hle hgrowth)
      exact ih hyields.2 hcapacity ⟨hfib.1.trans hle, hfib'⟩ (hsame.trans hnext) hrest
    · refine ih hyields.2 hcapacity (k := k + 1) ⟨hfib.2.trans hle, ?_⟩ (by omega) hrest
      have hadd : Nat.fib (k + 1 + 1) = Nat.fib k + Nat.fib (k + 1) := Nat.fib_add_two
      omega

/-- The Fibonacci number of how often appending moves the bytes stays within the capacity, and that within twice
the length. -/
theorem appends_move_fib (hm : Sound m) (hn : n < 2 ^ 32) {parts : List (List UInt8)}
    (hlt : parts.flatten.length ≤ 2 ^ 31) :
    Ensures (createDataWithCapacity n m) fun made =>
      Ensures (tryRun appendPart made parts) fun r =>
        Holds r.2 r.1 parts.flatten ∧ r.1.capacity ≤ max n (2 * r.1.length) ∧
          Nat.fib (r.2.next - made.2.next) ≤ r.1.capacity := by
  refine (createDataWithCapacity_ensures hm hn).imp fun made hmade => ?_
  obtain ⟨hyields, hcapacity⟩ := hmade
  have hgrowth := hyields.2.growth
  have hparts : ([] : List UInt8).length + parts.flatten.length ≤ 2 ^ 31 := by rwa [List.length_nil, Nat.zero_add]
  refine appends_ensures (k := 0) hyields.2 (hcapacity.le.trans (le_max_left _ _)) ⟨Nat.zero_le _, ?_⟩ le_rfl hparts
  show 1 ≤ made.1.capacity + made.1.growth
  omega

theorem appends_move_sample : Ensures (createDataWithCapacity 2 (Heap.empty : Memory)) fun made =>
    Ensures (tryRun appendPart made [[1, 2], [3], [4, 5]]) fun r =>
      Holds r.2 r.1 [1, 2, 3, 4, 5] ∧ r.1.capacity ≤ max 2 (2 * r.1.length) ∧
        Nat.fib (r.2.next - made.2.next) ≤ r.1.capacity :=
  appends_move_fib sound_empty (by decide) (by decide)

end Xperimentum.WMcore.Data
