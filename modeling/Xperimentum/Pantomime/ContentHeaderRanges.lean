import Mathlib.Data.List.TakeWhile
import Xperimentum.Pantomime.ContentHeaders

/-! Where the ranges that are taken from a `Content-Type` or `Content-Disposition` line are in the line. -/

namespace Xperimentum.Pantomime.ContentHeaders

open EncodedWords MessageHeaders Lib.Byte Lib.Int32 Lib.LinearSearch Lib.Partial

section Outcomes

variable {α β : Type}

/-- No exception for a range is raised. -/
def InRange (p : Parsing α) : Prop := p ≠ .error .range

lemma inRange_ok (a : α) : InRange (.ok a : Parsing α) := fun h => by cases h

lemma ok_bind (a : α) (f : α → Parsing β) : ((.ok a : Parsing α) >>= f) = f a := rfl

lemma bind_pure_map (p : Parsing α) (f : α → β) : (p >>= fun a => pure (f a)) = p.map f := by
  cases p <;> rfl

lemma inRange_bind {p : Parsing α} {f : α → Parsing β} :
    InRange (p >>= f) ↔ InRange p ∧ ∀ a, p = .ok a → InRange (f a) := by
  cases p with
  | ok a =>
    refine ⟨fun h => ⟨inRange_ok a, fun b hb => ?_⟩, fun h => h.2 a rfl⟩
    cases hb
    exact h
  | error e =>
    refine ⟨fun h => ⟨fun he => h ?_, fun b hb => by cases hb⟩, fun h he => h.1 ?_⟩
    · cases he
      rfl
    · cases he
      rfl

lemma inRange_map {p : Parsing α} {f : α → β} : InRange (p.map f) ↔ InRange p := by
  cases p with
  | ok a => exact iff_of_true (inRange_ok (f a)) (inRange_ok a)
  | error e =>
    refine not_congr ⟨fun h => ?_, fun h => ?_⟩
    · cases h
      rfl
    · cases h
      rfl

end Outcomes

section Searches

variable {pattern b : Bytes} {i j start : ℕ}

/-- Where the pattern is first, from a place on. -/
def nextFrom (pattern b : Bytes) (start : ℕ) : Option ℕ :=
  (findCString pattern (b.drop start)).map fun found => start + found.1.length

lemma nextFrom_bounds (h : nextFrom pattern b start = some i) : start ≤ i ∧ i + pattern.length ≤ max b.length start := by
  obtain ⟨⟨x, y⟩, hfound, rfl⟩ := Option.map_eq_some_iff.mp h
  have hlength := congrArg List.length (findCString_some hfound)
  rw [List.length_drop, List.length_append, List.length_append] at hlength
  refine ⟨Nat.le_add_right start x.length, ?_⟩
  dsimp only
  omega

lemma first_nextFrom (hne : pattern ≠ []) (hstart : start ≤ b.length) :
    First (fun i => i + pattern.length ≤ b.length ∧ Matches id pattern b i) start (b.length + 1) (nextFrom pattern b start) := by
  have hfirst := first_findCString hne (b.drop start)
  have hlength : (b.drop start).length = b.length - start := List.length_drop
  have hshift (j : ℕ) : (j + pattern.length ≤ (b.drop start).length ∧ Matches id pattern (b.drop start) j) ↔
      start + j + pattern.length ≤ b.length ∧ Matches id pattern b (start + j) := by
    rw [Matches, Matches, List.drop_drop, hlength]
    refine and_congr_left' ?_
    omega
  rw [nextFrom]
  cases hfound : findCString pattern (b.drop start) with
  | none =>
    rw [hfound] at hfirst
    intro j hlo hhi hj
    obtain ⟨d, rfl⟩ := Nat.exists_eq_add_of_le hlo
    exact hfirst d (Nat.zero_le d) (by omega) ((hshift d).mpr hj)
  | some found =>
    obtain ⟨x, y⟩ := found
    rw [hfound] at hfirst
    change First _ 0 _ (some x.length) at hfirst
    change First _ start _ (some (start + x.length))
    obtain ⟨⟨-, hlt, hmatch⟩, hbefore⟩ := hfirst
    refine ⟨⟨Nat.le_add_right _ _, by omega, (hshift _).mp hmatch⟩, fun j hlo hhi hj => ?_⟩
    obtain ⟨d, rfl⟩ := Nat.exists_eq_add_of_le hlo
    exact hbefore d (Nat.zero_le d) (by omega) ((hshift d).mpr hj)

lemma rangeFrom_short (hlength : b.length < 2 ^ 31) (hne : pattern ≠ []) (hstart : start ≤ b.length) :
    rangeFrom b (wrap32 b.length) pattern start = .ok (foundAt pattern.length (nextFrom pattern b start)) := by
  have hwrap : wrap32 (b.length : ℤ) = b.length := wrap32_of_mem (by omega) (by omega)
  have hlen : min b.length ((b.length : ℤ) % 2 ^ 64).toNat = b.length := by omega
  have hfirst := first_nextFrom hne hstart
  rw [rangeFrom, hwrap, hlen]
  by_cases hlong : b.length < pattern.length
  · rw [if_pos hlong]
    cases hnext : nextFrom pattern b start with
    | none => rfl
    | some i =>
      have hbounds := nextFrom_bounds hnext
      omega
  · rw [if_neg hlong]
    obtain ⟨r, hr, found, rfl, hfound⟩ : Ensures (searchUpTo (memcmpAt pattern b) b.length pattern.length start)
        (IsFirstIn id pattern b start b.length) := searchUpTo_first (fun i hi => memcmpAt_eq hi) (not_lt.mp hlong)
    rw [hr, hfound.unique hfirst]
    rfl

end Searches

section Values

variable {b v t : Bytes}

def valueEnd (b : Bytes) (start : ℕ) : ℕ := (nextFrom [59] b start).getD b.length

/-- Behind the `=`, if there is any. -/
def valueStart (b : Bytes) (start : ℕ) : ℕ := ((nextFrom [61] b start).map (· + 1)).getD start

def extent (b : Bytes) (start stop : ℕ) : Bytes := (b.drop start).take (stop - start)

/-- The same quotes, and no more than ASCII or more than it. -/
structure Alike (v t : Bytes) : Prop where
  quotes : v.count 39 = t.count 39
  ascii : v.all (· < 128) = t.all (· < 128)

lemma Alike.refl (t : Bytes) : Alike t t := ⟨rfl, rfl⟩

lemma Alike.trans {u : Bytes} (h : Alike u v) (h' : Alike v t) : Alike u t :=
  ⟨h.quotes.trans h'.quotes, h.ascii.trans h'.ascii⟩

lemma Alike.append {v' t' : Bytes} (h : Alike v t) (h' : Alike v' t') : Alike (v ++ v') (t ++ t') := by
  refine ⟨?_, ?_⟩
  · rw [List.count_append, List.count_append, h.quotes, h'.quotes]
  · rw [List.all_append, List.all_append, h.ascii, h'.ascii]

/-- Only ASCII other than the quote is left out. -/
lemma alike_insert (front back : Bytes) (h : ∀ c ∈ front ++ back, c ≠ 39 ∧ c < 128) (v : Bytes) :
    Alike v (front ++ v ++ back) := by
  have hcount (s : Bytes) (hs : ∀ c ∈ s, c ≠ 39 ∧ c < 128) : s.count 39 = 0 ∧ s.all (· < 128) = true := by
    refine ⟨List.count_eq_zero.mpr fun hmem => (hs 39 hmem).1 rfl, List.all_eq_true.mpr fun c hc => ?_⟩
    exact decide_eq_true (hs c hc).2
  obtain ⟨hfront, hfront'⟩ := hcount front fun c hc => h c (List.mem_append_left back hc)
  obtain ⟨hback, hback'⟩ := hcount back fun c hc => h c (List.mem_append_right front hc)
  refine ⟨?_, ?_⟩
  · rw [List.count_append, List.count_append, hfront, hback]
    omega
  · rw [List.all_append, List.all_append, hfront', hback']
    simp

lemma alike_trim (b : Bytes) : Alike (dataByTrimmingWhiteSpaces b) b := by
  have hblank : ∀ c, isBlankByte c = true → c ≠ 39 ∧ c < 128 := by
    intro c hc
    simp only [isBlankByte, Bool.or_eq_true, decide_eq_true_eq] at hc
    rcases hc with rfl | rfl <;> decide
  have hdrop (s : Bytes) : Alike (s.dropWhile isBlankByte) s := by
    have hsplit := List.takeWhile_append_dropWhile (p := isBlankByte) (l := s)
    have hinsert := alike_insert (s.takeWhile isBlankByte) []
      (fun c hc => hblank c (List.mem_takeWhile_imp (by simpa using hc))) (s.dropWhile isBlankByte)
    rwa [List.append_nil, hsplit] at hinsert
  have hreverse (s : Bytes) : Alike s.reverse s := ⟨List.count_reverse, List.all_reverse⟩
  exact (hreverse _).trans ((hdrop _).trans ((hreverse _).trans (hdrop b)))

lemma alike_unquoted (b : Bytes) : Alike (dataFromQuotedData b) b := by
  rw [dataFromQuotedData]
  split_ifs with hshort hquoted
  · exact .refl b
  · obtain ⟨hhead, hlast⟩ := hquoted
    obtain ⟨t, rfl⟩ := List.getLast?_eq_some_iff.mp hlast
    cases t with
    | nil => exact absurd (Nat.lt_succ_self 1) hshort
    | cons c t =>
      obtain rfl : c = 34 := Option.some.inj hhead
      have htake : ((34 :: t ++ [34]).drop 1).take ((34 :: t ++ [34]).length - 2) = t := by simp
      rw [htake]
      exact alike_insert [34] [34] (forall_mem_of_all (by decide)) t
  · exact .refl b

lemma alike_unterminated (b : Bytes) : Alike (dataFromSemicolonTerminatedData b) b := by
  rw [dataFromSemicolonTerminatedData]
  split_ifs with hshort hlast
  · exact .refl b
  · obtain ⟨t, rfl⟩ := List.getLast?_eq_some_iff.mp hlast
    rw [List.dropLast_concat]
    exact alike_insert [] [59] (forall_mem_of_all (by decide)) t
  · exact .refl b

end Values

section Extraction

variable {b : Bytes} {start stop : ℕ}

lemma foundAt_location (n : ℕ) (found : Option ℕ) : (foundAt n found).location = found := by
  cases found <;> rfl

lemma valueEnd_le (hstart : start ≤ b.length) : start ≤ valueEnd b start ∧ valueEnd b start ≤ b.length := by
  rw [valueEnd]
  cases hnext : nextFrom [59] b start with
  | none => exact ⟨hstart, le_rfl⟩
  | some i =>
    obtain ⟨hlo, hhi⟩ := nextFrom_bounds hnext
    rw [List.length_singleton, max_eq_left hstart] at hhi
    exact ⟨hlo, by rw [Option.getD_some]; omega⟩

lemma valueStart_le (hstart : start ≤ b.length) : valueStart b start ≤ b.length := by
  rw [valueStart]
  cases hnext : nextFrom [61] b start with
  | none => exact hstart
  | some i =>
    obtain ⟨hlo, hhi⟩ := nextFrom_bounds hnext
    rw [List.length_singleton, max_eq_left hstart] at hhi
    exact hhi

lemma subdata_extent (h : start ≤ stop) (hstop : stop ≤ b.length) :
    subdata b start ((stop : ℤ) - start) = .ok (extent b start stop) := by
  rw [subdata, if_pos ⟨by omega, by omega, by omega⟩]
  have hcast : ((stop : ℤ) - start).toNat = stop - start := by omega
  rw [hcast, Int.toNat_natCast]
  rfl

lemma subdata_outside (h : stop < start) : subdata b start ((stop : ℤ) - start) = .error .range := by
  rw [subdata, if_neg (by omega)]
  rfl

lemma firstValue_short (hlength : b.length < 2 ^ 31) (hstart : start ≤ b.length) :
    ∃ v, firstValue b (wrap32 b.length) start = .ok v ∧ Alike v (extent b (valueStart b start) (valueEnd b start)) := by
  have hsemicolon := valueEnd_le hstart
  have hequals := valueStart_le hstart
  have hs : wrap32 (((nextFrom [61] b start).map fun (i : ℕ) => (i : ℤ) + 1).getD start) = valueStart b start := by
    rw [valueStart] at hequals ⊢
    cases hnext : nextFrom [61] b start with
    | none => exact wrap32_of_mem (n := (start : ℤ)) (by omega) (by omega)
    | some i =>
      rw [hnext] at hequals
      simp only [Option.map_some, Option.getD_some] at hequals ⊢
      exact wrap32_of_mem (by omega) (by omega)
  have he : wrap32 (((nextFrom [59] b start).map fun (i : ℕ) => (i : ℤ) - 1).getD (wrap32 b.length - 1)) =
      (valueEnd b start : ℤ) - 1 := by
    have hwrap : wrap32 (b.length : ℤ) = b.length := wrap32_of_mem (by omega) (by omega)
    rw [valueEnd] at hsemicolon ⊢
    cases hnext : nextFrom [59] b start with
    | none =>
      rw [hwrap]
      exact wrap32_of_mem (n := (b.length : ℤ) - 1) (by omega) (by omega)
    | some i =>
      rw [hnext] at hsemicolon
      simp only [Option.map_some, Option.getD_some] at hsemicolon ⊢
      exact wrap32_of_mem (by omega) (by omega)
  rw [firstValue, rangeFrom_short hlength (List.cons_ne_nil 61 []) hstart, rangeFrom_short hlength (List.cons_ne_nil 59 []) hstart]
  refine ⟨dataFromQuotedData (dataByTrimmingWhiteSpaces (extent b (valueStart b start) (valueEnd b start))), ?_,
    (alike_unquoted _).trans (alike_trim _)⟩
  have hsub : (subdata b (valueStart b start)
      (if 0 < wrap32 ((valueEnd b start : ℤ) - 1 - valueStart b start + 1) then
        wrap32 ((valueEnd b start : ℤ) - 1 - valueStart b start + 1) else 0)) =
      .ok (extent b (valueStart b start) (valueEnd b start)) := by
    have hdiff : wrap32 ((valueEnd b start : ℤ) - 1 - valueStart b start + 1) = (valueEnd b start : ℤ) - valueStart b start := by
      rw [wrap32_of_mem (by omega) (by omega)]
      omega
    rw [hdiff]
    split_ifs with hpos
    · exact subdata_extent (by omega) hsemicolon.2
    · have hempty := subdata_extent (le_refl (valueStart b start)) hequals
      rw [sub_self] at hempty
      rw [hempty, extent, extent, Nat.sub_self, Nat.sub_eq_zero_of_le (by omega)]
  simp only [bind, Except.bind, foundAt_location]
  rw [hs, he, hsub]
  rfl

end Extraction

section Continuations

variable {b key : Bytes}

/-- Which continuation is looked for, from where, and the text of the values so far. -/
structure Reading where
  count : ℕ
  place : ℕ
  text : Bytes

/-- Where a continuation's value starts: behind `=` or `*=`. -/
def behindName (b : Bytes) (place : ℕ) : ℕ := place + if b[place]? = some 42 then 2 else 1

/-- The name of the continuation ends at a place. -/
def Reading.NameEnds (b key : Bytes) (s : Reading) (place : ℕ) : Prop :=
  ∃ i, nextFrom (numbered key s.count) b s.place = some i ∧ place = i + (numbered key s.count).length

def Reading.Last (b key : Bytes) (s : Reading) : Prop := nextFrom (numbered key s.count) b s.place = none

/-- One continuation after the other. -/
inductive Continues (b key : Bytes) : Reading → Reading → Prop
  | step {s : Reading} {place : ℕ} (h : s.NameEnds b key place) :
      Continues b key s ⟨s.count + 1, place, s.text ++ extent b (behindName b place) (valueEnd b place)⟩

/-- A byte is behind the name, and the value starts in front of its end. -/
def ValueInside (b : Bytes) (place : ℕ) : Prop := place < b.length ∧ behindName b place ≤ valueEnd b place

def Reads (b key : Bytes) : Reading → Reading → Prop := Relation.ReflTransGen (Continues b key)

lemma numbered_ne_nil (hkey : key ≠ []) (hzero : 0 ∉ key) (n : ℕ) : numbered key n ≠ [] := by
  obtain ⟨c, t, rfl⟩ := List.exists_cons_of_ne_nil hkey
  have hc : c ≠ 0 := by
    rintro rfl
    exact hzero List.mem_cons_self
  simp [numbered, cStr, hc]

lemma Reading.NameEnds.unique {s : Reading} {p q : ℕ} (hp : s.NameEnds b key p) (hq : s.NameEnds b key q) : p = q := by
  obtain ⟨i, hi, rfl⟩ := hp
  obtain ⟨j, hj, rfl⟩ := hq
  rw [hi] at hj
  rw [Option.some.inj hj]

lemma reads_last {s t : Reading} (hs : s.Last b key) (h : Reads b key s t) : t = s := by
  rcases Relation.ReflTransGen.cases_head h with rfl | ⟨u, hstep, -⟩
  · rfl
  · cases hstep with
    | step hends =>
      obtain ⟨i, hi, -⟩ := hends
      rw [Reading.Last, hi] at hs
      cases hs

lemma reads_step {s t : Reading} {place : ℕ} (hs : s.NameEnds b key place) (h : Reads b key s t) :
    t = s ∨ Reads b key ⟨s.count + 1, place, s.text ++ extent b (behindName b place) (valueEnd b place)⟩ t := by
  rcases Relation.ReflTransGen.cases_head h with rfl | ⟨u, hstep, hrest⟩
  · exact .inl rfl
  · cases hstep with
    | step hends =>
      rw [hs.unique hends]
      exact .inr hrest

lemma continuedValue_short (hlength : b.length < 2 ^ 31) {place : ℕ} (hle : place ≤ b.length) :
    (ValueInside b place → ∃ v, Alike v (extent b (behindName b place) (valueEnd b place)) ∧
      continuedValue b (wrap32 b.length) place = .ok v) ∧
    (¬ValueInside b place → continuedValue b (wrap32 b.length) place = .error .range) := by
  have hend := valueEnd_le hle
  have hstop : ((nextFrom [59] b place).map fun (j : ℕ) => wrap32 j).getD (wrap32 b.length) = (valueEnd b place : ℤ) := by
    rw [valueEnd] at hend ⊢
    cases hsemi : nextFrom [59] b place with
    | none =>
      rw [Option.map_none, Option.getD_none, Option.getD_none]
      exact wrap32_of_mem (by omega) (by omega)
    | some j =>
      rw [hsemi, Option.getD_some] at hend
      rw [Option.map_some, Option.getD_some, Option.getD_some]
      exact wrap32_of_mem (by omega) (by omega)
  cases hc : b[place]? with
  | none =>
    have hout : ¬place < b.length := by
      intro hlt
      rw [List.getElem?_eq_getElem hlt] at hc
      cases hc
    refine ⟨fun h => absurd h.1 hout, fun _ => ?_⟩
    rw [continuedValue, characterAtIndex, hc]
    rfl
  | some c =>
    have hlt : place < b.length := (List.getElem?_eq_some_iff.mp hc).1
    have hstart : wrap32 (place : ℤ) + (if c = 42 then 2 else 1) = (behindName b place : ℤ) := by
      rw [behindName, hc, wrap32_of_mem (by omega) (by omega)]
      simp only [Option.some.injEq]
      split_ifs <;> rfl
    obtain ⟨r, hr⟩ : ∃ r, r = foundAt ([59] : Bytes).length (nextFrom [59] b place) := ⟨_, rfl⟩
    have hlocation : r.location = nextFrom [59] b place := by rw [hr, foundAt_location]
    have hrange := rangeFrom_short hlength (List.cons_ne_nil 59 []) hle
    have hvalue : continuedValue b (wrap32 b.length) place =
        (subdata b (behindName b place) ((valueEnd b place : ℤ) - behindName b place)).map fun aData =>
          dataFromQuotedData (dataFromSemicolonTerminatedData aData) := by
      rw [continuedValue, characterAtIndex, hc, hrange, ← hstart, ← hstop, ← hr, ← hlocation]
      exact (ok_bind c _).trans ((ok_bind r _).trans (bind_pure_map _ _))
    rw [hvalue]
    refine ⟨fun hinside => ⟨_, (alike_unquoted _).trans (alike_unterminated _), ?_⟩, fun houtside => ?_⟩
    · rw [subdata_extent hinside.2 hend.2]
      rfl
    · rw [subdata_outside (not_le.mp fun h => houtside ⟨hlt, h⟩)]
      rfl

/-- What the loop does with a name that it has found. -/
lemma continuations_found (hlength : b.length < 2 ^ 31) (hkey : key ≠ []) (hzero : 0 ∉ key) {n : ℕ} {s : Reading} {place : ℕ}
    (hs : s.place ≤ b.length) (hends : s.NameEnds b key place) :
    s.place < place ∧ place ≤ b.length ∧ continuations b (wrap32 b.length) key (n + 1) s.count s.place =
      (continuedValue b (wrap32 b.length) place).bind fun v =>
        (continuations b (wrap32 b.length) key n (s.count + 1) place).map (v ++ ·) := by
  have hne := numbered_ne_nil hkey hzero s.count
  have hpos := List.length_pos_of_ne_nil hne
  obtain ⟨i, hnext, rfl⟩ := hends
  have hbounds := nextFrom_bounds hnext
  rw [max_eq_left hs] at hbounds
  refine ⟨by omega, hbounds.2, ?_⟩
  rw [continuations, rangeFrom_short hlength hne hs, hnext]
  rfl

/-- The induction is on the bytes that are left; each name that is found takes some of them. -/
lemma continuations_run (hlength : b.length < 2 ^ 31) (hkey : key ≠ []) (hzero : 0 ∉ key) {n : ℕ} {s : Reading}
    (hn : b.length < n + s.place) (hs : s.place ≤ b.length) :
    ((∀ t, Reads b key s t → ∀ place, t.NameEnds b key place → ValueInside b place) →
      ∃ rest text, continuations b (wrap32 b.length) key n s.count s.place = .ok rest ∧ Alike rest text ∧
        ∃ t, Reads b key s t ∧ t.Last b key ∧ t.text = s.text ++ text ∧ ∀ u, Reads b key s u → u.Last b key → u = t) ∧
    ((¬∀ t, Reads b key s t → ∀ place, t.NameEnds b key place → ValueInside b place) →
      continuations b (wrap32 b.length) key n s.count s.place = .error .range) := by
  induction n generalizing s with
  | zero => omega
  | succ n ih =>
    cases hnext : nextFrom (numbered key s.count) b s.place with
    | none =>
      have hlast : s.Last b key := hnext
      have hdone : continuations b (wrap32 b.length) key (n + 1) s.count s.place = .ok [] := by
        rw [continuations, rangeFrom_short hlength (numbered_ne_nil hkey hzero s.count) hs, hnext]
        rfl
      refine ⟨fun _ => ⟨[], [], hdone, .refl [], s, .refl, hlast, (List.append_nil _).symm, fun u hu _ => reads_last hlast hu⟩, ?_⟩
      intro h
      exfalso
      apply h
      rintro t ht place ⟨i, hi, -⟩
      rw [reads_last hlast ht, hnext] at hi
      cases hi
    | some i =>
      have hends : s.NameEnds b key (i + (numbered key s.count).length) := ⟨i, hnext, rfl⟩
      obtain ⟨hfurther, hle, heq⟩ := continuations_found (n := n) hlength hkey hzero hs hends
      obtain ⟨hinside, houtside⟩ := continuedValue_short hlength hle
      have hstep : Continues b key s _ := .step hends
      by_cases hvalue : ValueInside b (i + (numbered key s.count).length)
      · obtain ⟨v, hv, hok⟩ := hinside hvalue
        obtain ⟨hall, hsome⟩ := ih (s := ⟨s.count + 1, i + (numbered key s.count).length, s.text ++
          extent b (behindName b (i + (numbered key s.count).length)) (valueEnd b (i + (numbered key s.count).length))⟩)
          (by dsimp only; omega) hle
        rw [heq, hok]
        constructor
        · intro h
          obtain ⟨rest, text, hrest, halike, t, ht, hlast, htext, hunique⟩ := hall fun t ht => h t (.head hstep ht)
          refine ⟨v ++ rest, _ ++ text, ?_, hv.append halike, t, .head hstep ht, hlast, ?_, fun u hu hulast => ?_⟩
          · change (continuations _ _ _ _ _ _).map _ = _
            rw [hrest]
            rfl
          · rw [htext, List.append_assoc]
          · rcases reads_step hends hu with rfl | hu
            · rw [Reading.Last, hnext] at hulast
              cases hulast
            · exact hunique u hu hulast
        · intro h
          change (continuations _ _ _ _ _ _).map _ = _
          rw [hsome fun hrest => h fun t ht place hplace => ?_]
          · rfl
          · rcases reads_step hends ht with rfl | ht
            · rw [hplace.unique hends]
              exact hvalue
            · exact hrest t ht place hplace
      · refine ⟨fun h => absurd (h s .refl _ hends) hvalue, fun _ => ?_⟩
        rw [heq, houtside hvalue]
        rfl

end Continuations

section Parameters

variable {F : Foundation} {unescape : Unescape} {b v : Bytes} {location length : ℕ} {theBOOL : Bool}
  {theCharset : Option Bytes}

lemma findCString_byte (d : UInt8) (v : Bytes) : (findCString [d] v = none ∧ v.count d = 0) ∨
    ∃ x y, findCString [d] v = some (x, y) ∧ v.count d = y.count d + 1 := by
  induction v with
  | nil => exact .inl ⟨rfl, rfl⟩
  | cons c v ih =>
    rw [findCString]
    by_cases hc : c = d
    · subst hc
      exact .inr ⟨[], v, if_pos (List.isPrefixOf_iff_prefix.mpr ⟨v, rfl⟩), List.count_cons_self⟩
    · have hfirst : ¬List.isPrefixOf [d] (c :: v) = true := by
        intro h
        exact hc (List.cons_prefix_cons.mp (List.isPrefixOf_iff_prefix.mp h)).1.symm
      rw [if_neg hfirst, List.count_cons_of_ne hc]
      rcases ih with ⟨hnone, hzero⟩ | ⟨x, y, hsome, hcount⟩
      · exact .inl ⟨by rw [hnone]; rfl, hzero⟩
      · exact .inr ⟨c :: x, y, by rw [hsome]; rfl, hcount⟩

/-- One quote alone is not behind any language. -/
lemma rfc2231Value_inRange (has_charset : Bool) :
    InRange (rfc2231Value unescape has_charset theBOOL v) ↔ (has_charset = true → v.count 39 ≠ 1) := by
  cases has_charset with
  | false => exact iff_of_true (inRange_ok _) fun h => by cases h
  | true =>
    rw [rfc2231Value, if_pos rfl]
    rcases findCString_byte 39 v with ⟨hnone, hzero⟩ | ⟨x, y, hsome, hcount⟩
    · rw [hnone]
      exact iff_of_true (inRange_ok _) fun _ => by omega
    · rw [hsome, hcount]
      rcases findCString_byte 39 y with ⟨hnone, hzero⟩ | ⟨x', y', hsome', hcount'⟩
      · rw [hzero]
        refine iff_of_false (fun h => h ?_) fun h => h rfl rfl
        dsimp only
        rw [hnone]
        rfl
      · refine iff_of_true ?_ fun _ => by omega
        dsimp only
        rw [hsome']
        exact inRange_ok _

lemma decodedHeader_inRange (theData : Bytes) : InRange (decodedHeader F theCharset theData) := by
  rw [decodedHeader]
  cases decodeHeader F theCharset theData with
  | some aString => exact inRange_ok _
  | none =>
    dsimp only
    split_ifs
    · exact inRange_ok _
    · exact fun h => by cases h

def firstReading (b : Bytes) (maxRange : ℕ) : Reading :=
  ⟨1, maxRange, extent b (valueStart b maxRange) (valueEnd b maxRange)⟩

/-- Nothing is read behind the line for a parameter whose name is at a place: there is a byte behind the name, and as many
behind a `*` as are looked at; each continuation has a byte behind its name and a value that does not start behind its end;
and where there is a character set, there is not one quote alone. -/
structure ParameterInside (b : Bytes) (location length : ℕ) : Prop where
  short : b.length < 2 ^ 31
  named : location + length < b.length
  starred : b[location + length]? = some 42 → location + length + 1 < b.length
  zero : b[location + length]? = some 42 → b[location + length + 1]? = some 48 → location + length + 2 < b.length
  continued : b[location + length]? = some 42 → b[location + length + 1]? = some 48 →
    ∀ t, Reads b ((b.drop location).take length) (firstReading b (location + length)) t →
      ∀ place, t.NameEnds b ((b.drop location).take length) place → ValueInside b place
  language : b[location + length]? = some 42 → b[location + length + 1]? = some 61 →
    (firstReading b (location + length)).text.count 39 ≠ 1
  languages : b[location + length]? = some 42 → b[location + length + 1]? = some 48 → b[location + length + 2]? = some 42 →
    ∀ t, Reads b ((b.drop location).take length) (firstReading b (location + length)) t →
      t.Last b ((b.drop location).take length) → t.text.count 39 ≠ 1

lemma characterAtIndex_inRange (i : ℕ) : InRange (characterAtIndex b i) ↔ i < b.length := by
  rw [characterAtIndex]
  by_cases hi : i < b.length
  · rw [List.getElem?_eq_getElem hi]
    exact iff_of_true (inRange_ok _) hi
  · rw [List.getElem?_eq_none (not_lt.mp hi)]
    exact iff_of_false (fun h => h rfl) hi

lemma characterAtIndex_ok {i : ℕ} {c : UInt8} : characterAtIndex b i = .ok c ↔ b[i]? = some c := by
  rw [characterAtIndex]
  cases b[i]? with
  | none => exact iff_of_false (fun h => by cases h) fun h => by cases h
  | some d => exact ⟨fun h => by cases h; rfl, fun h => by cases h; rfl⟩

lemma characterAtIndex_bind {α : Type} {i : ℕ} (f : UInt8 → Parsing α) :
    InRange (characterAtIndex b i >>= f) ↔ ∃ c, b[i]? = some c ∧ InRange (f c) := by
  rw [inRange_bind, characterAtIndex_inRange]
  constructor
  · rintro ⟨hi, h⟩
    exact ⟨b[i], List.getElem?_eq_getElem hi, h _ (characterAtIndex_ok.mpr (List.getElem?_eq_getElem hi))⟩
  · rintro ⟨c, hc, h⟩
    refine ⟨(List.getElem?_eq_some_iff.mp hc).1, fun d hd => ?_⟩
    rw [characterAtIndex_ok, hc] at hd
    rw [← Option.some.inj hd]
    exact h

lemma continuedParameter_inRange (hlength : b.length < 2 ^ 31) (hrange : location + length ≤ b.length)
    (hkey : (b.drop location).take length ≠ []) (hzero : 0 ∉ (b.drop location).take length)
    (halike : Alike v (firstReading b (location + length)).text) (e : UInt8) :
    InRange (continuations b (wrap32 b.length) ((b.drop location).take length) (b.length + 1) 1 (location + length) >>=
        fun rest => rfc2231Value unescape (e = 42) theBOOL (v ++ rest)) ↔
      (∀ t, Reads b ((b.drop location).take length) (firstReading b (location + length)) t →
        ∀ place, t.NameEnds b ((b.drop location).take length) place → ValueInside b place) ∧
      (e = 42 → ∀ t, Reads b ((b.drop location).take length) (firstReading b (location + length)) t →
        t.Last b ((b.drop location).take length) → t.text.count 39 ≠ 1) := by
  obtain ⟨hall, hsome⟩ := continuations_run (n := b.length + 1) (s := firstReading b (location + length)) hlength hkey hzero
    (by omega) hrange
  by_cases hinside : ∀ t, Reads b ((b.drop location).take length) (firstReading b (location + length)) t →
      ∀ place, t.NameEnds b ((b.drop location).take length) place → ValueInside b place
  · obtain ⟨rest, text, hrest, halike', t, ht, hlast, htext, hunique⟩ := hall hinside
    change continuations b _ _ (b.length + 1) 1 (location + length) = _ at hrest
    rw [hrest, ok_bind, rfc2231Value_inRange, and_iff_right hinside, decide_eq_true_iff, (halike.append halike').quotes, ← htext]
    refine imp_congr_right fun _ => ⟨fun h u hu hulast => ?_, fun h => h t ht hlast⟩
    rw [hunique u hu hulast]
    exact h
  · have hrest := hsome hinside
    change continuations b _ _ (b.length + 1) 1 (location + length) = _ at hrest
    rw [hrest]
    exact iff_of_false (fun h => h rfl) fun h => hinside h.1

lemma parameterValue_inRange (hlength : b.length < 2 ^ 31) (hrange : location + length ≤ b.length) (hpos : 0 < length)
    (hzero : 0 ∉ (b.drop location).take length) :
    InRange (parameterValueUsingLine F unescape b location length theBOOL theCharset) ↔ ParameterInside b location length := by
  obtain ⟨v, hv, halike⟩ := firstValue_short hlength hrange
  have hkey : (b.drop location).take length ≠ [] := by
    refine List.ne_nil_of_length_pos ?_
    rw [List.length_take, List.length_drop]
    omega
  have hget {i : ℕ} {c : UInt8} (h : b[i]? = some c) : i < b.length := (List.getElem?_eq_some_iff.mp h).1
  rw [parameterValueUsingLine, hv, ok_bind, characterAtIndex_bind]
  constructor
  · rintro ⟨c, hc, h⟩
    by_cases hstar : c = 42
    · subst hstar
      rw [if_pos rfl, characterAtIndex_bind] at h
      obtain ⟨d, hd, h⟩ := h
      by_cases hnull : d = 48
      · subst hnull
        rw [if_pos rfl, characterAtIndex_bind] at h
        obtain ⟨e, he, h⟩ := h
        obtain ⟨hinside, hlast⟩ := (continuedParameter_inRange hlength hrange hkey hzero halike e).mp h
        refine ⟨hlength, hget hc, fun _ => hget hd, fun _ _ => hget he, fun _ _ => hinside, fun _ h61 => ?_, fun _ _ h42 => ?_⟩
        · rw [hd] at h61
          cases h61
        · rw [he] at h42
          exact hlast (Option.some.inj h42)
      · rw [if_neg hnull, rfc2231Value_inRange, decide_eq_true_iff, halike.quotes] at h
        have hnot : b[location + length + 1]? ≠ some 48 := by
          rw [hd]
          exact fun h => hnull (Option.some.inj h)
        refine ⟨hlength, hget hc, fun _ => hget hd, fun _ h => absurd h hnot, fun _ h => absurd h hnot, fun _ h61 => ?_,
          fun _ h => absurd h hnot⟩
        rw [hd] at h61
        exact h (Option.some.inj h61)
    · have hnot : b[location + length]? ≠ some 42 := by
        rw [hc]
        exact fun h => hstar (Option.some.inj h)
      exact ⟨hlength, hget hc, fun h => absurd h hnot, fun h => absurd h hnot, fun h => absurd h hnot, fun h => absurd h hnot,
        fun h => absurd h hnot⟩
  · intro h
    obtain ⟨c, hc⟩ : ∃ c, b[location + length]? = some c := ⟨_, List.getElem?_eq_getElem h.named⟩
    refine ⟨c, hc, ?_⟩
    by_cases hstar : c = 42
    · subst hstar
      obtain ⟨d, hd⟩ : ∃ d, b[location + length + 1]? = some d := ⟨_, List.getElem?_eq_getElem (h.starred hc)⟩
      rw [if_pos rfl, characterAtIndex_bind]
      refine ⟨d, hd, ?_⟩
      by_cases hnull : d = 48
      · subst hnull
        obtain ⟨e, he⟩ : ∃ e, b[location + length + 2]? = some e := ⟨_, List.getElem?_eq_getElem (h.zero hc hd)⟩
        rw [if_pos rfl, characterAtIndex_bind]
        refine ⟨e, he, (continuedParameter_inRange hlength hrange hkey hzero halike e).mpr ⟨h.continued hc hd, fun h42 => ?_⟩⟩
        rw [h42] at he
        exact h.languages hc hd he
      · rw [if_neg hnull, rfc2231Value_inRange, decide_eq_true_iff, halike.quotes]
        intro h61
        rw [h61] at hd
        exact h.language hc hd
    · rw [if_neg hstar]
      split_ifs
      · exact inRange_map.mpr (decodedHeader_inRange _)
      · exact inRange_ok _

/-- A string is returned where data is expected: a parameter with a `*` and no character set, of ASCII. -/
structure IsString (b : Bytes) (location length : ℕ) : Prop where
  starred : b[location + length]? = some 42
  language : b[location + length + 1]? ≠ some 61
  languages : b[location + length + 1]? = some 48 → b[location + length + 2]? ≠ some 42
  single : b[location + length + 1]? ≠ some 48 → (firstReading b (location + length)).text.all (· < 128) = true
  several : b[location + length + 1]? = some 48 →
    ∀ t, Reads b ((b.drop location).take length) (firstReading b (location + length)) t →
      t.Last b ((b.drop location).take length) → t.text.all (· < 128) = true

lemma rfc2231Value_data (unescape : Unescape) (h : v.count 39 ≠ 1) : ∃ aData, rfc2231Value unescape true false v = .ok (.data aData) := by
  rw [rfc2231Value, if_pos rfl]
  rcases findCString_byte 39 v with ⟨hnone, hzero⟩ | ⟨x, y, hsome, hcount⟩
  · rw [hnone]
    exact ⟨v, rfl⟩
  · rw [hsome]
    rcases findCString_byte 39 y with ⟨hnone, hzero⟩ | ⟨x', y', hsome', hcount'⟩
    · omega
    · dsimp only
      rw [hsome']
      exact ⟨y', rfl⟩

/-- The parameter is returned, as a string or as data. -/
lemma parameterValue_string (h : ParameterInside b location length) (hpos : 0 < length)
    (hzero : 0 ∉ (b.drop location).take length) :
    ∃ value, parameterValueUsingLine F unescape b location length false theCharset = .ok value ∧
      ((∃ w, value = .string (some w)) ↔ IsString b location length) := by
  obtain ⟨v, hv, halike⟩ := firstValue_short h.short h.named.le
  have hkey : (b.drop location).take length ≠ [] := by
    have hnamed := h.named
    refine List.ne_nil_of_length_pos ?_
    rw [List.length_take, List.length_drop]
    omega
  have hstring (u : Bytes) : (∃ w, Parameter.string (asciiText u) = .string (some w)) ↔ u.all (· < 128) = true := by
    rw [asciiText]
    split_ifs with hall
    · exact iff_of_true ⟨_, rfl⟩ hall
    · refine iff_of_false ?_ hall
      rintro ⟨w, hw⟩
      cases hw
  have hdata (u : Bytes) (hnot : ¬IsString b location length) :
      (∃ w, Parameter.data u = .string (some w)) ↔ IsString b location length := by
    refine iff_of_false ?_ hnot
    rintro ⟨w, hw⟩
    cases hw
  obtain ⟨c, hc⟩ : ∃ c, b[location + length]? = some c := ⟨_, List.getElem?_eq_getElem h.named⟩
  rw [parameterValueUsingLine, hv, ok_bind, characterAtIndex_ok.mpr hc, ok_bind]
  by_cases hstar : c = 42
  · subst hstar
    obtain ⟨d, hd⟩ : ∃ d, b[location + length + 1]? = some d := ⟨_, List.getElem?_eq_getElem (h.starred hc)⟩
    rw [if_pos rfl, characterAtIndex_ok.mpr hd, ok_bind]
    by_cases hnull : d = 48
    · subst hnull
      obtain ⟨e, he⟩ : ∃ e, b[location + length + 2]? = some e := ⟨_, List.getElem?_eq_getElem (h.zero hc hd)⟩
      obtain ⟨rest, text, hrest, halike', t, ht, hlast, htext, hunique⟩ := (continuations_run (n := b.length + 1)
        (s := firstReading b (location + length)) h.short hkey hzero (by omega) h.named.le).1 (h.continued hc hd)
      change continuations b _ _ (b.length + 1) 1 (location + length) = _ at hrest
      have hboth := halike.append halike'
      change Alike (v ++ rest) ((firstReading b (location + length)).text ++ text) at hboth
      rw [← htext] at hboth
      rw [if_pos rfl, characterAtIndex_ok.mpr he, ok_bind, hrest, ok_bind]
      by_cases hset : e = 42
      · subst hset
        have hquotes : (v ++ rest).count 39 ≠ 1 := by
          rw [hboth.quotes]
          exact h.languages hc hd he t ht hlast
        obtain ⟨aData, hok⟩ := rfc2231Value_data unescape hquotes
        rw [decide_eq_true rfl, hok]
        exact ⟨_, rfl, hdata aData fun hs => hs.languages hd he⟩
      · rw [decide_eq_false hset]
        refine ⟨_, rfl, (hstring _).trans ?_⟩
        rw [hboth.ascii]
        constructor
        · intro hall
          refine ⟨hc, ?_, fun _ h42 => ?_, fun hnot => absurd hd hnot, fun _ u hu hulast => ?_⟩
          · rw [hd]
            exact fun h61 => by cases h61
          · rw [he] at h42
            exact hset (Option.some.inj h42)
          · rw [hunique u hu hulast]
            exact hall
        · exact fun hs => hs.several hd t ht hlast
    · have hnot : b[location + length + 1]? ≠ some 48 := by
        rw [hd]
        exact fun h => hnull (Option.some.inj h)
      rw [if_neg hnull]
      by_cases hset : d = 61
      · subst hset
        obtain ⟨aData, hok⟩ := rfc2231Value_data unescape (v := v) (by
          rw [halike.quotes]
          exact h.language hc hd)
        rw [decide_eq_true rfl, hok]
        exact ⟨_, rfl, hdata aData fun hs => hs.language hd⟩
      · rw [decide_eq_false hset]
        refine ⟨_, rfl, (hstring _).trans ?_⟩
        rw [halike.ascii]
        constructor
        · intro hall
          refine ⟨hc, ?_, fun h48 => absurd h48 hnot, fun _ => hall, fun h48 => absurd h48 hnot⟩
          rw [hd]
          exact fun h61 => hset (Option.some.inj h61)
        · exact fun hs => hs.single hnot
  · rw [if_neg hstar, if_neg Bool.false_ne_true]
    refine ⟨_, rfl, hdata v fun hs => ?_⟩
    have hstarred := hs.starred
    rw [hc] at hstarred
    exact hstar (Option.some.inj hstarred)

end Parameters

end Xperimentum.Pantomime.ContentHeaders
