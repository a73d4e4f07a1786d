import Xperimentum.Pantomime.BaseSubjectWords

/-! White space in a subject: each run of it becomes one space, but for a run at the end. -/

namespace Xperimentum.Pantomime.BaseSubject

open Lib.RegexSearch EncodedWords

def isSpace (u : UInt16) : Bool := u ∈ asciiUnits spaceChars

@[grind =] def squeeze : Str → Str
  | [] => []
  | u :: s =>
    if isSpace u = true then
      if s.all isSpace = true then u :: s
      else if s.head?.any isSpace = true then squeeze s
      else 32 :: squeeze s
    else u :: squeeze s

section Squeezing

variable {s t w : Str} {u v : UInt16}

lemma squeeze_cons (hu : isSpace u = false) (s : Str) : squeeze (u :: s) = u :: squeeze s := by
  rw [squeeze, hu]
  rfl

lemma squeeze_of_all (h : s.all isSpace = true) : squeeze s = s := by
  cases s with
  | nil => rfl
  | cons u s =>
    rw [List.all_cons, Bool.and_eq_true] at h
    rw [squeeze, if_pos h.1, if_pos h.2]

lemma squeeze_word (hw : ∀ u ∈ w, isSpace u = false) (s : Str) : squeeze (w ++ s) = w ++ squeeze s := by
  induction w with
  | nil => rfl
  | cons u w ih =>
    obtain ⟨hu, hrest⟩ := List.forall_mem_cons.mp hw
    rw [List.cons_append, squeeze_cons hu, ih hrest, List.cons_append]

lemma all_append_cons (hv : isSpace v = false) (w t : Str) : (w ++ v :: t).all isSpace = false := by
  rw [List.all_append, List.all_cons, hv, Bool.false_and, Bool.and_false]

lemma squeeze_run (hne : w ≠ []) (hw : w.all isSpace = true) (hv : isSpace v = false) (t : Str) :
    squeeze (w ++ v :: t) = 32 :: squeeze (v :: t) := by
  induction w with
  | nil => exact absurd rfl hne
  | cons u w ih =>
    rw [List.all_cons, Bool.and_eq_true] at hw
    rw [List.cons_append, squeeze, if_pos hw.1, all_append_cons hv, if_neg Bool.false_ne_true]
    cases w with
    | nil => rw [List.nil_append, List.head?_cons, Option.any_some, hv, if_neg Bool.false_ne_true]
    | cons x w =>
      have hx := hw.2
      rw [List.all_cons, Bool.and_eq_true] at hx
      rw [List.cons_append, List.head?_cons, Option.any_some, if_pos hx.1]
      exact ih (List.cons_ne_nil x w) hw.2

/-- Behind a character that is no white space, the rest does not matter. -/
lemma squeeze_append (hv : isSpace v = false) (s t : Str) : squeeze ((s ++ [v]) ++ t) = squeeze (s ++ [v]) ++ squeeze t := by
  induction s with
  | nil =>
    have hone : squeeze [v] = [v] := squeeze_cons hv []
    rw [List.nil_append, hone]
    exact squeeze_cons hv t
  | cons u s ih =>
    have hall : ∀ r, (s ++ [v] ++ r).all isSpace = false := fun r => by
      rw [List.append_assoc]
      exact all_append_cons hv s r
    have hempty := hall []
    rw [List.append_nil] at hempty
    have hhead : (s ++ [v] ++ t).head? = (s ++ [v]).head? := by
      cases s with
      | nil => rfl
      | cons x s => rfl
    rw [List.cons_append, List.cons_append, squeeze, squeeze, hall, hempty, hhead, ih]
    simp only [Bool.false_eq_true, if_false]
    split_ifs <;> rfl

lemma squeeze_last (hv : isSpace v = false) (s : Str) : ∃ y, squeeze (s ++ [v]) = y ++ [v] := by
  induction s with
  | nil => exact ⟨[], squeeze_cons hv []⟩
  | cons u s ih =>
    obtain ⟨y, hy⟩ := ih
    rw [List.cons_append, squeeze, all_append_cons hv, hy]
    simp only [Bool.false_eq_true, if_false]
    split_ifs
    · exact ⟨y, rfl⟩
    · exact ⟨32 :: y, rfl⟩
    · exact ⟨u :: y, rfl⟩

lemma mem_squeeze (h : u ∈ squeeze s) : u ∈ s ∨ u = 32 := by
  induction s with
  | nil => exact .inl h
  | cons v s ih =>
    rw [squeeze] at h
    split_ifs at h
    · exact .inl h
    · exact (ih h).imp_left (List.mem_cons_of_mem v)
    · rcases List.mem_cons.mp h with h | h
      · exact .inr h
      · exact (ih h).imp_left (List.mem_cons_of_mem v)
    · rcases List.mem_cons.mp h with h | h
      · exact .inl (h ▸ List.mem_cons_self)
      · exact (ih h).imp_left (List.mem_cons_of_mem v)

/-- The white space at the end of a string. -/
lemma exists_trailing (s : Str) :
    ∃ t w, s = t ++ w ∧ w.all isSpace = true ∧ (t = [] ∨ ∃ y v, t = y ++ [v] ∧ isSpace v = false) := by
  induction s using List.reverseRecOn with
  | nil => exact ⟨[], [], rfl, rfl, .inl rfl⟩
  | append_singleton s u ih =>
    cases hu : isSpace u with
    | false => exact ⟨s ++ [u], [], (List.append_nil _).symm, rfl, .inr ⟨s, u, rfl, hu⟩⟩
    | true =>
      obtain ⟨t, w, rfl, hw, ht⟩ := ih
      refine ⟨t, w ++ [u], List.append_assoc t w [u], ?_, ht⟩
      rw [List.all_append, hw, List.all_cons, hu]
      rfl

/-- The first run of white space. -/
lemma exists_run (s : Str) : (∀ u ∈ s, isSpace u = false) ∨
    ∃ w r t, s = w ++ (r ++ t) ∧ (∀ u ∈ w, isSpace u = false) ∧ r ≠ [] ∧ r.all isSpace = true ∧
      (t = [] ∨ ∃ v y, t = v :: y ∧ isSpace v = false) := by
  induction s with
  | nil => exact .inl fun u hu => (List.not_mem_nil hu).elim
  | cons u s ih =>
    cases hu : isSpace u with
    | false =>
      rcases ih with hs | ⟨w, r, t, rfl, hw, hr⟩
      · exact .inl (List.forall_mem_cons.mpr ⟨hu, hs⟩)
      · exact .inr ⟨u :: w, r, t, rfl, List.forall_mem_cons.mpr ⟨hu, hw⟩, hr⟩
    | true =>
      have hone : [u].all isSpace = true := by
        rw [List.all_cons, hu]
        rfl
      refine .inr ?_
      rcases ih with hs | ⟨w, r, t, rfl, hw, hne, hr, ht⟩
      · refine ⟨[], [u], s, rfl, fun v hv => (List.not_mem_nil hv).elim, List.cons_ne_nil u [], hone, ?_⟩
        cases s with
        | nil => exact .inl rfl
        | cons v s => exact .inr ⟨v, s, rfl, hs v List.mem_cons_self⟩
      · cases w with
        | nil =>
          refine ⟨[], u :: r, t, rfl, hw, List.cons_ne_nil u r, ?_, ht⟩
          rw [List.all_cons, hu, hr]
          rfl
        | cons v w =>
          exact ⟨[], [u], v :: w ++ (r ++ t), rfl, fun x hx => (List.not_mem_nil hx).elim, List.cons_ne_nil u [], hone,
            .inr ⟨v, _, rfl, hw v List.mem_cons_self⟩⟩

end Squeezing

section Replacing

variable {e : CStringEncoding} {s x : Str}

lemma spaces_regex_iff (hx : ∀ u ∈ x, e.single u) :
    x.map e.encode ∈ (oneOf spaceChars * (oneOf spaceChars).star).matches' ↔ x ≠ [] ∧ x.all isSpace = true := by
  have hspace : ∀ u, e.single u → (e.encode u ∈ spaceChars ↔ isSpace u = true) := fun u hu => by
    rw [isSpace, decide_eq_true_eq]
    exact mem_encode (by decide) hu
  rw [List.all_eq_true]
  constructor
  · intro h
    obtain ⟨a, b, rfl, ha, hb⟩ := map_mem_mul.mp h
    obtain ⟨u, rfl, hu⟩ := map_mem_oneOf.mp ha
    refine ⟨List.cons_ne_nil u b, fun v hv => ?_⟩
    rcases List.mem_cons.mp hv with rfl | hv'
    · exact (hspace v (hx v hv)).mp hu
    · exact (hspace v (hx v hv)).mp (map_mem_star_oneOf.mp hb v hv')
  · rintro ⟨hne, hall⟩
    cases x with
    | nil => exact absurd rfl hne
    | cons u y =>
      have hmem : ∀ v ∈ u :: y, e.encode v ∈ spaceChars := fun v hv => (hspace v (hx v hv)).mpr (hall v hv)
      refine map_mem_mul.mpr ⟨[u], y, rfl, map_mem_oneOf.mpr ⟨u, rfl, hmem u List.mem_cons_self⟩, ?_⟩
      exact map_mem_star_oneOf.mpr fun v hv => hmem v (List.mem_cons_of_mem u hv)

lemma longest_run {r t : Str} (h : ∀ u ∈ r ++ t, e.single u) (hne : r ≠ []) (hr : r.all isSpace = true)
    (ht : t = [] ∨ ∃ v y, t = v :: y ∧ isSpace v = false) :
    longest atLeastOneSpaceRegex ((r ++ t).map e.encode) = some r.length := by
  have hmatch : MatchAt atLeastOneSpaceRegex e.encode (r ++ t) r :=
    ⟨t, rfl, (spaces_regex_iff (single_append h).1).mpr ⟨hne, hr⟩, fun hfalse => absurd hfalse Bool.false_ne_true⟩
  rcases longest_cases atLeastOneSpaceRegex e.encode (r ++ t) with ⟨x, hx, ⟨a, hs, hmem, -⟩, hmax⟩ | ⟨-, hall⟩
  · rw [hx]
    have hle := hmax r hmatch
    rw [hs] at h
    have hspaces := ((spaces_regex_iff (single_append h).1).mp hmem).2
    rcases List.append_eq_append_iff.mp hs with ⟨c, rfl, hc⟩ | ⟨c, rfl, -⟩
    · cases c with
      | nil => rw [List.append_nil]
      | cons v c =>
        rcases ht with rfl | ⟨v', y, rfl, hv⟩
        · cases hc
        · rw [List.cons_append] at hc
          rw [← (List.cons.inj hc).1, all_append_cons hv] at hspaces
          cases hspaces
    · rw [List.length_append] at hle
      rw [List.length_append, show c.length = 0 by omega, Nat.add_zero]
  · exact absurd hmatch (hall r)

lemma longest_none (h : ∀ u ∈ s, e.single u) (hs : s = [] ∨ ∃ v y, s = v :: y ∧ isSpace v = false) :
    longest atLeastOneSpaceRegex (s.map e.encode) = none := by
  rcases longest_cases atLeastOneSpaceRegex e.encode s with ⟨x, -, ⟨a, rfl, hmem, -⟩, -⟩ | ⟨hnone, -⟩
  · obtain ⟨hne, hall⟩ := (spaces_regex_iff (single_append h).1).mp hmem
    cases x with
    | nil => exact absurd rfl hne
    | cons u x =>
      rcases hs with hs | ⟨v, y, hs, hv⟩
      · cases hs
      · rw [List.all_cons, (List.cons.inj hs).1, hv] at hall
        cases hall
  · exact hnone

lemma leftmost_none (h : ∀ u ∈ s, e.single u) (hs : ∀ u ∈ s, isSpace u = false) (i : ℕ) :
    leftmost atLeastOneSpaceRegex i (s.map e.encode) = none := by
  induction s generalizing i with
  | nil =>
    have hnone := longest_none h (.inl rfl)
    rw [List.map_nil] at hnone
    rw [List.map_nil, leftmost, hnone]
    rfl
  | cons u s ih =>
    have hnone := longest_none h (.inr ⟨u, s, rfl, hs u List.mem_cons_self⟩)
    rw [List.map_cons] at hnone
    rw [List.map_cons, leftmost, hnone]
    exact ih (fun v hv => h v (List.mem_cons_of_mem u hv)) (fun v hv => hs v (List.mem_cons_of_mem u hv)) (i + 1)

lemma leftmost_run {w r t : Str} (h : ∀ u ∈ w ++ (r ++ t), e.single u) (hw : ∀ u ∈ w, isSpace u = false) (hne : r ≠ [])
    (hr : r.all isSpace = true) (ht : t = [] ∨ ∃ v y, t = v :: y ∧ isSpace v = false) (i : ℕ) :
    leftmost atLeastOneSpaceRegex i ((w ++ (r ++ t)).map e.encode) = some (i + w.length, r.length) := by
  induction w generalizing i with
  | nil =>
    have hsome := longest_run (single_append h).2 hne hr ht
    rw [List.nil_append]
    cases r with
    | nil => exact absurd rfl hne
    | cons u r =>
      rw [List.cons_append, List.map_cons] at hsome ⊢
      rw [leftmost, hsome]
      rfl
  | cons u w ih =>
    have hnone := longest_none h (.inr ⟨u, w ++ (r ++ t), rfl, hw u List.mem_cons_self⟩)
    rw [List.cons_append, List.map_cons] at hnone ⊢
    rw [leftmost, hnone, List.length_cons, Nat.add_comm w.length, ← Nat.add_assoc]
    exact ih (fun v hv => h v (List.mem_cons_of_mem u hv)) (fun v hv => hw v (List.mem_cons_of_mem u hv)) (i + 1)

lemma squeeze_ne_nil {v : UInt16} (hv : isSpace v = false) (s : Str) : 0 < (squeeze (v :: s)).length := by
  rw [squeeze_cons hv]
  exact Nat.succ_pos _

/-- Replacing from the last run to the first one squeezes the string. -/
lemma foldr_matchAll (fuel : ℕ) (notBol : Bool) (front : Str) (hfuel : s.length < fuel) (h : ∀ u ∈ s, e.single u) :
    (matchAll atLeastOneSpaceRegex fuel notBol front.length (s.map e.encode)).foldr
        (fun r baseSubject => if checkRange r baseSubject.length then replaceCharacters baseSubject r [32] else baseSubject)
        (front ++ s) = front ++ squeeze s := by
  induction fuel generalizing notBol front s with
  | zero => exact absurd hfuel (Nat.not_lt_zero _)
  | succ fuel ih =>
    have hsearch : search atLeastOneSpaceRegex notBol (s.map e.encode) = leftmost atLeastOneSpaceRegex 0 (s.map e.encode) :=
      rfl
    rw [matchAll, hsearch]
    rcases exists_run s with hs | ⟨w, r, t, rfl, hw, hne, hr, ht⟩
    · have hword := squeeze_word hs []
      rw [List.append_nil, squeeze, List.append_nil] at hword
      rw [leftmost_none h hs 0, hword]
      rfl
    · have hpos : 0 < r.length := List.length_pos_of_ne_nil hne
      have hdrop : ((w ++ (r ++ t)).map e.encode).drop (w.length + r.length) = t.map e.encode := by
        rw [← List.map_drop, ← List.append_assoc, List.drop_left' List.length_append]
      have hfront : front.length + (w.length + r.length) = (front ++ (w ++ r)).length := by
        rw [List.length_append, List.length_append]
      have hsplit : front ++ (w ++ (r ++ t)) = (front ++ (w ++ r)) ++ t := by simp only [List.append_assoc]
      have hlength : t.length < fuel := by
        simp only [List.length_append] at hfuel
        omega
      have hrest := ih true (front ++ (w ++ r)) hlength (single_append (single_append h).2).2
      rw [leftmost_run h hw hne hr ht 0]
      simp only [Nat.zero_add, List.foldr_cons]
      rw [if_neg hpos.ne', hdrop, hfront, hsplit, hrest, squeeze_word hw]
      rcases ht with rfl | ⟨v, y, rfl, hv⟩
      · have hrange : checkRange (front.length + w.length, r.length) (front ++ (w ++ r) ++ squeeze []).length = false := by
          simp only [checkRange, squeeze, List.length_append, List.length_nil, Bool.and_eq_false_iff, decide_eq_false_iff_not]
          omega
        rw [hrange, if_neg Bool.false_ne_true, List.append_nil, squeeze_of_all hr, squeeze, List.append_nil]
      · have htail := squeeze_ne_nil hv y
        have hrange : checkRange (front.length + w.length, r.length) (front ++ (w ++ r) ++ squeeze (v :: y)).length = true := by
          simp only [checkRange, List.length_append, Bool.and_eq_true, decide_eq_true_eq]
          omega
        have hat : (front ++ w).length = front.length + w.length := List.length_append
        have hpast : (front ++ (w ++ r)).length = front.length + w.length + r.length := by
          simp only [List.length_append]
          omega
        rw [hrange, if_pos rfl, replaceCharacters, List.drop_left' hpast, squeeze_run hne hr hv]
        rw [← List.append_assoc front, List.append_assoc (front ++ w), List.take_left' hat, List.append_assoc front]
        rfl

lemma replaceSpaces_eq (h : Plain e s) : replaceSpaces e s = squeeze s := by
  rw [replaceSpaces, matchString, lossyCString_plain h]
  have hfuel : s.length < (s.map e.encode).length + 1 := by
    rw [List.length_map]
    exact Nat.lt_succ_self _
  exact foldr_matchAll _ false [] hfuel fun u hu => (h u hu).1

lemma Plain.squeeze (h : Plain e s) : Plain e (squeeze s) := by
  intro u hu
  rcases mem_squeeze hu with hu | rfl
  · exact h u hu
  · exact ⟨(e.ascii 32 (by decide)).1, by decide⟩

end Replacing

end Xperimentum.Pantomime.BaseSubject
