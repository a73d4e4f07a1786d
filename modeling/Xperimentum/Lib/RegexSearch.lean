import Mathlib.Computability.RegularExpressions
import Mathlib.Tactic

/-! Leftmost-longest matches of a regular expression, anchored at the start or the end of a string or not at all. -/

namespace Xperimentum.Lib.RegexSearch

variable {α β : Type}

structure Pattern (α : Type) where
  atStart : Bool
  body : RegularExpression α
  atEnd : Bool

def oneOf : List α → RegularExpression α
  | [] => 0
  | a :: cs => RegularExpression.char a + oneOf cs

/-- One character of each class. -/
def word : List (List α) → RegularExpression α
  | [] => 1
  | cs :: css => oneOf cs * word css

section Search

variable [DecidableEq α]

def fits (p : Pattern α) (s : List α) (n : ℕ) : Bool := p.body.rmatch (s.take n) && (!p.atEnd || n == s.length)

def longestUpTo (p : Pattern α) (s : List α) : ℕ → Option ℕ
  | 0 => if fits p s 0 then some 0 else none
  | n + 1 => if fits p s (n + 1) then some (n + 1) else longestUpTo p s n

/-- The length of the longest match at the start. -/
def longest (p : Pattern α) (s : List α) : Option ℕ := longestUpTo p s s.length

@[grind =] def leftmost (p : Pattern α) : ℕ → List α → Option (ℕ × ℕ)
  | i, [] => (longest p []).map fun n => (i, n)
  | i, a :: s =>
    match longest p (a :: s) with
    | some n => some (i, n)
    | none => leftmost p (i + 1) s

/-- The location and the length of the match; `notBol` says that the start is not that of a line. -/
def search (p : Pattern α) (notBol : Bool) (s : List α) : Option (ℕ × ℕ) :=
  if p.atStart then if notBol then none else (longest p s).map fun n => (0, n)
  else leftmost p 0 s

lemma search_atStart {p : Pattern α} (hp : p.atStart = true) (s : List α) :
    search p false s = (longest p s).map fun n => (0, n) := by
  rw [search, if_pos hp, if_neg Bool.false_ne_true]

/-- The matches behind each other, until one is empty. -/
@[grind =] def matchAll (p : Pattern α) : ℕ → Bool → ℕ → List α → List (ℕ × ℕ)
  | 0, _, _, _ => []
  | fuel + 1, notBol, offset, s =>
    match search p notBol s with
    | none => []
    | some (i, n) =>
      (offset + i, n) :: if n = 0 then [] else matchAll p fuel true (offset + (i + n)) (s.drop (i + n))

end Search

section Languages

variable {f : β → α} {x : List β}

lemma map_mem_mul {r s : RegularExpression α} :
    x.map f ∈ (r * s).matches' ↔ ∃ a b, x = a ++ b ∧ a.map f ∈ r.matches' ∧ b.map f ∈ s.matches' := by
  rw [RegularExpression.matches'_mul, Language.mem_mul]
  constructor
  · rintro ⟨a, ha, b, hb, heq⟩
    obtain ⟨y, z, rfl, rfl, rfl⟩ := List.map_eq_append_iff.mp heq.symm
    exact ⟨y, z, rfl, ha, hb⟩
  · rintro ⟨a, b, rfl, ha, hb⟩
    exact ⟨_, ha, _, hb, List.map_append.symm⟩

lemma map_mem_add {r s : RegularExpression α} :
    x.map f ∈ (r + s).matches' ↔ x.map f ∈ r.matches' ∨ x.map f ∈ s.matches' := by
  rw [RegularExpression.matches'_add, Language.mem_add]

lemma map_mem_one : x.map f ∈ (1 : RegularExpression α).matches' ↔ x = [] := by
  rw [RegularExpression.matches'_epsilon, Language.mem_one, List.map_eq_nil_iff]

lemma map_mem_star {r : RegularExpression α} :
    x.map f ∈ r.star.matches' ↔ ∃ xs : List (List β), x = xs.flatten ∧ ∀ y ∈ xs, y.map f ∈ r.matches' := by
  rw [RegularExpression.matches'_star, Language.mem_kstar]
  constructor
  · rintro ⟨ls, heq, hls⟩
    induction ls generalizing x with
    | nil => exact ⟨[], List.map_eq_nil_iff.mp heq, fun y hy => (List.not_mem_nil hy).elim⟩
    | cons l ls ih =>
      obtain ⟨hl, hrest⟩ := List.forall_mem_cons.mp hls
      obtain ⟨y, z, rfl, rfl, hz⟩ := List.map_eq_append_iff.mp heq
      obtain ⟨ys, rfl, hys⟩ := ih hz hrest
      exact ⟨y :: ys, rfl, List.forall_mem_cons.mpr ⟨hl, hys⟩⟩
  · rintro ⟨xs, rfl, hxs⟩
    refine ⟨xs.map (List.map f), List.map_flatten, fun y hy => ?_⟩
    obtain ⟨z, hz, rfl⟩ := List.mem_map.mp hy
    exact hxs z hz

lemma map_mem_oneOf {cs : List α} : x.map f ∈ (oneOf cs).matches' ↔ ∃ u, x = [u] ∧ f u ∈ cs := by
  induction cs with
  | nil =>
    refine iff_of_false ?_ ?_
    · rw [oneOf, RegularExpression.matches'_zero]
      exact Language.notMem_zero _
    · rintro ⟨u, -, hu⟩
      exact List.not_mem_nil hu
  | cons c cs ih =>
    have hchar : x.map f ∈ (RegularExpression.char c).matches' ↔ ∃ u, x = [u] ∧ f u = c := by
      rw [RegularExpression.matches'_char]
      refine List.map_eq_singleton_iff.trans ?_
      exact Iff.rfl
    rw [oneOf, map_mem_add, hchar, ih]
    constructor
    · rintro (⟨u, hx, hu⟩ | ⟨u, hx, hu⟩)
      · exact ⟨u, hx, hu ▸ List.mem_cons_self⟩
      · exact ⟨u, hx, List.mem_cons_of_mem _ hu⟩
    · rintro ⟨u, hx, hu⟩
      cases List.mem_cons.mp hu with
      | inl hc => exact .inl ⟨u, hx, hc⟩
      | inr hc => exact .inr ⟨u, hx, hc⟩

lemma map_mem_word {css : List (List α)} :
    x.map f ∈ (word css).matches' ↔ List.Forall₂ (fun cs u => f u ∈ cs) css x := by
  induction css generalizing x with
  | nil => rw [word, map_mem_one, List.forall₂_nil_left_iff]
  | cons cs css ih =>
    rw [word, map_mem_mul, List.forall₂_cons_left_iff]
    constructor
    · rintro ⟨a, b, rfl, ha, hb⟩
      obtain ⟨u, rfl, hu⟩ := map_mem_oneOf.mp ha
      exact ⟨u, b, hu, ih.mp hb, rfl⟩
    · rintro ⟨u, b, hu, hb, rfl⟩
      exact ⟨[u], b, rfl, map_mem_oneOf.mpr ⟨u, rfl, hu⟩, ih.mpr hb⟩

lemma map_mem_star_oneOf {cs : List α} : x.map f ∈ (oneOf cs).star.matches' ↔ ∀ u ∈ x, f u ∈ cs := by
  rw [map_mem_star]
  constructor
  · rintro ⟨xs, rfl, hxs⟩ u hu
    obtain ⟨y, hy, huy⟩ := List.mem_flatten.mp hu
    obtain ⟨v, rfl, hv⟩ := map_mem_oneOf.mp (hxs y hy)
    rw [List.mem_singleton.mp huy]
    exact hv
  · intro h
    refine ⟨x.map fun u => [u], ?_, fun y hy => ?_⟩
    · rw [← List.flatMap_def, List.flatMap_singleton']
    · obtain ⟨u, hu, rfl⟩ := List.mem_map.mp hy
      exact map_mem_oneOf.mpr ⟨u, rfl, h u hu⟩

end Languages

section Matches

variable [DecidableEq α] {p : Pattern α} {f : β → α} {s x : List β} {n : ℕ}

/-- A part of the string that matches at its start. -/
def MatchAt (p : Pattern α) (f : β → α) (s x : List β) : Prop :=
  ∃ a, s = x ++ a ∧ x.map f ∈ p.body.matches' ∧ (p.atEnd = true → a = [])

omit [DecidableEq α] in
lemma MatchAt.length_le (h : MatchAt p f s x) : x.length ≤ s.length := by
  obtain ⟨a, rfl, -, -⟩ := h
  rw [List.length_append]
  exact Nat.le_add_right _ _

lemma fits_iff (hn : n ≤ s.length) : fits p (s.map f) n = true ↔ MatchAt p f s (s.take n) := by
  rw [fits, ← List.map_take, Bool.and_eq_true, RegularExpression.rmatch_iff_matches', Bool.or_eq_true, List.length_map,
    beq_iff_eq]
  constructor
  · rintro ⟨hmatch, hend⟩
    refine ⟨s.drop n, (List.take_append_drop n s).symm, hmatch, fun hp => ?_⟩
    rw [hp] at hend
    rw [hend.resolve_left Bool.false_ne_true, List.drop_length]
  · rintro ⟨a, hs, hmatch, hend⟩
    refine ⟨hmatch, ?_⟩
    cases hp : p.atEnd with
    | false => exact .inl rfl
    | true =>
      have hlength := congrArg List.length hs
      rw [hend hp, List.append_nil, List.length_take] at hlength
      exact .inr (by omega)

lemma MatchAt.fits (h : MatchAt p f s x) : fits p (s.map f) x.length = true := by
  rw [fits_iff h.length_le]
  obtain ⟨a, rfl, hx⟩ := h
  rw [List.take_left]
  exact ⟨a, rfl, hx⟩

lemma longestUpTo_cases (p : Pattern α) (s : List α) (k : ℕ) :
    (∃ n, longestUpTo p s k = some n ∧ n ≤ k ∧ fits p s n = true ∧ ∀ m ≤ k, fits p s m = true → m ≤ n) ∨
      longestUpTo p s k = none ∧ ∀ m ≤ k, fits p s m = false := by
  induction k with
  | zero =>
    rw [longestUpTo]
    cases h : fits p s 0 with
    | true => exact .inl ⟨0, rfl, le_rfl, h, fun m hm _ => hm⟩
    | false => exact .inr ⟨rfl, fun m hm => Nat.le_zero.mp hm ▸ h⟩
  | succ k ih =>
    rw [longestUpTo]
    cases h : fits p s (k + 1) with
    | true => exact .inl ⟨k + 1, rfl, le_rfl, h, fun m hm _ => hm⟩
    | false =>
      have hlast : ∀ m ≤ k + 1, fits p s m = true → m ≤ k := fun m hm hfits => by
        refine Nat.le_of_lt_succ (lt_of_le_of_ne hm fun heq => ?_)
        rw [heq, h] at hfits
        cases hfits
      rcases ih with ⟨n, hn, hle, hfits, hmax⟩ | ⟨hnone, hall⟩
      · exact .inl ⟨n, hn, hle.trans (Nat.le_succ k), hfits, fun m hm hm' => hmax m (hlast m hm hm') hm'⟩
      · refine .inr ⟨hnone, fun m hm => eq_false_of_ne_true fun hm' => ?_⟩
        have hfalse := hall m (hlast m hm hm')
        rw [hm'] at hfalse
        cases hfalse

/-- Either a part of the string is the longest match at its start, or no part matches there. -/
lemma longest_cases (p : Pattern α) (f : β → α) (s : List β) :
    (∃ x, longest p (s.map f) = some x.length ∧ MatchAt p f s x ∧ ∀ y, MatchAt p f s y → y.length ≤ x.length) ∨
      longest p (s.map f) = none ∧ ∀ y, ¬MatchAt p f s y := by
  rw [longest, List.length_map]
  rcases longestUpTo_cases p (s.map f) s.length with ⟨n, hn, hle, hfits, hmax⟩ | ⟨hnone, hall⟩
  · have hlength : (s.take n).length = n := List.length_take_of_le hle
    refine .inl ⟨s.take n, hn.trans (congrArg some hlength.symm), (fits_iff hle).mp hfits, fun y hy => ?_⟩
    rw [hlength]
    exact hmax _ hy.length_le hy.fits
  · refine .inr ⟨hnone, fun y hy => ?_⟩
    have hfalse := hall _ hy.length_le
    rw [hy.fits] at hfalse
    cases hfalse

lemma longest_atEnd (hp : p.atEnd = true) {t : List α} (h : longest p t = some n) : n = t.length := by
  rcases longestUpTo_cases p t t.length with ⟨m, hm, -, hfits, -⟩ | ⟨hnone, -⟩
  · rw [longest, hm] at h
    rw [fits, hp, Bool.and_eq_true, Bool.not_true, Bool.false_or, beq_iff_eq] at hfits
    rw [← Option.some.inj h]
    exact hfits.2
  · rw [longest, hnone] at h
    cases h

/-- With `$`, a match reaches to the end. -/
lemma leftmost_atEnd (hp : p.atEnd = true) {t : List α} {i j : ℕ} (h : leftmost p i t = some (j, n)) :
    j + n = i + t.length := by
  induction t generalizing i with
  | nil =>
    obtain ⟨m, hm, heq⟩ := Option.map_eq_some_iff.mp h
    obtain ⟨rfl, rfl⟩ := Prod.mk.inj heq
    rw [longest_atEnd hp hm]
  | cons a t ih =>
    rw [leftmost] at h
    cases hlongest : longest p (a :: t) with
    | some m =>
      rw [hlongest] at h
      obtain ⟨rfl, rfl⟩ := Prod.mk.inj (Option.some.inj h)
      rw [longest_atEnd hp hlongest]
    | none =>
      rw [hlongest] at h
      rw [ih h, List.length_cons]
      omega

end Matches

end Xperimentum.Lib.RegexSearch
