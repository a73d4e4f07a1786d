import Mathlib.Data.Prod.Lex
import Mathlib.Tactic

/-! The orders of messages. `caseInsensitiveCompare:` compares strings by what a folding makes of them. -/

namespace Xperimentum.Pantomime.MessageComparing

structure Sender where
  personal : Option String
  address : Option String
  deriving DecidableEq

/-- Dates are compared by the sign of `timeIntervalSinceDate:`. -/
structure Message (D : Type) where
  messageNumber : ℕ
  receivedDate : Option D := none
  theFrom : Option Sender := none
  baseSubject : Option String := none
  size : ℕ := 0

section Source

variable {K D : Type} [LinearOrder K] [LinearOrder D] (fold : String → K)

def caseInsensitiveCompare (s t : String) : Ordering := compare (fold s) (fold t)

def compareAccordingToNumber (self aMessage : Message D) : Ordering :=
  let num := aMessage.messageNumber
  if self.messageNumber < num then .lt else if self.messageNumber > num then .gt else .eq

def reverseCompareAccordingToNumber (self aMessage : Message D) : Ordering :=
  let num := aMessage.messageNumber
  if num < self.messageNumber then .lt else if num > self.messageNumber then .gt else .eq

def compareAccordingToDate (self aMessage : Message D) : Ordering :=
  match self.receivedDate, aMessage.receivedDate with
  | some date1, some date2 =>
    if date1 < date2 then .lt else if date1 > date2 then .gt else compareAccordingToNumber self aMessage
  | _, _ => compareAccordingToNumber self aMessage

def reverseCompareAccordingToDate (self aMessage : Message D) : Ordering :=
  match aMessage.receivedDate, self.receivedDate with
  | some date1, some date2 =>
    if date1 < date2 then .lt else if date1 > date2 then .gt else reverseCompareAccordingToNumber self aMessage
  | _, _ => reverseCompareAccordingToNumber self aMessage

def fromString (theFrom : Option Sender) : String :=
  match theFrom.bind Sender.personal with
  | some personal => if personal.length = 0 then (theFrom.bind Sender.address).getD "" else personal
  | none => (theFrom.bind Sender.address).getD ""

def compareAccordingToSender (self aMessage : Message D) : Ordering :=
  let result := caseInsensitiveCompare fold (fromString self.theFrom) (fromString aMessage.theFrom)
  if result = .eq then compareAccordingToNumber self aMessage else result

def reverseCompareAccordingToSender (self aMessage : Message D) : Ordering :=
  let result := caseInsensitiveCompare fold (fromString aMessage.theFrom) (fromString self.theFrom)
  if result = .eq then reverseCompareAccordingToNumber self aMessage else result

def compareAccordingToSubject (self aMessage : Message D) : Ordering :=
  let result := caseInsensitiveCompare fold (self.baseSubject.getD "") (aMessage.baseSubject.getD "")
  if result = .eq then compareAccordingToNumber self aMessage else result

/-- A tie is not reversed. -/
def reverseCompareAccordingToSubject (self aMessage : Message D) : Ordering :=
  let result := caseInsensitiveCompare fold (aMessage.baseSubject.getD "") (self.baseSubject.getD "")
  if result = .eq then compareAccordingToNumber self aMessage else result

def compareAccordingToSize (self aMessage : Message D) : Ordering :=
  if self.size < aMessage.size then .lt
  else if self.size > aMessage.size then .gt
  else compareAccordingToNumber self aMessage

def reverseCompareAccordingToSize (self aMessage : Message D) : Ordering :=
  if aMessage.size < self.size then .lt
  else if aMessage.size > self.size then .gt
  else reverseCompareAccordingToNumber self aMessage

end Source

section Orders

variable {M L N : Type} [LinearOrder L] [LinearOrder N] {S : Set M}

/-- A comparison that puts the elements of a set in a strict total order. -/
structure StrictTotalOn (S : Set M) (cmp : M → M → Ordering) : Prop where
  irrefl : ∀ a ∈ S, cmp a a = .eq
  swap : ∀ a ∈ S, ∀ b ∈ S, cmp b a = (cmp a b).swap
  total : ∀ a ∈ S, ∀ b ∈ S, a ≠ b → cmp a b ≠ .eq
  trans : ∀ a ∈ S, ∀ b ∈ S, ∀ c ∈ S, cmp a b = .lt → cmp b c = .lt → cmp a c = .lt

lemma compare_swap (x y : L) : (compare x y).swap = compare y x := by
  rcases lt_trichotomy x y with h | h | h
  · rw [compare_lt_iff_lt.mpr h, compare_gt_iff_gt.mpr h]
    rfl
  · rw [compare_eq_iff_eq.mpr h, compare_eq_iff_eq.mpr h.symm]
    rfl
  · rw [compare_gt_iff_gt.mpr h, compare_lt_iff_lt.mpr h]
    rfl

/-- Keys that are all different order their elements. -/
lemma strictTotalOn_compare {key : M → L} (hkey : Set.InjOn key S) : StrictTotalOn S fun a b => compare (key a) (key b) where
  irrefl a _ := compare_eq_iff_eq.mpr rfl
  swap a _ b _ := (compare_swap (key a) (key b)).symm
  total a ha b hb hne heq := hne (hkey ha hb (compare_eq_iff_eq.mp heq))
  trans a _ b _ c _ hab hbc :=
    compare_lt_iff_lt.mpr ((compare_lt_iff_lt.mp hab).trans (compare_lt_iff_lt.mp hbc))

lemma ite_eq_then (x y : L) (tie : Ordering) :
    (if x < y then .lt else if x > y then .gt else tie) = (compare x y).then tie := by
  rcases lt_trichotomy x y with h | h | h
  · rw [if_pos h, compare_lt_iff_lt.mpr h]
    rfl
  · rw [if_neg h.not_lt, if_neg h.not_gt, compare_eq_iff_eq.mpr h]
    rfl
  · rw [if_neg h.not_gt, if_pos h, compare_gt_iff_gt.mpr h]
    rfl

lemma ite_tie_eq_then (result tie : Ordering) : (if result = .eq then tie else result) = result.then tie := by
  cases result <;> rfl

lemma then_compare (x x' : L) (y y' : N) :
    (compare x x').then (compare y y') = compare (toLex (x, y)) (toLex (x', y')) := by
  rw [Prod.Lex.compare_def]
  rfl

/-- Different second keys are enough where they settle the ties. -/
lemma strictTotalOn_then (key : M → L) {num : M → N} (hnum : Set.InjOn num S) :
    StrictTotalOn S fun a b => (compare (key a) (key b)).then (compare (num a) (num b)) := by
  have hkeys : Set.InjOn (fun a => toLex (key a, num a)) S := by
    intro a ha b hb hab
    exact hnum ha hb (congrArg (fun p => (ofLex p).2) hab)
  simp only [then_compare]
  exact strictTotalOn_compare hkeys

end Orders

section Keys

variable {K D : Type} [LinearOrder K] [LinearOrder D] (fold : String → K)

lemma compareAccordingToNumber_eq (a b : Message D) :
    compareAccordingToNumber a b = compare a.messageNumber b.messageNumber := by
  rw [compareAccordingToNumber, ite_eq_then]
  cases compare a.messageNumber b.messageNumber <;> rfl

lemma compareAccordingToSender_eq (a b : Message D) : compareAccordingToSender fold a b =
    (compare (fold (fromString a.theFrom)) (fold (fromString b.theFrom))).then
      (compare a.messageNumber b.messageNumber) := by
  rw [compareAccordingToSender, ite_tie_eq_then, compareAccordingToNumber_eq, caseInsensitiveCompare]

lemma compareAccordingToSubject_eq (a b : Message D) : compareAccordingToSubject fold a b =
    (compare (fold (a.baseSubject.getD "")) (fold (b.baseSubject.getD ""))).then
      (compare a.messageNumber b.messageNumber) := by
  rw [compareAccordingToSubject, ite_tie_eq_then, compareAccordingToNumber_eq, caseInsensitiveCompare]

lemma compareAccordingToSize_eq (a b : Message D) : compareAccordingToSize a b =
    (compare a.size b.size).then (compare a.messageNumber b.messageNumber) := by
  rw [compareAccordingToSize, ite_eq_then, compareAccordingToNumber_eq]

end Keys

section Dates

variable {D : Type} [LinearOrder D] {S : Set (Message D)}

/-- A message without a date, numbered between two that have theirs in the other order. -/
def Undated (S : Set (Message D)) : Prop :=
  ∃ a ∈ S, ∃ b ∈ S, ∃ c ∈ S, a.messageNumber < b.messageNumber ∧ b.messageNumber < c.messageNumber ∧
    b.receivedDate = none ∧ ∃ d ∈ a.receivedDate, ∃ e ∈ c.receivedDate, e < d

variable {a b c : Message D}

lemma compareAccordingToDate_none (h : a.receivedDate = none ∨ b.receivedDate = none) :
    compareAccordingToDate a b = compare a.messageNumber b.messageNumber := by
  rw [← compareAccordingToNumber_eq, compareAccordingToDate]
  rcases h with h | h
  · rw [h]
  · rw [h]
    cases a.receivedDate <;> rfl

lemma compareAccordingToDate_some {d e : D} (ha : a.receivedDate = some d) (hb : b.receivedDate = some e) :
    compareAccordingToDate a b = (compare d e).then (compare a.messageNumber b.messageNumber) := by
  rw [← compareAccordingToNumber_eq, ← ite_eq_then, compareAccordingToDate, ha, hb]

lemma undated_lt (h : a.receivedDate = none ∨ b.receivedDate = none) :
    compareAccordingToDate a b = .lt ↔ a.messageNumber < b.messageNumber := by
  rw [compareAccordingToDate_none h, compare_lt_iff_lt]

lemma dated_lt {d e : D} (ha : a.receivedDate = some d) (hb : b.receivedDate = some e) :
    compareAccordingToDate a b = .lt ↔ d < e ∨ d = e ∧ a.messageNumber < b.messageNumber := by
  rw [compareAccordingToDate_some ha hb, Ordering.then_eq_lt, compare_lt_iff_lt, compare_lt_iff_lt,
    compare_eq_iff_eq]

lemma compareAccordingToDate_swap (a b : Message D) :
    compareAccordingToDate b a = (compareAccordingToDate a b).swap := by
  cases ha : a.receivedDate with
  | none => rw [compareAccordingToDate_none (.inl ha), compareAccordingToDate_none (.inr ha), compare_swap]
  | some d =>
    cases hb : b.receivedDate with
    | none => rw [compareAccordingToDate_none (.inl hb), compareAccordingToDate_none (.inr hb), compare_swap]
    | some e =>
      rw [compareAccordingToDate_some ha hb, compareAccordingToDate_some hb ha, Ordering.swap_then, compare_swap,
        compare_swap]

lemma compareAccordingToDate_number (h : compareAccordingToDate a b = .eq) : a.messageNumber = b.messageNumber := by
  cases ha : a.receivedDate with
  | none =>
    rw [compareAccordingToDate_none (.inl ha)] at h
    exact compare_eq_iff_eq.mp h
  | some d =>
    cases hb : b.receivedDate with
    | none =>
      rw [compareAccordingToDate_none (.inr hb)] at h
      exact compare_eq_iff_eq.mp h
    | some e =>
      rw [compareAccordingToDate_some ha hb, Ordering.then_eq_eq] at h
      exact compare_eq_iff_eq.mp h.2

/-- Three dated messages, or two without a date, are in order. -/
lemma compareAccordingToDate_trans (hnum : Set.InjOn Message.messageNumber S) (hS : ¬Undated S) (ha : a ∈ S) (hb : b ∈ S)
    (hc : c ∈ S) (hab : compareAccordingToDate a b = .lt) (hbc : compareAccordingToDate b c = .lt) :
    compareAccordingToDate a c = .lt := by
  cases hd : a.receivedDate with
  | none =>
    rw [undated_lt (.inl hd)] at hab ⊢
    cases he : b.receivedDate with
    | none =>
      rw [undated_lt (.inl he)] at hbc
      exact hab.trans hbc
    | some e =>
      cases hf : c.receivedDate with
      | none =>
        rw [undated_lt (.inr hf)] at hbc
        exact hab.trans hbc
      | some f =>
        rcases (dated_lt he hf).mp hbc with hlt | ⟨-, hlt⟩
        · by_contra hle
          have hne : c.messageNumber ≠ a.messageNumber := by
            intro heq
            rw [hnum hc ha heq, hd] at hf
            cases hf
          exact hS ⟨c, hc, a, ha, b, hb, by omega, hab, hd, f, hf, e, he, hlt⟩
        · exact hab.trans hlt
  | some d =>
    cases he : b.receivedDate with
    | none =>
      rw [undated_lt (.inr he)] at hab
      rw [undated_lt (.inl he)] at hbc
      cases hf : c.receivedDate with
      | none => exact (undated_lt (.inr hf)).mpr (hab.trans hbc)
      | some f =>
        refine (dated_lt hd hf).mpr ?_
        rcases lt_trichotomy d f with hlt | heq | hgt
        · exact .inl hlt
        · exact .inr ⟨heq, hab.trans hbc⟩
        · exact absurd ⟨a, ha, b, hb, c, hc, hab, hbc, he, d, hd, f, hf, hgt⟩ hS
    | some e =>
      rw [dated_lt hd he] at hab
      cases hf : c.receivedDate with
      | none =>
        rw [undated_lt (.inr hf)] at hbc ⊢
        rcases hab with hlt | ⟨-, hlt⟩
        · by_contra hle
          have hne : c.messageNumber ≠ a.messageNumber := by
            intro heq
            rw [hnum hc ha heq, hd] at hf
            cases hf
          exact hS ⟨b, hb, c, hc, a, ha, hbc, by omega, hf, e, he, d, hd, hlt⟩
        · exact hlt.trans hbc
      | some f =>
        rw [dated_lt he hf] at hbc
        refine (dated_lt hd hf).mpr ?_
        rcases hab with hlt | ⟨rfl, hlt⟩
        · rcases hbc with hlt' | ⟨rfl, -⟩
          · exact .inl (hlt.trans hlt')
          · exact .inl hlt
        · rcases hbc with hlt' | ⟨heq, hlt'⟩
          · exact .inl hlt'
          · exact .inr ⟨heq, hlt.trans hlt'⟩

lemma strictTotalOn_date_iff (hnum : Set.InjOn Message.messageNumber S) :
    StrictTotalOn S compareAccordingToDate ↔ ¬Undated S := by
  constructor
  · rintro hcmp ⟨a, ha, b, hb, c, hc, hab, hbc, hnone, d, hd, e, he, hlt⟩
    have hac := hcmp.trans a ha b hb c hc ((undated_lt (.inr hnone)).mpr hab) ((undated_lt (.inl hnone)).mpr hbc)
    rcases (dated_lt hd he).mp hac with hgt | ⟨heq, -⟩
    · exact lt_asymm hlt hgt
    · exact hlt.ne heq.symm
  · intro hS
    refine ⟨?_, fun a _ b _ => compareAccordingToDate_swap a b, ?_, ?_⟩
    · intro a _
      have hswap := compareAccordingToDate_swap a a
      revert hswap
      cases compareAccordingToDate a a <;> decide
    · exact fun a ha b hb hne heq => hne (hnum ha hb (compareAccordingToDate_number heq))
    · exact fun a ha b hb c hc => compareAccordingToDate_trans hnum hS ha hb hc

end Dates

section Messages

variable {K D : Type} [LinearOrder K] [LinearOrder D] {fold : String → K} {S : Set (Message D)}

/-- The comparison of two messages the other way round. -/
def ReversedOn (S : Set (Message D)) (cmp reverse : Message D → Message D → Ordering) : Prop :=
  ∀ a ∈ S, ∀ b ∈ S, reverse a b = cmp b a

structure Ordered (fold : String → K) (S : Set (Message D)) : Prop where
  number : StrictTotalOn S compareAccordingToNumber ∧ ReversedOn S compareAccordingToNumber reverseCompareAccordingToNumber
  date : StrictTotalOn S compareAccordingToDate ∧ ReversedOn S compareAccordingToDate reverseCompareAccordingToDate
  sender : StrictTotalOn S (compareAccordingToSender fold) ∧
    ReversedOn S (compareAccordingToSender fold) (reverseCompareAccordingToSender fold)
  subject : StrictTotalOn S (compareAccordingToSubject fold) ∧
    ReversedOn S (compareAccordingToSubject fold) (reverseCompareAccordingToSubject fold)
  size : StrictTotalOn S compareAccordingToSize ∧ ReversedOn S compareAccordingToSize reverseCompareAccordingToSize

/-- Two messages with the same base subject. -/
def Tied (fold : String → K) (S : Set (Message D)) : Prop :=
  ∃ a ∈ S, ∃ b ∈ S, a ≠ b ∧ fold (a.baseSubject.getD "") = fold (b.baseSubject.getD "")

lemma reversedOn_subject_iff (hnum : Set.InjOn Message.messageNumber S) :
    ReversedOn S (compareAccordingToSubject fold) (reverseCompareAccordingToSubject fold) ↔ ¬Tied fold S := by
  have hreverse (a b : Message D) : reverseCompareAccordingToSubject fold a b =
      (compare (fold (b.baseSubject.getD "")) (fold (a.baseSubject.getD ""))).then
        (compare a.messageNumber b.messageNumber) := by
    rw [reverseCompareAccordingToSubject, ite_tie_eq_then, compareAccordingToNumber_eq, caseInsensitiveCompare]
  constructor
  · rintro hreversed ⟨a, ha, b, hb, hne, htied⟩
    have heq := hreversed a ha b hb
    rw [hreverse, compareAccordingToSubject_eq, compare_eq_iff_eq.mpr htied.symm, Ordering.eq_then, Ordering.eq_then,
      ← compare_swap a.messageNumber b.messageNumber] at heq
    refine hne (hnum ha hb (compare_eq_iff_eq.mp ?_))
    revert heq
    cases compare a.messageNumber b.messageNumber
    all_goals decide
  · intro hS a ha b hb
    by_cases hne : a = b
    · rw [hne]
      rfl
    · rw [hreverse, compareAccordingToSubject_eq]
      have hdiffer : compare (fold (b.baseSubject.getD "")) (fold (a.baseSubject.getD "")) ≠ .eq := fun h =>
        hS ⟨a, ha, b, hb, hne, (compare_eq_iff_eq.mp h).symm⟩
      revert hdiffer
      cases compare (fold (b.baseSubject.getD "")) (fold (a.baseSubject.getD ""))
      · exact fun _ => rfl
      · exact fun h => absurd rfl h
      · exact fun _ => rfl

/-- The subjects go wrong only in reverse, and the dates only around a message without one. -/
theorem ordered_iff (fold : String → K) (S : Set (Message D)) (hnum : Set.InjOn Message.messageNumber S) :
    Ordered fold S ↔ ¬Tied fold S ∧ ¬Undated S := by
  constructor
  · intro h
    exact ⟨(reversedOn_subject_iff hnum).mp h.subject.2, (strictTotalOn_date_iff hnum).mp h.date.1⟩
  · rintro ⟨htied, hundated⟩
    refine ⟨⟨?_, fun _ _ _ _ => rfl⟩, ⟨(strictTotalOn_date_iff hnum).mpr hundated, fun _ _ _ _ => rfl⟩,
      ⟨?_, fun _ _ _ _ => rfl⟩, ⟨?_, (reversedOn_subject_iff hnum).mpr htied⟩, ⟨?_, fun _ _ _ _ => rfl⟩⟩
    · have h := strictTotalOn_compare hnum
      simp only [← compareAccordingToNumber_eq] at h
      exact h
    · have h := strictTotalOn_then (fun a : Message D => fold (fromString a.theFrom)) hnum
      simp only [← compareAccordingToSender_eq] at h
      exact h
    · have h := strictTotalOn_then (fun a : Message D => fold (a.baseSubject.getD "")) hnum
      simp only [← compareAccordingToSubject_eq] at h
      exact h
    · have h := strictTotalOn_then (fun a : Message D => a.size) hnum
      simp only [← compareAccordingToSize_eq] at h
      exact h

def lowerCase (s : String) : List ℕ := s.toList.map fun c => c.toLower.toNat

/-- A message and its answers. -/
def conversation : Set (Message ℤ) := {⟨1, some 10, none, some "Lunch", 40⟩, ⟨2, some 20, none, some "lunch", 50⟩}

lemma conversation_numbers : Set.InjOn Message.messageNumber conversation := by
  rintro a (rfl | rfl) b (rfl | rfl) h
  all_goals first | rfl | exact absurd h (by decide)

theorem ordered_conversation : Ordered lowerCase conversation ↔ ¬Tied lowerCase conversation ∧ ¬Undated conversation :=
  ordered_iff lowerCase conversation conversation_numbers

theorem not_ordered : ¬∀ S : Set (Message ℤ), Set.InjOn Message.messageNumber S → Ordered lowerCase S := by
  intro h
  have hreversed := (h conversation conversation_numbers).subject.2 _ (.inl rfl) _ (.inr rfl)
  exact absurd hreversed (by decide)

end Messages

end Xperimentum.Pantomime.MessageComparing
