import Mathlib.Tactic
import Xperimentum.Lib.Byte
import Xperimentum.Terminal.ControlSequences
import Xperimentum.Terminal.TabFrame

/-! The words of `tab_stop` as a set of columns, and what each byte does to the set and to the cursor. -/

namespace Xperimentum.Terminal.LinuxParser

open Xperimentum.Lib.Byte Xperimentum.Lib.Runs

variable {σ : Type} {host : Host σ} {c : UInt8} {p q : Parser σ} {x y : ℤ}

/-- The columns whose bit is set in one of the eight words. -/
def stops (p : Parser σ) : Set ℤ :=
  {x | hasTabWord x ∧ (p.tabStop.getD (x / 32).toNat 0).testBit (tabBit x)}

def defaultStops : Set ℤ := {x | 8 ≤ x ∧ x < 256 ∧ 8 ∣ x}

/-- The stop `HT` goes to, or the last column. -/
def IsNextStop (columns : Set ℤ) (width x next : ℤ) : Prop :=
  (next ∈ columns ∧ x < next ∧ next < width ∧ ∀ s ∈ columns, x < s → next ≤ s) ∨
    (next = width - 1 ∧ ∀ s ∈ columns, x < s → width ≤ s)

inductive TabChange
  | keep | next | add | remove | removeAll | reset
  deriving DecidableEq

/-- `CSI g` and `CSI 3 g`. -/
def parChange (n : ℤ) : TabChange := if n = 0 then .remove else if n = 3 then .removeAll else .keep

/-- The control function for tab stops that is carried out when the byte is processed. -/
def tabChange (c : UInt8) (p : Parser σ) : TabChange :=
  if c = 9 then .next
  else
    match p.vcState with
    | .esc => if byteChar c = 'H' then .add else if byteChar c = 'c' then .reset else .keep
    | .square => if byteChar c = 'g' then .remove else .keep
    | .getpars | .gotpars => if byteChar c = 'g' ∧ p.ques = false then parChange (parAt p 0) else .keep
    | _ => .keep

def changeStops (change : TabChange) (x : ℤ) (columns : Set ℤ) : Set ℤ :=
  match change with
  | .keep | .next => columns
  | .add => insert x columns
  | .remove => columns \ {x}
  | .removeAll => ∅
  | .reset => defaultStops

/-- The columns whose words are read or written. -/
def accessed (change : TabChange) (x next : ℤ) : Set ℤ :=
  match change with
  | .next => {y | x < y ∧ y ≤ next}
  | .add | .remove => {x}
  | _ => ∅

lemma hasTabWord_iff : hasTabWord x ↔ 0 ≤ x ∧ x < 256 := by
  rw [hasTabWord]
  omega

lemma tabBit_lt (x : ℤ) : tabBit x < 32 := by
  rw [tabBit]
  omega

lemma tabWord_eq (hx : hasTabWord x) : tabWord host p x = p.tabStop.getD (x / 32).toNat 0 := if_pos hx

lemma mem_stops (host : Host σ) (hx : hasTabWord x) : x ∈ stops p ↔ (tabWord host p x).testBit (tabBit x) = true := by
  rw [tabWord_eq hx]
  exact and_iff_right hx

lemma mem_stops_store (hl : p.tabStop.length = 8) (hx : hasTabWord x) (word : ℕ) (y : ℤ) :
    y ∈ stops (storeTabWord host p x word) ↔
      hasTabWord y ∧ ((if y / 32 = x / 32 then word else p.tabStop.getD (y / 32).toNat 0).testBit (tabBit y)) = true := by
  rw [storeTabWord, if_pos hx]
  refine and_congr_right fun hy => ?_
  have hx' := hasTabWord_iff.mp hx
  have hy' := hasTabWord_iff.mp hy
  dsimp only
  rw [List.getD_eq_getElem?_getD, List.getElem?_set, List.getD_eq_getElem?_getD]
  by_cases hword : y / 32 = x / 32
  · rw [if_pos hword, if_pos (by rw [hword]), if_pos (by omega), Option.getD_some]
  · rw [if_neg hword, if_neg (by omega)]

lemma column_eq (hx : hasTabWord x) (hy : hasTabWord y) : y = x ↔ y / 32 = x / 32 ∧ tabBit y = tabBit x := by
  have hx' := hasTabWord_iff.mp hx
  have hy' := hasTabWord_iff.mp hy
  rw [tabBit, tabBit]
  omega

lemma stops_setTabStop (hl : p.tabStop.length = 8) (hx : hasTabWord p.x) :
    stops (setTabStop host p) = insert p.x (stops p) := by
  ext y
  rw [setTabStop, mem_stops_store hl hx, Set.mem_insert_iff]
  by_cases hy : hasTabWord y
  · rw [and_iff_right hy, column_eq hx hy, mem_stops host hy, tabWord_eq hx, tabWord_eq hy]
    by_cases hword : y / 32 = p.x / 32
    · rw [if_pos hword, Nat.testBit_or, Nat.one_shiftLeft, Nat.testBit_two_pow, hword, and_iff_right rfl,
        Bool.or_eq_true, decide_eq_true_eq, or_comm]
      exact or_congr_left eq_comm
    · rw [if_neg hword]
      simp [hword]
  · refine iff_of_false (fun h => hy h.1) ?_
    rintro (rfl | h)
    · exact hy hx
    · exact hy h.1

lemma testBit_clear (word : ℕ) {i j : ℕ} (hj : j < 32) :
    (word &&& (0xffffffff ^^^ 1 <<< i)).testBit j = (word.testBit j && decide (j ≠ i)) := by
  have hones : Nat.testBit 0xffffffff j = true := by
    have hall : ∀ k < 32, Nat.testBit 0xffffffff k = true := by decide
    exact hall j hj
  rw [Nat.testBit_and, Nat.testBit_xor, hones, Nat.one_shiftLeft, Nat.testBit_two_pow, Bool.true_xor]
  simp [eq_comm]

lemma stops_clearTabStop (hl : p.tabStop.length = 8) (hx : hasTabWord p.x) :
    stops (clearTabStop host p) = stops p \ {p.x} := by
  ext y
  rw [clearTabStop, mem_stops_store hl hx, Set.mem_sdiff, Set.mem_singleton_iff]
  by_cases hy : hasTabWord y
  · rw [and_iff_right hy, column_eq hx hy, mem_stops host hy, tabWord_eq hx, tabWord_eq hy]
    by_cases hword : y / 32 = p.x / 32
    · rw [if_pos hword, testBit_clear _ (tabBit_lt y), hword]
      simp
    · rw [if_neg hword]
      simp [hword]
  · exact iff_of_false (fun h => hy h.1) fun h => hy h.1.1

lemma stops_clearWords (h : ∀ s < 256, ((s : ℕ) : ℤ) ∈ stops p → (s : ℤ) < p.width → s < 160)
    (hq : q.tabStop = List.replicate 5 0 ++ p.tabStop.drop 5) : ∀ y < p.width, y ∉ stops q := by
  intro y hwidth ⟨hy, hbit⟩
  have hy' := hasTabWord_iff.mp hy
  rw [hq] at hbit
  by_cases hword : y / 32 < 5
  · have hlt : (y / 32).toNat < 5 := by omega
    rw [List.getD_eq_getElem?_getD, List.getElem?_append_left (by rwa [List.length_replicate]),
      List.getElem?_replicate_of_lt hlt, Option.getD_some, Nat.zero_testBit] at hbit
    cases hbit
  · have hsame : (List.replicate 5 0 ++ p.tabStop.drop 5).getD (y / 32).toNat 0 =
        p.tabStop.getD (y / 32).toNat 0 := by
      have hle : 5 ≤ (y / 32).toNat := by omega
      rw [List.getD_eq_getElem?_getD, List.getElem?_append_right (by rwa [List.length_replicate]),
        List.length_replicate, List.getElem?_drop, List.getD_eq_getElem?_getD, Nat.add_sub_cancel' hle]
    rw [hsame] at hbit
    obtain ⟨n, rfl⟩ := Int.eq_ofNat_of_zero_le hy'.1
    have hlt := h n (by omega) ⟨hy, hbit⟩ hwidth
    omega

lemma stops_default (h : p.tabStop = 0x01010100 :: List.replicate 7 0x01010101) : stops p = defaultStops := by
  have hall : ∀ n < 256, Nat.testBit ((0x01010100 :: List.replicate 7 0x01010101).getD (n / 32) 0) (n % 32) =
      decide (8 ≤ n ∧ n % 8 = 0) := by decide +kernel
  ext y
  rw [stops, defaultStops, Set.mem_ofPred_eq, Set.mem_ofPred_eq, hasTabWord_iff, h]
  by_cases hy : 0 ≤ y ∧ y < 256
  · obtain ⟨n, rfl⟩ := Int.eq_ofNat_of_zero_le hy.1
    have hn : n < 256 := by omega
    have hword : ((n : ℤ) / 32).toNat = n / 32 := by omega
    have hbit : tabBit n = n % 32 := by
      rw [tabBit]
      omega
    rw [and_iff_right hy, hword, hbit, hall n hn, decide_eq_true_eq]
    omega
  · refine iff_of_false (fun h => hy h.1) ?_
    omega

/-! `HT`. -/

lemma nextTab_spec (host : Host σ) (p : Parser σ) {n : ℕ} {x : ℤ} (hn : p.width - 1 - x = n) :
    x ≤ nextTab host p n x ∧ nextTab host p n x ≤ p.width - 1 ∧
      (∀ y, x < y → y < nextTab host p n x → (tabWord host p y).testBit (tabBit y) = false) ∧
        ((x < nextTab host p n x ∧
            (tabWord host p (nextTab host p n x)).testBit (tabBit (nextTab host p n x)) = true) ∨
          nextTab host p n x = p.width - 1) := by
  induction n generalizing x with
  | zero =>
    rw [nextTab]
    exact ⟨le_rfl, by omega, fun y hlow hhigh => by omega, .inr (by omega)⟩
  | succ n ih =>
    rw [nextTab, if_pos (by omega)]
    split_ifs with hbit
    · exact ⟨by omega, by omega, fun y hlow hhigh => by omega, .inl ⟨by omega, hbit⟩⟩
    · obtain ⟨hle, hlast, hclear, hend⟩ := ih (x := x + 1) (by omega)
      refine ⟨by omega, hlast, fun y hlow hhigh => ?_, hend.imp_left fun h => ⟨by omega, h.2⟩⟩
      rcases eq_or_ne y (x + 1) with rfl | hne
      · exact eq_false_of_ne_true hbit
      · exact hclear y (by omega) hhigh

/-- The search ends in a column that has a word. -/
def ScanFits (p : Parser σ) : Prop :=
  p.x < p.width ∧ (p.width ≤ 256 ∨ p.width = p.x + 1 ∨ ∃ s < 256, p.x < (s : ℕ) ∧ (s : ℤ) ∈ stops p)

lemma tab_spec (host : Host σ) (hp : Placed p) (h : ScanFits p) :
    IsNextStop (stops p) p.width p.x (tab host p).parser.x ∧ p.x ≤ (tab host p).parser.x ∧
      (tab host p).parser.x < p.width ∧ ∀ y, p.x < y → y ≤ (tab host p).parser.x → hasTabWord y := by
  obtain ⟨hlt, hscan⟩ := h
  have h0 := hp.x_nonneg
  obtain ⟨hle, hlast, hclear, hend⟩ := nextTab_spec host p (n := (p.width - 1 - p.x).toNat) (x := p.x) (by omega)
  change IsNextStop (stops p) p.width p.x (nextTab host p (p.width - 1 - p.x).toNat p.x) ∧
    p.x ≤ nextTab host p (p.width - 1 - p.x).toNat p.x ∧ nextTab host p (p.width - 1 - p.x).toNat p.x < p.width ∧
      ∀ y, p.x < y → y ≤ nextTab host p (p.width - 1 - p.x).toNat p.x → hasTabWord y
  generalize nextTab host p (p.width - 1 - p.x).toNat p.x = next at hle hlast hclear hend ⊢
  -- no stop lies between the cursor and the end of the search
  have hfirst : ∀ s ∈ stops p, p.x < s → next ≤ s := by
    intro s hs hxs
    by_contra hsn
    have hbit := (mem_stops host hs.1).mp hs
    rw [hclear s hxs (not_le.mp hsn)] at hbit
    cases hbit
  have hwords : ∀ y, p.x < y → y ≤ next → hasTabWord y := by
    intro y hxy hyn
    rw [hasTabWord_iff]
    rcases hscan with hwidth | hwidth | ⟨s, hs256, hxs, hs⟩
    · omega
    · omega
    · have hns := hfirst s hs hxs
      omega
  refine ⟨?_, hle, by omega, hwords⟩
  rcases hend with ⟨hxn, hbit⟩ | hend
  · exact .inl ⟨(mem_stops host (hwords next hxn le_rfl)).mpr hbit, hxn, by omega, hfirst⟩
  · by_cases hstop : next ∈ stops p ∧ p.x < next
    · exact .inl ⟨hstop.1, hstop.2, by omega, hfirst⟩
    · refine .inr ⟨hend, fun s hs hxs => ?_⟩
      rcases (hfirst s hs hxs).lt_or_eq with hns | rfl
      · omega
      · exact absurd ⟨hs, hxs⟩ hstop

/-! One byte. -/

/-- The column has a word in `tab_stop`, and the screen has no stop in the words that `CSI 3 g` leaves. -/
def TabFits (p : Parser σ) : TabChange → Prop
  | .next => ScanFits p
  | .add | .remove => p.x < 256
  | .removeAll => ∀ s < 256, ((s : ℕ) : ℤ) ∈ stops p → (s : ℤ) < p.width → s < 160
  | .keep | .reset => True

/-- The columns of the screen in both sets are the same. -/
def SameBelow (width : ℤ) (columns columns' : Set ℤ) : Prop := ∀ x < width, x ∈ columns ↔ x ∈ columns'

lemma sameBelow_of_eq {width : ℤ} {columns columns' : Set ℤ} (h : columns = columns') :
    SameBelow width columns columns' := fun _ _ => by rw [h]

lemma SameBelow.trans {width : ℤ} {A B C : Set ℤ} (h : SameBelow width A B) (h' : SameBelow width B C) :
    SameBelow width A C := fun x hx => (h x hx).trans (h' x hx)

lemma SameBelow.change {width : ℤ} {A B : Set ℤ} (h : SameBelow width A B) (change : TabChange) (x : ℤ) :
    SameBelow width (changeStops change x A) (changeStops change x B) := by
  intro y hy
  cases change with
  | keep | next => exact h y hy
  | add => exact or_congr_right (h y hy)
  | remove => exact and_congr_left' (h y hy)
  | removeAll | reset => rfl

structure ChangesTabs (change : TabChange) (p q : Parser σ) : Prop where
  width : q.width = p.width
  placed : Placed q
  length : q.tabStop.length = 8
  stops : SameBelow p.width (stops q) (changeStops change p.x (stops p))
  next : change = .next → IsNextStop (LinuxParser.stops p) p.width p.x q.x
  inside : ∀ y ∈ accessed change p.x q.x, 0 ≤ y / 32 ∧ y / 32 < 8

lemma stops_congr (h : q.tabStop = p.tabStop) : stops q = stops p := by
  rw [stops, stops, h]

lemma TabFrame.changes (h : TabFrame p q) (hp : Placed p) (hl : p.tabStop.length = 8) : ChangesTabs .keep p q :=
  ⟨h.width, h.placed hp, by rw [h.tabStop, hl], sameBelow_of_eq (stops_congr h.tabStop), nofun, nofun⟩

lemma storeTabWord_length (hl : p.tabStop.length = 8) (hx : hasTabWord x) (word : ℕ) :
    (storeTabWord host p x word).tabStop.length = 8 := by
  rw [storeTabWord, if_pos hx]
  exact List.length_set.trans hl

lemma storeTabWord_keeps (host : Host σ) (p : Parser σ) (hx : hasTabWord x) (word : ℕ) :
    (storeTabWord host p x word).width = p.width ∧ (storeTabWord host p x word).x = p.x := by
  rw [storeTabWord, if_pos hx]
  exact ⟨rfl, rfl⟩

lemma store_placed (hp : Placed p) (hx : hasTabWord x) (word : ℕ) : Placed (storeTabWord host p x word) := by
  obtain ⟨hwidth, hcolumn⟩ := storeTabWord_keeps host p hx word
  refine hp.of_mem hwidth ?_
  rw [hcolumn]
  exact hp.mem

/-- The state differs in other things than tab stops, width and column. -/
structure SameTabs (p q : Parser σ) : Prop where
  tabStop : q.tabStop = p.tabStop
  width : q.width = p.width
  x : q.x = p.x

lemma SameTabs.placed (h : SameTabs p q) (hp : Placed p) : Placed q :=
  (tabFrame_of_eq h.tabStop h.width h.x).placed hp

lemma changes_add (h : SameTabs p q) (hp : Placed p) (hl : p.tabStop.length = 8) (hfits : p.x < 256) :
    ChangesTabs .add p (setTabStop host q) := by
  have hx : hasTabWord q.x := hasTabWord_iff.mpr ⟨by rw [h.x]; exact hp.x_nonneg, by rw [h.x]; exact hfits⟩
  have hlq : q.tabStop.length = 8 := by rw [h.tabStop, hl]
  refine ⟨(storeTabWord_keeps host q hx _).1.trans h.width, store_placed (h.placed hp) hx _, storeTabWord_length hlq hx _,
    ?_, nofun, ?_⟩
  · apply sameBelow_of_eq
    rw [stops_setTabStop hlq hx, stops_congr h.tabStop, h.x]
    rfl
  · rintro y rfl
    rw [← h.x]
    exact hx

lemma changes_remove (h : SameTabs p q) (hp : Placed p) (hl : p.tabStop.length = 8) (hfits : p.x < 256) :
    ChangesTabs .remove p (clearTabStop host q) := by
  have hx : hasTabWord q.x := hasTabWord_iff.mpr ⟨by rw [h.x]; exact hp.x_nonneg, by rw [h.x]; exact hfits⟩
  have hlq : q.tabStop.length = 8 := by rw [h.tabStop, hl]
  refine ⟨(storeTabWord_keeps host q hx _).1.trans h.width, store_placed (h.placed hp) hx _, storeTabWord_length hlq hx _,
    ?_, nofun, ?_⟩
  · apply sameBelow_of_eq
    rw [stops_clearTabStop hlq hx, stops_congr h.tabStop, h.x]
    rfl
  · rintro y rfl
    rw [← h.x]
    exact hx

lemma changes_clearTabs (h : SameTabs p q) (hp : Placed p) (hl : p.tabStop.length = 8) {n : ℤ} (hn : parAt q 0 = n)
    (hfits : TabFits p (parChange n)) : ChangesTabs (parChange n) p (clearTabs host q) := by
  rw [clearTabs, hn]
  rw [parChange] at hfits ⊢
  split_ifs at hfits ⊢ with h0 h3
  · exact changes_remove h hp hl hfits
  · have hwords : q.tabStop = p.tabStop := h.tabStop
    have hclear := stops_clearWords (q := { q with tabStop := List.replicate 5 0 ++ q.tabStop.drop 5 }) hfits
      (by rw [hwords])
    refine ⟨h.width, (h.placed hp).of_mem rfl (h.placed hp).mem, ?_, fun y hy => ?_, ?_, ?_⟩
    · rw [List.length_append, List.length_replicate, List.length_drop, hwords, hl]
    · exact iff_of_false (hclear y hy) (Set.notMem_empty y)
    · intro hnext
      cases hnext
    · intro y hy
      cases hy
  · exact (tabFrame_of_eq h.tabStop h.width h.x).changes hp hl

lemma changes_reset (h : SameTabs p q) (hp : Placed p) : ChangesTabs .reset p (resetTerminal q).parser := by
  have hplaced : Placed (resetTerminal q).parser := (h.placed hp).of_mem rfl ((h.placed hp).clampInto_mem 0)
  have hwords : (resetTerminal q).parser.tabStop = 0x01010100 :: List.replicate 7 0x01010101 := rfl
  refine ⟨h.width, hplaced, ?_, sameBelow_of_eq (stops_default hwords), nofun, nofun⟩
  rw [hwords]
  rfl

lemma letter_toNat (hc : byteChar c = 'g' ∨ byteChar c = 'H' ∨ byteChar c = 'c') :
    c.toNat = 103 ∨ c.toNat = 72 ∨ c.toNat = 99 := by
  revert hc
  exact forall_byte (P := fun c => byteChar c = 'g' ∨ byteChar c = 'H' ∨ byteChar c = 'c' →
    c.toNat = 103 ∨ c.toNat = 72 ∨ c.toNat = 99) (by decide) c

/-! The final byte of `CSI g` in each state, `ESC H` and `ESC c`. -/

section Letters

variable (host)

lemma escState_sets (hc : byteChar c = 'H') (p : Parser σ) :
    (escState host c p).parser = setTabStop host (setState .normal p) := by
  simp only [escState, hc]
  rfl

lemma escState_resets (hc : byteChar c = 'c') (p : Parser σ) :
    (escState host c p).parser = (resetTerminal (setState .normal p)).parser := by
  simp only [escState, hc]

lemma gotparsState_clears (hc : byteChar c = 'g') (hques : q.ques = false) :
    (gotparsState host c q).parser = clearTabs host (setState .normal q) := by
  simp only [gotparsState, hc]
  rw [if_neg (by rw [setState, hques]; decide)]
  simp only [csiFinal, hc]
  rfl

lemma getparsState_clears (hc : byteChar c = 'g') (hques : q.ques = false) :
    (getparsState host c q).parser = clearTabs host (setState .normal (setState .gotpars q)) := by
  have hbyte := letter_toNat (.inl hc)
  rw [getparsState, if_neg (by omega), if_neg (by omega)]
  exact gotparsState_clears host hc hques

lemma squareState_clears (hc : byteChar c = 'g') (q : Parser σ) :
    (squareState host c q).parser = clearTabs host (setState .normal (setState .gotpars (opened q))) := by
  have hbyte := letter_toNat (.inl hc)
  have hques : decide (c.toNat = 63) = false := decide_eq_false (by omega)
  simp only [squareState, hques]
  rw [if_neg (show ¬c.toNat = 91 by omega), if_neg Bool.false_ne_true]
  exact getparsState_clears host (q := opened q) hc rfl

end Letters

lemma processState_changes (hp : Placed p) (hl : p.tabStop.length = 8) (h9 : c ≠ 9) (hfits : TabFits p (tabChange c p)) :
    ChangesTabs (tabChange c p) p (processState host c p).parser := by
  rw [tabChange, if_neg h9] at hfits ⊢
  rw [processState]
  have hkeep {q : Parser σ} (hq : TabFrame p q) : ChangesTabs .keep p q := hq.changes hp hl
  have hnormal : SameTabs p (setState .normal p) := ⟨rfl, rfl, rfl⟩
  cases hs : p.vcState with
  | esc =>
    rw [hs] at hfits
    dsimp only at hfits ⊢
    split_ifs at hfits ⊢ with hH hc
    · rw [escState_sets host hH]
      exact changes_add hnormal hp hl hfits
    · rw [escState_resets host hc]
      exact changes_reset hnormal hp
    · exact hkeep (escState_byteFrame hH hc p).toTabFrame
  | square =>
    rw [hs] at hfits
    dsimp only at hfits ⊢
    split_ifs at hfits ⊢ with hc
    · rw [squareState_clears host hc]
      have hopened : SameTabs p (setState .normal (setState .gotpars (opened p))) := ⟨rfl, rfl, rfl⟩
      exact changes_clearTabs hopened hp hl (n := 0) rfl hfits
    · exact hkeep (squareState_byteFrame hc p).toTabFrame
  | getpars =>
    rw [hs] at hfits
    dsimp only at hfits ⊢
    split_ifs at hfits ⊢ with hc
    · have hnormal' : SameTabs p (setState .normal (setState .gotpars p)) := ⟨rfl, rfl, rfl⟩
      rw [getparsState_clears host hc.1 hc.2]
      exact changes_clearTabs hnormal' hp hl rfl hfits
    · exact hkeep (getparsState_byteFrame fun hques hg => hc ⟨hg, hques⟩).toTabFrame
  | gotpars =>
    rw [hs] at hfits
    dsimp only at hfits ⊢
    split_ifs at hfits ⊢ with hc
    · rw [gotparsState_clears host hc.1 hc.2]
      exact changes_clearTabs hnormal hp hl rfl hfits
    · exact hkeep (gotparsState_byteFrame fun hques hg => hc ⟨hg, hques⟩).toTabFrame
  | normal | ignore => exact hkeep (normalState_tabFrame c p)
  | nonstd | titleSemi | titleBuf | percent | setG0 | setG1 | palette | funckey | hash =>
    have hplain : ByteFrame p (processState host c p).parser := plainState_byteFrame (by rw [hs]; decide)
    rw [processState, hs] at hplain
    exact hkeep hplain.toTabFrame

lemma changes_tab (hp : Placed p) (hl : p.tabStop.length = 8) (hfits : ScanFits p) :
    ChangesTabs .next p (tab host p).parser := by
  obtain ⟨hnext, hle, hlt, hwords⟩ := tab_spec host hp hfits
  have h0 := hp.x_nonneg
  have hplaced : Placed (tab host p).parser := hp.of_mem rfl ⟨h0.trans hle, hlt.le⟩
  exact ⟨rfl, hplaced, hl, fun _ _ => Iff.rfl, fun _ => hnext, fun y hy => hwords y hy.1 hy.2⟩

lemma letter_notControl (hc : byteChar c = 'g' ∨ byteChar c = 'H' ∨ byteChar c = 'c') : c.toNat ∉ controlCodes := by
  rcases letter_toNat hc with h | h | h <;> rw [h] <;> decide

lemma tabChange_control (hc : c.toNat ∈ controlCodes) (h9 : c ≠ 9) (p : Parser σ) : tabChange c p = .keep := by
  have hg : byteChar c ≠ 'g' := fun h => letter_notControl (.inl h) hc
  have hH : byteChar c ≠ 'H' := fun h => letter_notControl (.inr (.inl h)) hc
  have hreset : byteChar c ≠ 'c' := fun h => letter_notControl (.inr (.inr h)) hc
  rw [tabChange, if_neg h9]
  cases p.vcState <;> simp only [if_neg hg, if_neg hH, if_neg hreset, if_neg fun h : byteChar c = 'g' ∧ _ => hg h.1]

lemma processByte_changes (host : Host σ) (hp : Placed p) (hl : p.tabStop.length = 8) (hfits : TabFits p (tabChange c p)) :
    ChangesTabs (tabChange c p) p (processByte host c p).parser := by
  by_cases h9 : c = 9
  · subst h9
    exact changes_tab hp hl hfits
  · by_cases hc : c.toNat ∈ controlCodes
    · rw [tabChange_control hc h9]
      have hframe : ByteFrame p (processByte host c p).parser :=
        control_byteFrame hc fun h => h9 (UInt8.toNat_inj.mp h)
      exact hframe.toTabFrame.changes hp hl
    · rw [processByte_state hc]
      exact processState_changes hp hl h9 hfits

/-! Runs, with the set of columns that the control functions should leave. -/

def trackedStep (host : Host σ) (s : Parser σ × Set ℤ) (c : UInt8) : Parser σ × Set ℤ :=
  ((processByte host c s.1).parser, changeStops (tabChange c s.1) s.1.x s.2)

/-- The stops of the screen are the columns, `HT` goes to the next of them, and no index is outside of `tab_stop`. -/
structure FollowsStops (host : Host σ) (s : Parser σ × Set ℤ) (c : UInt8) : Prop where
  stops : SameBelow s.1.width (stops s.1) s.2
  next : tabChange c s.1 = .next → IsNextStop s.2 s.1.width s.1.x (processByte host c s.1).parser.x
  inside : ∀ y ∈ accessed (tabChange c s.1) s.1.x (processByte host c s.1).parser.x, 0 ≤ y / 32 ∧ y / 32 < 8

def StopsFit (s : Parser σ × Set ℤ) (c : UInt8) : Prop := TabFits s.1 (tabChange c s.1)

structure Tracked (s : Parser σ × Set ℤ) : Prop where
  placed : Placed s.1
  length : s.1.tabStop.length = 8
  stops : SameBelow s.1.width (stops s.1) s.2

lemma tracked_step (host : Host σ) (s : Parser σ × Set ℤ) (c : UInt8) (hs : Tracked s) (hfits : StopsFit s c) :
    Tracked (trackedStep host s c) := by
  have hchange := processByte_changes host hs.placed hs.length hfits
  refine ⟨hchange.placed, hchange.length, ?_⟩
  have hnew := hchange.stops.trans (hs.stops.change (tabChange c s.1) s.1.x)
  rw [← hchange.width] at hnew
  exact hnew

lemma IsNextStop.congr {A B : Set ℤ} {width next : ℤ} (h : SameBelow width A B) (hnext : IsNextStop A width x next) :
    IsNextStop B width x next := by
  rcases hnext with ⟨hmem, hlt, hwidth, hfirst⟩ | ⟨hlast, hnone⟩
  · refine .inl ⟨(h next hwidth).mp hmem, hlt, hwidth, fun s hs hxs => ?_⟩
    by_cases hsw : s < width
    · exact hfirst s ((h s hsw).mpr hs) hxs
    · omega
  · refine .inr ⟨hlast, fun s hs hxs => ?_⟩
    by_contra hsw
    exact hsw (hnone s ((h s (not_le.mp hsw)).mpr hs) hxs)

lemma follows_of_tracked (host : Host σ) (s : Parser σ × Set ℤ) (c : UInt8) (hs : Tracked s) (hfits : StopsFit s c) :
    FollowsStops host s c := by
  have hchange := processByte_changes host hs.placed hs.length hfits
  exact ⟨hs.stops, fun hnext => (hchange.next hnext).congr hs.stops, hchange.inside⟩

theorem tabStops_run (host : Host σ) (p : Parser σ) (hp : Placed p) (hl : p.tabStop.length = 8) (cs : List UInt8)
    (h : Along (trackedStep host) StopsFit (p, stops p) cs) :
    Along (trackedStep host) (FollowsStops host) (p, stops p) cs ∧
      Tracked (run (trackedStep host) (p, stops p) cs) := by
  have htracked : Tracked (p, stops p) := ⟨hp, hl, fun _ _ => Iff.rfl⟩
  constructor
  · exact (run_along (tracked_step host) htracked h).imp fun s c hs => follows_of_tracked host s c hs.1 hs.2
  · exact run_invariant (tracked_step host) htracked h

instance (p : Parser σ) (y : ℤ) : Decidable (y ∈ stops p) := inferInstanceAs (Decidable (_ ∧ _))

instance (p : Parser σ) : Decidable (ScanFits p) := inferInstanceAs (Decidable (_ ∧ _))

instance (p : Parser σ) (change : TabChange) : Decidable (TabFits p change) :=
  match change with
  | .next => inferInstanceAs (Decidable (ScanFits p))
  | .add | .remove => inferInstanceAs (Decidable (p.x < 256))
  | .removeAll => Nat.decidableBallLT 256 fun s _ => ((s : ℤ) ∈ stops p → (s : ℤ) < p.width → s < 160)
  | .keep | .reset => inferInstanceAs (Decidable True)

instance (s : Parser σ × Set ℤ) (c : UInt8) : Decidable (StopsFit s c) :=
  inferInstanceAs (Decidable (TabFits s.1 (tabChange c s.1)))

/-- `HT`, `CSI 3 g`, `ESC H` in column 10, `HT` twice from column 0, `CSI g`, reset and `HT`. -/
def tabCommands : List UInt8 :=
  [9, 27, 91, 51, 103, 32, 32, 27, 72, 13, 9, 9, 27, 91, 103, 27, 99, 9]

def latinTerminal (size : ScreenSize) : Parser Unit := initial size none

lemma latinTerminal_placed (size : ScreenSize) : Placed (latinTerminal size) := by
  have hsane := initial_sane size (none : Option Unit)
  exact ⟨hsane.width_pos, hsane.x_nonneg, hsane.x_le⟩

theorem tabStops_run_commands :
    Placed (latinTerminal size80x24) ∧ (latinTerminal size80x24).tabStop.length = 8 ∧
      Along (trackedStep latinHost) StopsFit (latinTerminal size80x24, stops (latinTerminal size80x24)) tabCommands ∧
        Along (trackedStep latinHost) (FollowsStops latinHost)
            (latinTerminal size80x24, stops (latinTerminal size80x24)) tabCommands ∧
          Tracked (run (trackedStep latinHost)
            (latinTerminal size80x24, stops (latinTerminal size80x24)) tabCommands) := by
  have hp := latinTerminal_placed size80x24
  have hfits : Along (trackedStep latinHost) StopsFit
      (latinTerminal size80x24, stops (latinTerminal size80x24)) tabCommands := by decide +kernel
  exact ⟨hp, rfl, hfits, tabStops_run latinHost (latinTerminal size80x24) hp rfl tabCommands hfits⟩

def size200x24 : ScreenSize where
  width := 200
  height := 24
  width_pos := by decide
  width_lt := by decide
  height_pos := size80x24.height_pos
  height_lt := size80x24.height_lt

/-- On a screen of 200 columns `CSI 3 g` leaves the stops from column 160 on. -/
theorem stops_left_by_csi_3_g :
    ¬∀ cs : List UInt8,
      Along (trackedStep latinHost) (FollowsStops latinHost)
          (latinTerminal size200x24, stops (latinTerminal size200x24)) cs ∧
        Tracked (run (trackedStep latinHost) (latinTerminal size200x24, stops (latinTerminal size200x24)) cs) := by
  intro hall
  have htracked := (hall ([27, 91, 51] ++ [103])).2
  have hleft : (160 : ℤ) ∈ stops (run (trackedStep latinHost)
      (latinTerminal size200x24, stops (latinTerminal size200x24)) ([27, 91, 51] ++ [103])).1 := by decide
  have hwidth : (160 : ℤ) < (run (trackedStep latinHost)
      (latinTerminal size200x24, stops (latinTerminal size200x24)) ([27, 91, 51] ++ [103])).1.width := by decide
  have hchange : tabChange 103 (run (trackedStep latinHost)
      (latinTerminal size200x24, stops (latinTerminal size200x24)) [27, 91, 51]).1 = .removeAll := by decide
  have hcolumn := (htracked.stops 160 hwidth).mp hleft
  rw [run_append, run_cons, run_nil, trackedStep, hchange] at hcolumn
  exact hcolumn

end Xperimentum.Terminal.LinuxParser
