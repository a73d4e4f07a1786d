import Mathlib.Tactic
import Xperimentum.Terminal.SelectionInvariant

/-! The text of the selection: of each row that is selected to its end, the blanks at the end give a
newline. -/

namespace Xperimentum.Terminal.TerminalView

open Xperimentum.Lib.Memory Xperimentum.Lib.Partial

variable {v w : View} {lo hi i j : ℤ} {n : ℕ}

def charAt (v : View) (i : ℤ) : ℕ := ((cellAt v i).getD zeroCell).ch

def chars (v : View) (lo hi : ℤ) : List ℕ := (Int.range lo hi).map (charAt v)

def textChar (ch : ℕ) : ℕ := if isBlank ch then 0x20 else ch

def closedRow : List ℕ → List ℕ
  | [] => []
  | ch :: rest => if (ch :: rest).all isBlank then [0x0a] else textChar ch :: closedRow rest

/-- What the cells from `lo` to `hi` have of a row. -/
def rowText (v : View) (lo hi row : ℤ) : List ℕ :=
  let first := max lo (row * v.sx)
  if (row + 1) * v.sx ≤ hi then closedRow (chars v first ((row + 1) * v.sx)) else (chars v first hi).map textChar

def textOf (v : View) (lo hi : ℤ) : List ℕ :=
  (Int.range (lo / v.sx) ((hi - 1) / v.sx + 1)).flatMap (rowText v lo hi)

def rowEnd (v : View) (i : ℤ) : ℤ := (i / v.sx + 1) * v.sx

def AllBlank (v : View) (lo hi : ℤ) : Prop := ∀ i, lo ≤ i → i < hi → isBlank (charAt v i) = true

instance (v : View) (lo hi : ℤ) : Decidable (AllBlank v lo hi) := Int.decidableLELT _ lo hi

section Rows

lemma range_eq_nil (h : hi ≤ lo) : Int.range lo hi = [] := by
  have hzero : (hi - lo).toNat = 0 := by omega
  rw [Int.range, hzero]
  rfl

lemma range_eq_cons (h : lo < hi) : Int.range lo hi = lo :: Int.range (lo + 1) hi := by
  have hsucc : (hi - lo).toNat = (hi - (lo + 1)).toNat + 1 := by omega
  have hnext : (fun r : ℕ => lo + (r : ℤ)) ∘ Nat.succ = fun r : ℕ => lo + 1 + (r : ℤ) := by
    funext r
    simp only [Function.comp_apply, Nat.succ_eq_add_one, Nat.cast_add, Nat.cast_one]
    ring
  rw [Int.range, hsucc, List.range_succ_eq_map, List.map_cons, List.map_map, hnext, Nat.cast_zero, add_zero]
  rfl

lemma chars_nil (h : hi ≤ lo) : chars v lo hi = [] := by
  rw [chars, range_eq_nil h]
  rfl

lemma chars_cons (h : lo < hi) : chars v lo hi = charAt v lo :: chars v (lo + 1) hi := by
  rw [chars, range_eq_cons h]
  rfl

lemma all_chars : (chars v lo hi).all isBlank = true ↔ AllBlank v lo hi := by
  rw [chars, List.all_map, List.all_eq_true]
  exact ⟨fun h i hl hu => h i (Int.mem_range_iff.mpr ⟨hl, hu⟩), fun h i hi =>
    h i (Int.mem_range_iff.mp hi).1 (Int.mem_range_iff.mp hi).2⟩

lemma lt_rowEnd (hx : 1 ≤ v.sx) (i : ℤ) : i < rowEnd v i := by
  have h := Int.lt_ediv_add_one_mul_self i (by omega : 0 < v.sx)
  exact h

lemma row_le (hx : 1 ≤ v.sx) (i : ℤ) : i / v.sx * v.sx ≤ i := Int.ediv_mul_le i (by omega)

lemma rowEnd_eq (hx : 1 ≤ v.sx) (hl : i / v.sx * v.sx ≤ j) (hu : j < rowEnd v i) :
    j / v.sx = i / v.sx := by
  rw [Int.ediv_eq_iff_of_pos (by omega)]
  rw [rowEnd, add_mul, one_mul] at hu
  exact ⟨hl, hu⟩

lemma rowEnd_le {row : ℤ} (hx : 1 ≤ v.sx) (h : i / v.sx ≤ row) : rowEnd v i ≤ (row + 1) * v.sx :=
  mul_le_mul_of_nonneg_right (by omega) (by omega)

lemma rowEnd_row (hx : 1 ≤ v.sx) (i : ℤ) : rowEnd v i / v.sx = i / v.sx + 1 := Int.mul_ediv_cancel _ (by omega)

lemma textOf_nil (hx : 1 ≤ v.sx) (h : hi ≤ lo) : textOf v lo hi = [] := by
  refine List.flatMap_eq_nil_iff.mpr fun row hrow => ?_
  have hlast := rowEnd_le hx (Int.mem_range_iff.mp hrow).1
  have hlt := lt_rowEnd hx lo
  have hfirst : lo ≤ max lo (row * v.sx) := le_max_left _ _
  simp only [rowText]
  rw [if_neg (by omega), chars_nil (by omega)]
  rfl

lemma textOf_row (hx : 1 ≤ v.sx) (h : lo < hi) :
    textOf v lo hi = (if rowEnd v lo ≤ hi then closedRow (chars v lo (rowEnd v lo)) else (chars v lo hi).map textChar) ++
      textOf v (rowEnd v lo) hi := by
  have hrows : lo / v.sx < (hi - 1) / v.sx + 1 := by
    have hle := Int.ediv_le_ediv (by omega : 0 < v.sx) (by omega : lo ≤ hi - 1)
    omega
  have hfirst : max lo (lo / v.sx * v.sx) = lo := max_eq_left (row_le hx lo)
  rw [textOf, range_eq_cons hrows, List.flatMap_cons, textOf, rowEnd_row hx]
  refine congrArg₂ _ ?_ (List.flatMap_congr fun row hrow => ?_)
  · rw [rowText, hfirst]
    rfl
  · have hnext : rowEnd v lo ≤ row * v.sx :=
      mul_le_mul_of_nonneg_right (Int.mem_range_iff.mp hrow).1 (by omega)
    have hlt := lt_rowEnd hx lo
    have hstart : max lo (row * v.sx) = max (rowEnd v lo) (row * v.sx) := by
      rw [max_eq_right (by omega), max_eq_right hnext]
    simp only [rowText, hstart]

lemma textOf_closed (hx : 1 ≤ v.sx) (hend : rowEnd v lo ≤ hi) (hblank : AllBlank v lo (rowEnd v lo)) :
    textOf v lo hi = 0x0a :: textOf v (rowEnd v lo) hi := by
  have hlt := lt_rowEnd hx lo
  have hall := all_chars.mpr hblank
  rw [textOf_row hx (by omega), if_pos hend]
  rw [chars_cons hlt] at hall ⊢
  rw [closedRow, if_pos hall]
  rfl

lemma textOf_cell (hx : 1 ≤ v.sx) (h : lo < hi) (hopen : rowEnd v lo ≤ hi → ¬AllBlank v lo (rowEnd v lo)) :
    textOf v lo hi = textChar (charAt v lo) :: textOf v (lo + 1) hi := by
  have hlt := lt_rowEnd hx lo
  have hsame (hin : lo + 1 < rowEnd v lo) : rowEnd v (lo + 1) = rowEnd v lo := by
    have hle := row_le hx lo
    rw [rowEnd, rowEnd_eq hx (by omega) hin]
    rfl
  rw [textOf_row hx h]
  split_ifs with hend
  · have hall : ¬(charAt v lo :: chars v (lo + 1) (rowEnd v lo)).all isBlank = true := by
      rw [← chars_cons hlt, all_chars]
      exact hopen hend
    rw [chars_cons hlt, closedRow, if_neg hall, List.cons_append]
    refine congrArg _ ?_
    by_cases hin : lo + 1 < rowEnd v lo
    · rw [textOf_row hx (by omega : lo + 1 < hi), hsame hin, if_pos hend]
    · have hlast : rowEnd v lo = lo + 1 := by omega
      rw [hlast, chars_nil le_rfl]
      rfl
  · rw [chars_cons h, List.map_cons, List.cons_append]
    refine congrArg _ ?_
    by_cases hin : lo + 1 < hi
    · have hrow : lo + 1 < rowEnd v lo := by omega
      rw [textOf_row hx hin, hsame hrow, if_neg hend]
    · rw [chars_nil (by omega), textOf_nil hx (by omega : hi ≤ rowEnd v lo), textOf_nil hx (by omega : hi ≤ lo + 1)]
      rfl

end Rows

section Reading

lemma rowEnd_same (hx : 1 ≤ v.sx) (hl : i ≤ j) (hu : j < rowEnd v i) : rowEnd v j = rowEnd v i := by
  rw [rowEnd, rowEnd_eq hx ((row_le hx i).trans hl) hu]
  rfl

lemma textOf_blanks {e : ℤ} (hx : 1 ≤ v.sx) (hj : i + n ≤ j) (hblank : AllBlank v i (i + n))
    (hrow : ∀ k, i ≤ k → k < i + n → rowEnd v k = e)
    (hopen : e ≤ j → ∃ k, i + n ≤ k ∧ k < e ∧ isBlank (charAt v k) = false) :
    textOf v i j = List.replicate n 0x20 ++ textOf v (i + n) j := by
  induction n generalizing i with
  | zero => rw [Nat.cast_zero, add_zero, List.replicate_zero, List.nil_append]
  | succ n ih =>
    rw [Nat.cast_succ, add_comm (n : ℤ), ← add_assoc] at hj hblank hrow hopen ⊢
    have hfirst : textChar (charAt v i) = 0x20 := if_pos (hblank i le_rfl (by omega))
    have hend := hrow i le_rfl (by omega)
    rw [textOf_cell hx (by omega), hfirst, ih hj (fun k hl hu => hblank k (by omega) hu)
      (fun k hl hu => hrow k (by omega) hu) hopen]
    · rfl
    · rw [hend]
      intro he hall
      obtain ⟨k, hl, hu, hchar⟩ := hopen he
      rw [hall k (by omega) hu] at hchar
      cases hchar

lemma charAt_eq {c : LinuxParser.ScreenChar} (h : cellAt v i = some c) : charAt v i = c.ch := by
  rw [charAt, h]
  rfl

lemma Sized.cellAt_lt (hv : Sized v) {c : LinuxParser.ScreenChar} (h : cellAt v i = some c) : i < v.sx * v.sy := by
  have hx := hv.sx_pos
  have hy := hv.sy_pos
  have hlength := hv.screen_length
  have hpos : 0 < v.sx * v.sy := mul_pos (by omega) (by omega)
  rw [mul_comm] at hlength
  rw [cellAt] at h
  split_ifs at h with hneg
  · omega
  · rw [Lib.Memory.read, if_pos (by omega)] at h
    obtain ⟨hlt, _⟩ := List.getElem?_eq_some_iff.mp h
    omega

/-- Reading has stopped at another character. -/
structure Found (v : View) (start : ℤ) (r : BlankRun) : Prop where
  place : r.i = start + r.wsLen
  blank : AllBlank v start r.i
  row : r.i < rowEnd v start
  inside : r.i < v.sx * v.sy
  char : charAt v r.i = r.ch
  visible : isBlank r.ch = false

/-- Reading has stopped at the end of a row that is not selected as far as that. -/
structure Left (v : View) (j start : ℤ) (r : BlankRun) : Prop where
  none : r.wsLen = 0
  blank : AllBlank v start r.i
  row : r.i = rowEnd v start
  behind : j < r.i
  inside : r.i ≤ v.sx * v.sy

lemma rowEnd_of_mod (hx : 1 ≤ v.sx) {s : ℤ} (hs : s ≤ i) (hi : i < rowEnd v s) (hmod : (i + 1) % v.sx = 0) :
    rowEnd v s = i + 1 := by
  obtain ⟨q, hq⟩ := Int.dvd_of_emod_eq_zero hmod
  have hle := row_le hx s
  have hless : s / v.sx < q := by
    rw [mul_comm] at hq
    exact lt_of_mul_lt_mul_right (by omega : s / v.sx * v.sx < q * v.sx) (by omega)
  have hmul : (s / v.sx + 1) * v.sx ≤ q * v.sx := mul_le_mul_of_nonneg_right hless (by omega)
  rw [mul_comm q, ← hq] at hmul
  exact le_antisymm hmul hi

lemma skipBlanks_reads (hv : Sized v) {r : BlankRun} {wsLen : ℕ} {text : List ℕ} {s : ℤ}
    (h : skipBlanks v j n i wsLen text = some r) (hs : i = s + wsLen) (hj : s ≤ j) (hrow : i < rowEnd v s)
    (hblank : AllBlank v s i) :
    ∃ t, s ≤ t ∧ t ≤ j ∧ (t = s ∨ t % v.sx = 0) ∧ text ++ textOf v s j = r.text ++ textOf v t j ∧
      (Found v t r ∨ Left v j t r) := by
  have hx := hv.sx_pos
  induction n generalizing i wsLen text s with
  | zero => cases h
  | succ n ih =>
    rw [skipBlanks] at h
    obtain ⟨c, hc, h⟩ := Option.bind_eq_some_iff.mp h
    have hchar := charAt_eq hc
    have hinside := hv.cellAt_lt hc
    split_ifs at h with hvisible hmod hpast
    · obtain rfl := Option.some.inj h
      exact ⟨s, le_rfl, hj, .inl rfl, rfl, .inl ⟨hs, hblank, hrow, hinside, hchar, hvisible⟩⟩
    all_goals
      have hnext : AllBlank v s (i + 1) := by
        intro k hl hu
        rcases (Int.lt_add_one_iff.mp hu).lt_or_eq with hk | rfl
        · exact hblank k hl hk
        · rw [hchar]
          exact Bool.eq_true_of_not_eq_false hvisible
    · obtain rfl := Option.some.inj h
      have hend := rowEnd_of_mod hx (by omega) hrow hmod
      exact ⟨s, le_rfl, hj, .inl rfl, rfl, .inr ⟨rfl, hnext, hend.symm, hpast, by simp only; omega⟩⟩
    · have hend := rowEnd_of_mod hx (by omega) hrow hmod
      obtain ⟨t, hl, hu, hstart, htext, hstops⟩ := ih h (s := i + 1) (by simp) (by omega) (lt_rowEnd hx _)
        fun k hl hu => absurd hu (by omega)
      refine ⟨t, by omega, hu, .inr ?_, ?_, hstops⟩
      · rcases hstart with rfl | hstart
        · exact hmod
        · exact hstart
      · rw [← htext, textOf_closed hx (by omega) (by rw [hend]; exact hnext), hend, List.append_assoc]
        rfl
    · refine ih h (by rw [hs, Nat.cast_succ]; ring) hj ?_ hnext
      refine lt_of_le_of_ne hrow fun hend => hmod ?_
      rw [hend]
      exact Int.mul_emod_left _ _

/-- The cell in front of `j` and the rest of its row are blank, and reading does not stop at `j`. -/
def BlankTail (v : View) (j : ℤ) : Prop :=
  AllBlank v (j - 1) (rowEnd v (j - 1)) ∧ (j = v.sx * v.sy ∨ j % v.sx ≠ 0)

instance (v : View) (j : ℤ) : Decidable (BlankTail v j) := inferInstanceAs (Decidable (_ ∧ _))

lemma not_blankTail (hx : 1 ≤ v.sx) (h : isBlank (charAt v (j - 1)) = false) : ¬BlankTail v j := by
  rintro ⟨hblank, -⟩
  rw [hblank (j - 1) le_rfl (lt_rowEnd hx _)] at h
  cases h

lemma Found.textOf {r : BlankRun} {s : ℤ} (hx : 1 ≤ v.sx) (hr : Found v s r) (hn : n ≤ r.wsLen) (hj : s + n ≤ j) :
    textOf v s j = List.replicate n 0x20 ++ textOf v (s + n) j := by
  have hplace := hr.place
  apply textOf_blanks (e := rowEnd v s) hx hj
  · exact fun k hl hu => hr.blank k hl (by omega)
  · exact fun k hl hu => rowEnd_same hx hl (by have hrow := hr.row; omega)
  · intro _
    refine ⟨r.i, by omega, hr.row, ?_⟩
    rw [hr.char]
    exact hr.visible

lemma Found.not_blankTail {r : BlankRun} {s : ℤ} (hx : 1 ≤ v.sx) (hr : Found v s r) (hs : s < j) (hj : j ≤ r.i) :
    ¬BlankTail v j := by
  rintro ⟨hblank, -⟩
  have hrow := hr.row
  have hend := rowEnd_same hx (by omega : s ≤ j - 1) (by omega)
  have hchar := hblank r.i (by omega) (by omega)
  rw [hr.char, hr.visible] at hchar
  cases hchar

lemma Left.blankTail {r : BlankRun} {s : ℤ} (hx : 1 ≤ v.sx) (hr : Left v j s r) (hs : s < j) : BlankTail v j := by
  have hrow := hr.row
  have hbehind := hr.behind
  have hend := rowEnd_same hx (by omega : s ≤ j - 1) (by omega)
  refine ⟨fun k hl hu => hr.blank k (by omega) (by omega), .inr fun hmod => ?_⟩
  have hlast := rowEnd_of_mod (i := j - 1) (s := s) hx (by omega) (by omega) (by rwa [sub_add_cancel])
  omega

lemma not_blankTail_of_start (hmod : j % v.sx = 0) (hinside : j < v.sx * v.sy) : ¬BlankTail v j := by
  rintro ⟨-, hend | hin⟩
  · omega
  · exact hin hmod

lemma Left.textOf {r : BlankRun} {s : ℤ} (hx : 1 ≤ v.sx) (hr : Left v j s r) (hs : s < j) :
    0 < (TerminalView.textOf v s j).length := by
  have hrow := hr.row
  have hbehind := hr.behind
  rw [textOf_cell hx hs fun hle => absurd hle (by omega)]
  exact Nat.succ_pos _

lemma selectedText_reads (hv : Sized v) {text t : List ℕ} (h : selectedText v j n i text = some t) (hi : i ≤ j)
    (hlast : i = j → isBlank (charAt v (j - 1)) = false) :
    (t = text ++ textOf v i j ∧ ¬BlankTail v j) ∨ (t.length < (text ++ textOf v i j).length ∧ BlankTail v j) := by
  have hx := hv.sx_pos
  induction n generalizing i text with
  | zero => cases h
  | succ n ih =>
    rw [selectedText] at h
    split_ifs at h with hdone
    · obtain rfl := Option.some.inj h
      rw [textOf_nil hx hdone, List.append_nil]
      exact .inl ⟨rfl, not_blankTail hx (hlast (le_antisymm hi hdone))⟩
    obtain ⟨r, hr, h⟩ := Option.bind_eq_some_iff.mp h
    obtain ⟨s, hl, hu, hstart, htext, hfound | hleft⟩ := skipBlanks_reads hv hr (by simp) hi (lt_rowEnd hx i)
      fun k hl hu => absurd hu (by omega)
    · have hplace : r.i - r.wsLen = s := by
        have hp := hfound.place
        omega
      simp only [hplace] at h
      split_ifs at h with hstop
      · -- the selection ends inside of the run
        obtain rfl := Option.some.inj h
        have hcount : s + (min r.wsLen (j - s).toNat : ℕ) = j := by omega
        have hspaces := hfound.textOf hx (min_le_left _ _) hcount.le
        rw [hcount, textOf_nil hx le_rfl, List.append_nil] at hspaces
        refine .inl ⟨?_, ?_⟩
        · rw [htext, hspaces]
        · rcases hu.lt_or_eq with hs | rfl
          · exact hfound.not_blankTail hx hs (by omega)
          · have hmod : s % v.sx = 0 := hstart.resolve_left (by omega)
            have hinside := hfound.inside
            have hp := hfound.place
            exact not_blankTail_of_start hmod (by omega)
      · have hall : min r.wsLen (j - s).toNat = r.wsLen := by omega
        have hp := hfound.place
        rw [hall] at h hstop
        rw [← hp] at h hstop
        have hrest := ih h (by omega) fun hend => by
          rw [← hend, add_sub_cancel_right, hfound.char]
          exact hfound.visible
        have hcell : textOf v r.i j = r.ch :: textOf v (r.i + 1) j := by
          rw [textOf_cell hx (by omega), hfound.char, textChar, hfound.visible]
          · rfl
          · intro _ hblank
            have hchar := hblank r.i le_rfl (lt_rowEnd hx _)
            rw [hfound.char, hfound.visible] at hchar
            cases hchar
        have hsame : r.text ++ List.replicate r.wsLen 0x20 ++ [r.ch] ++ textOf v (r.i + 1) j = text ++ textOf v i j := by
          rw [htext, hfound.textOf hx le_rfl (by omega), ← hp, hcell]
          simp only [List.append_assoc, List.singleton_append]
        rw [hsame] at hrest
        exact hrest
    · have hbehind := hleft.behind
      have hnone := hleft.none
      simp only [hnone, Nat.cast_zero, sub_zero, Nat.zero_min, List.replicate_zero, List.append_nil, add_zero] at h
      rw [if_pos (by omega)] at h
      obtain rfl := Option.some.inj h
      rcases hu.lt_or_eq with hs | rfl
      · refine .inr ⟨?_, hleft.blankTail hx hs⟩
        rw [htext, List.length_append]
        exact Nat.lt_add_of_pos_right (hleft.textOf hx hs)
      · have hmod : s % v.sx = 0 := hstart.resolve_left (by omega)
        have hinside := hleft.inside
        rw [htext, textOf_nil hx le_rfl, List.append_nil]
        exact .inl ⟨rfl, not_blankTail_of_start hmod (by omega)⟩

lemma blankTail_of_endsBlank (hx : 1 ≤ v.sx) (h : EndsBlank v) : BlankTail v v.selection.stop := by
  obtain ⟨hstop, c, hc, hblank⟩ := h
  have hend : rowEnd v (v.sx * v.sy - 1) = v.sx * v.sy := by
    have hlt := lt_rowEnd hx (v.sx * v.sy - 1)
    have hrow : (v.sx * v.sy - 1) / v.sx < v.sy := by
      refine Int.ediv_lt_of_lt_mul (by omega) ?_
      rw [mul_comm]
      omega
    have hle : rowEnd v (v.sx * v.sy - 1) ≤ v.sy * v.sx := mul_le_mul_of_nonneg_right hrow (by omega)
    rw [mul_comm v.sy] at hle
    omega
  refine ⟨fun k hl hu => ?_, .inl hstop⟩
  rw [hstop] at hl hu
  obtain rfl : k = v.sx * v.sy - 1 := by omega
  rw [charAt_eq hc]
  exact hblank

lemma selectionAsString_textOf (hv : Sound v) (hlength : 0 ≤ v.selection.length) :
    (Ensures (selectionAsString v) fun text => text.getD [] = textOf v v.selection.location v.selection.stop) ↔
      ¬(0 < v.selection.length ∧ BlankTail v v.selection.stop) := by
  have hx := hv.sx_pos
  by_cases hzero : v.selection.length = 0
  · have hstop : v.selection.stop = v.selection.location := by
      rw [SelectionRange.stop, hzero, add_zero]
    refine iff_of_true ?_ fun h => absurd h.1 (by omega)
    rw [selectionAsString, if_pos hzero, hstop, textOf_nil hx le_rfl]
    exact ensures_pure rfl
  · have hnonempty : v.selection.location < v.selection.stop := by
      rw [SelectionRange.stop]
      omega
    have hread {t : Option (List ℕ)} (ht : selectionAsString v = some t) :
        ∃ text, t = some text ∧ (text = textOf v v.selection.location v.selection.stop ∧
          ¬BlankTail v v.selection.stop ∨
          text.length < (textOf v v.selection.location v.selection.stop).length ∧ BlankTail v v.selection.stop) := by
      rw [selectionAsString, if_neg hzero] at ht
      obtain ⟨text, htext, ht⟩ := Option.bind_eq_some_iff.mp ht
      refine ⟨text, (Option.some.inj ht).symm, ?_⟩
      exact selectedText_reads hv.toSized htext hnonempty.le fun h => absurd h hnonempty.ne
    constructor
    · rintro ⟨t, ht, hgot⟩ ⟨-, htail⟩
      obtain ⟨text, rfl, ⟨-, hno⟩ | ⟨hshorter, -⟩⟩ := hread ht
      · exact hno htail
      · rw [Option.getD_some] at hgot
        rw [hgot] at hshorter
        exact hshorter.false
    · intro hno
      have hends : ¬(0 < v.selection.length ∧ EndsBlank v) :=
        fun h => hno ⟨h.1, blankTail_of_endsBlank hx h.2⟩
      obtain ⟨t, ht, -⟩ := selectionAsString_ensures hv hends
      obtain ⟨text, rfl, ⟨htext, -⟩ | ⟨-, htail⟩⟩ := hread ht
      · exact ⟨_, ht, htext⟩
      · exact absurd ⟨by omega, htail⟩ hno

end Reading

section Saved

/-- The view with no more memory than its screen and the lines that have been saved. -/
def savedOnly (v : View) : View :=
  { v with
    maxScrollback := v.sbLength
    sbuf := v.sbuf.drop ((v.maxScrollback - v.sbLength) * v.sx).toNat }

lemma cellAt_savedOnly (hv : Sound v) (i : ℤ) :
    cellAt (savedOnly v) i = if -(v.sbLength * v.sx) ≤ i ∧ i < v.sx * v.sy then cellAt v i else none := by
  have hsaved := hv.arranged.scrollback_le
  have hdropped : (v.maxScrollback - v.sbLength) * v.sx = v.maxScrollback * v.sx - v.sbLength * v.sx := sub_mul ..
  have hpos : 0 < v.sx * v.sy := mul_pos (by linarith [hv.sx_pos]) (by linarith [hv.sy_pos])
  by_cases hneg : i < 0
  · have hbelow : cellAt (savedOnly v) i = Lib.Memory.read
        (v.sbuf.drop ((v.maxScrollback - v.sbLength) * v.sx).toNat) (v.sbLength * v.sx + i) := if_pos hneg
    have hcell : cellAt v i = Lib.Memory.read v.sbuf (v.maxScrollback * v.sx + i) := if_pos hneg
    rw [hbelow, hcell, Lib.Memory.read, Lib.Memory.read]
    by_cases hl : -(v.sbLength * v.sx) ≤ i
    · have hindex : ((v.maxScrollback - v.sbLength) * v.sx).toNat + (v.sbLength * v.sx + i).toNat =
          (v.maxScrollback * v.sx + i).toNat := by omega
      rw [if_pos (by omega : 0 ≤ v.sbLength * v.sx + i), if_pos ⟨hl, by omega⟩, if_pos (by omega),
        List.getElem?_drop, hindex]
    · rw [if_neg (by omega : ¬0 ≤ v.sbLength * v.sx + i), if_neg fun h => hl h.1]
  · have hsb : 0 ≤ v.sbLength * v.sx := mul_nonneg hv.sb_nonneg (by linarith [hv.sx_pos])
    have hsame : cellAt (savedOnly v) i = cellAt v i := by
      rw [cellAt, cellAt, if_neg hneg, if_neg hneg]
      rfl
    rw [hsame]
    split_ifs with hin
    · rfl
    · refine Option.eq_none_iff_forall_not_mem.mpr fun c hc => hin ⟨by omega, ?_⟩
      exact hv.toSized.cellAt_lt hc

lemma savedOnly_sound (hv : Sound v)
    (h : 0 < v.selection.length → -(v.sbLength * v.sx) ≤ v.selection.location) : Sound (savedOnly v) := by
  have hlength := hv.sbuf_length
  have hsaved := hv.arranged.scrollback_le
  have hdropped : (v.maxScrollback - v.sbLength) * v.sx = v.maxScrollback * v.sx - v.sbLength * v.sx := sub_mul ..
  refine ⟨⟨hv.sb_nonneg, le_rfl, hv.scroll_lower, hv.scroll_le, hv.cursorX_nonneg, hv.cursorX_lt, hv.cursorY_nonneg,
    hv.cursorY_lt, fun hpos => ⟨h hpos, (hv.selection hpos).2⟩⟩,
    ⟨hv.sx_pos, hv.sy_pos, hv.sb_nonneg, hv.screen_length, ?_⟩⟩
  simp only [savedOnly, List.length_drop]
  omega

lemma allBlank_congr (h : ∀ k, lo ≤ k → charAt w k = charAt v k) : AllBlank w lo hi ↔ AllBlank v lo hi := by
  refine forall_congr' fun k => forall_congr' fun hl => ?_
  rw [h k hl]

lemma chars_congr (h : ∀ k, lo ≤ k → charAt w k = charAt v k) : chars w lo hi = chars v lo hi :=
  List.map_congr_left fun k hk => h k (Int.mem_range_iff.mp hk).1

lemma textOf_congr (hsx : w.sx = v.sx) (h : ∀ k, lo ≤ k → charAt w k = charAt v k) :
    textOf w lo hi = textOf v lo hi := by
  rw [textOf, textOf, hsx]
  refine List.flatMap_congr fun row _ => ?_
  have hfirst (stop : ℤ) : chars w (max lo (row * v.sx)) stop = chars v (max lo (row * v.sx)) stop :=
    chars_congr fun k hk => h k ((le_max_left _ _).trans hk)
  simp only [rowText, hsx, hfirst]

end Saved

/-- The text is found in memory that has nothing but the saved lines and the screen. -/
theorem selectionAsString_rows_iff (hv : Sound v) (hstart : -(v.sbLength * v.sx) ≤ v.selection.location)
    (hlength : 0 ≤ v.selection.length) :
    ((Ensures (selectionAsString v) fun text =>
        text.getD [] = textOf v v.selection.location v.selection.stop) ∧
      Ensures (selectionAsString (savedOnly v)) fun text =>
        text.getD [] = textOf v v.selection.location v.selection.stop) ↔
      ¬(0 < v.selection.length ∧ BlankTail v v.selection.stop) := by
  have hchar (k : ℤ) (hk : v.selection.location ≤ k) : charAt (savedOnly v) k = charAt v k := by
    rw [charAt, charAt, cellAt_savedOnly hv]
    split_ifs with hin
    · rfl
    · cases hcell : cellAt v k with
      | none => rfl
      | some c => exact absurd ⟨hstart.trans hk, hv.toSized.cellAt_lt hcell⟩ hin
  have hsaved := selectionAsString_textOf (savedOnly_sound hv fun _ => hstart) hlength
  have htext : textOf (savedOnly v) v.selection.location v.selection.stop =
      textOf v v.selection.location v.selection.stop := textOf_congr rfl hchar
  have htail (hpos : 0 < v.selection.length) :
      BlankTail (savedOnly v) v.selection.stop ↔ BlankTail v v.selection.stop := by
    refine and_congr_left fun _ => allBlank_congr fun k hk => hchar k ?_
    rw [SelectionRange.stop] at hk
    omega
  have hreads : (Ensures (selectionAsString (savedOnly v)) fun text =>
      text.getD [] = textOf v v.selection.location v.selection.stop) ↔
      ¬(0 < v.selection.length ∧ BlankTail v v.selection.stop) := by
    rw [← htext, ← and_congr_right htail]
    exact hsaved
  rw [selectionAsString_textOf hv hlength, hreads, and_self]

/-- A screen of two rows, `a` and `bc`, of which all but the last cell is selected. -/
def twoRows : View where
  sx := 2
  sy := 2
  maxScrollback := 0
  screen := [⟨97, 0, 0⟩, ⟨32, 0, 0⟩, ⟨98, 0, 0⟩, ⟨99, 0, 0⟩]
  sbuf := []
  selection := ⟨0, 3⟩
  scrollBottomOnInput := true

lemma twoRows_sound : Sound twoRows := by
  refine ⟨⟨?_, ?_, ?_, ?_, ?_, ?_, ?_, ?_, fun _ => ?_⟩, ⟨?_, ?_, ?_, ?_, ?_⟩⟩
  all_goals decide

theorem selectionAsString_two_rows :
    (Ensures (selectionAsString twoRows) fun text =>
        text.getD [] = textOf twoRows twoRows.selection.location twoRows.selection.stop) ∧
      Ensures (selectionAsString (savedOnly twoRows)) fun text =>
        text.getD [] = textOf twoRows twoRows.selection.location twoRows.selection.stop :=
  (selectionAsString_rows_iff twoRows_sound (by decide) (by decide)).mpr (by decide)

/-- A screen of one blank cell, which is selected. -/
def blankScreen : View where
  sx := 1
  sy := 1
  maxScrollback := 0
  screen := [zeroCell]
  sbuf := []
  selection := ⟨0, 1⟩
  scrollBottomOnInput := true

lemma blankScreen_sound : Sound blankScreen := by
  refine ⟨⟨?_, ?_, ?_, ?_, ?_, ?_, ?_, ?_, fun _ => ?_⟩, ⟨?_, ?_, ?_, ?_, ?_⟩⟩
  all_goals decide

/-- The cell behind the last one of the screen is read. -/
theorem blank_screen_read_behind :
    ¬∀ v : View, Sound v → -(v.sbLength * v.sx) ≤ v.selection.location → 0 ≤ v.selection.length →
      (Ensures (selectionAsString v) fun text =>
        text.getD [] = textOf v v.selection.location v.selection.stop) ∧
      Ensures (selectionAsString (savedOnly v)) fun text =>
        text.getD [] = textOf v v.selection.location v.selection.stop := by
  intro h
  obtain ⟨⟨text, htext, -⟩, -⟩ := h blankScreen blankScreen_sound (by decide) (by decide)
  have hnone : selectionAsString blankScreen = none := by decide
  rw [hnone] at htext
  cases htext

end Xperimentum.Terminal.TerminalView
