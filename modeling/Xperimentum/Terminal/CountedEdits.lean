import Mathlib.Tactic
import Xperimentum.Lib.BlankEdits
import Xperimentum.Terminal.ControlSequences
import Xperimentum.Terminal.PrintedCells
import Xperimentum.Terminal.ShownCells

/-! `ICH`, `DCH`, `IL` and `DL` with a count, and the same as often with the count 1. -/

namespace Xperimentum.Terminal.TerminalView

open Xperimentum.Lib.BlankEdits Xperimentum.Lib.Int32 Xperimentum.Lib.Memory Xperimentum.Lib.Partial Xperimentum.Lib.Runs
open Xperimentum.Terminal.LinuxParser

variable {σ : Type} {host : Host σ} {p q : Parser σ} {t : Session σ} {v w : View} {n : ℕ}

inductive Edit
  | insertChars | deleteChars | insertLines | deleteLines

def Edit.final : Edit → UInt8
  | .insertChars => 0x40
  | .deleteChars => 0x50
  | .insertLines => 0x4c
  | .deleteLines => 0x4d

def blankCell (p : Parser σ) : ScreenChar := clean p.videoEraseChar

def blankRow (p : Parser σ) (x : ℤ) : ScreenChar := if 0 ≤ x ∧ x < p.width then blankCell p else zeroCell

/-- The counts that are told to the screen. -/
def charCount (p : Parser σ) (n : ℕ) : ℤ := csiCount (wrap32 n) (p.width - p.x)

def lineCount (p : Parser σ) (n : ℕ) : ℤ := scrollCount p.y p.bottom (csiCount (wrap32 n) (p.height - p.y))

/-- The rows of the screen after the edit with the parameter `n`. -/
def edited (e : Edit) (p : Parser σ) (n : ℕ) (rows : ℤ → ℤ → ScreenChar) : ℤ → ℤ → ScreenChar :=
  match e with
  | .insertChars => Function.update rows p.y (insertBlanks (blankCell p) p.x p.width (charCount p n) (rows p.y))
  | .deleteChars => Function.update rows p.y
      (deleteBlanks (blankCell p) (min p.x (p.width - charCount p n)) p.width (charCount p n) (rows p.y))
  | .insertLines => insertBlanks (blankRow p) p.y p.bottom (lineCount p n) rows
  | .deleteLines => deleteBlanks (blankRow p) p.y p.bottom (lineCount p n) rows

/-! One sequence. -/

lemma receive_two {a b : ScreenCall} {P : View → Prop} (h : Ensures (receive v a) fun u => Ensures (receive u b) P) :
    Ensures ([a, b].foldlM receive v) P := by
  obtain ⟨u, hu, w, hw, hP⟩ := h
  refine ⟨w, ?_, hP⟩
  rw [List.foldlM_cons, hu]
  change receive u b >>= pure = some w
  rw [hw]
  rfl

lemma csiCount_wrap32 (n : ℕ) {room : ℤ} (h0 : 0 ≤ room) (hlt : room < 2 ^ 31) : csiCount (wrap32 n) room =
    if room < (n % 2 ^ 32 : ℕ) then room else if n % 2 ^ 32 = 0 then 1 else (n % 2 ^ 32 : ℕ) := by
  have hroom : toU32 room = room := toU32_of_mem h0 (by omega)
  have hn : toU32 (wrap32 n) = (n % 2 ^ 32 : ℕ) := by
    rw [toU32, wrap32_modEq n]
    rfl
  rw [csiCount, hroom, hn]
  simp only [Nat.cast_eq_zero]

/-- The parser and the view have the same size, which is kept in an `int`. -/
structure Fitting (p : Parser σ) (v : View) : Prop where
  sane : LinuxParser.Sane p
  drawing : Drawing v
  width : p.width = v.sx
  height : p.height = v.sy
  width_lt : p.width < 2 ^ 31

lemma charCount_mem (h : Fitting p v) (n : ℕ) :
    p.x < p.width ∧ 1 ≤ charCount p n ∧ charCount p n ≤ p.width - p.x ∨
      p.x = p.width ∧ charCount p n = if n % 2 ^ 32 = 0 then 1 else 0 := by
  have hx := h.sane.x_le
  have hx0 := h.sane.x_nonneg
  have hlt := h.width_lt
  rw [charCount, csiCount_wrap32 n (by omega) (by omega)]
  by_cases hend : p.x < p.width
  · refine .inl ⟨hend, ?_⟩
    split_ifs <;> omega
  · refine .inr ⟨le_antisymm hx (not_lt.mp hend), ?_⟩
    split_ifs <;> omega

lemma receive_row (hv : Drawing v) (ch : ScreenChar) {y x x' delta k : ℤ} (hy0 : 0 ≤ y) (hy : y < v.sy) (h0 : 0 ≤ x)
    (h0' : 0 ≤ x') (hd : -v.sx ≤ delta) (hin : x < v.sx → 0 ≤ x + delta ∧ x + delta ≤ v.sx) :
    Ensures ([.shiftRow y x delta, .putCharAt ch k x' y].foldlM receive v) fun w => Same v w ∧ shown w =
      Function.update (shown v) y fun i => if x' ≤ i ∧ i < min (x' + k) v.sx then clean ch
        else if x + delta ≤ i ∧ i < v.sx + min 0 delta ∧ x < v.sx then shown v y (i - delta) else shown v y i := by
  have hshift : Ensures (ts_shiftRow y x delta v) fun u => Same v u ∧ shown u = Function.update (shown v) y fun i =>
      if x + delta ≤ i ∧ i < v.sx + min 0 delta ∧ x < v.sx then shown v y (i - delta) else shown v y i := by
    by_cases hx : x < v.sx
    · simp only [hx, and_true]
      exact (ts_shiftRow_same hv hd fun hx => (hin hx).2).and_allows
        (shown_shiftRow hv.toSized hy0 hy h0 hx (hin hx).1)
    · simp only [hx, and_false, if_false]
      rw [ts_shiftRow, if_pos (.inr (.inr (.inr (not_lt.mp hx)))), Function.update_eq_self]
      exact ensures_some ⟨Same.refl v, rfl⟩
  refine receive_two (hshift.imp fun u hu => ?_)
  obtain ⟨hu, hshown⟩ := hu
  rw [← hu.sy] at hy
  have hz := hv.toSized.frame hu.toFrame
  refine ((ts_putCharAt_same hz ch h0').and_allows (shown_putCharAt hz ch h0' hy0 hy)).imp fun w hw => ?_
  refine ⟨hu.trans hw.1, hw.2.trans ?_⟩
  rw [hshown, hu.sx, Function.update_idem, Function.update_self]

lemma insertChar_edits (h : Fitting p v) (n : ℕ) : Ensures ((insertChar (charCount p n) p).calls.foldlM receive v)
    fun w => Same v w ∧ shown w = edited .insertChars p n (shown v) := by
  have hcount := charCount_mem h n
  have hx0 := h.sane.x_nonneg
  have hy := h.sane.y_lt
  have hwidth := h.width
  rw [h.height] at hy
  have hcalls : (insertChar (charCount p n) p).calls =
      [.shiftRow p.y p.x (charCount p n), .putCharAt p.videoEraseChar (charCount p n) p.x p.y] := rfl
  rw [hcalls]
  refine (receive_row h.drawing p.videoEraseChar h.sane.y_nonneg hy hx0 hx0 (by omega) (by omega)).imp
    fun w ⟨hw, hshown⟩ => ⟨hw, hshown.trans ?_⟩
  rw [edited]
  congr 1
  funext i
  rw [insertBlanks, blankCell]
  split_ifs <;> first | rfl | omega

lemma deleteChar_edits (h : Fitting p v) (n : ℕ) : Ensures ((deleteChar (charCount p n) p).calls.foldlM receive v)
    fun w => Same v w ∧ shown w = edited .deleteChars p n (shown v) := by
  have hcount := charCount_mem h n
  have hx0 := h.sane.x_nonneg
  have hy := h.sane.y_lt
  have hpos := h.sane.width_pos
  have hwidth := h.width
  rw [h.height] at hy
  have hcalls : (deleteChar (charCount p n) p).calls = [.shiftRow p.y (p.x + charCount p n) (-charCount p n),
      .putCharAt p.videoEraseChar (charCount p n) (p.width - charCount p n) p.y] := rfl
  have hsmall : 0 ≤ charCount p n ∧ charCount p n ≤ p.width := by
    rcases hcount with hcount | ⟨hx, hcount⟩
    · omega
    · split_ifs at hcount <;> omega
  rw [hcalls]
  refine (receive_row h.drawing p.videoEraseChar h.sane.y_nonneg hy (by omega) (by omega) (by omega) (by omega)).imp
    fun w ⟨hw, hshown⟩ => ⟨hw, hshown.trans ?_⟩
  rw [edited]
  congr 1
  funext i
  simp only [deleteBlanks, blankCell, sub_neg_eq_add]
  split_ifs <;> first | rfl | omega

lemma lineCount_mem (h : Fitting p v) (n : ℕ) (hy : p.y < p.bottom) :
    0 ≤ lineCount p n ∧ p.y + lineCount p n < p.bottom := by
  have hbottom := h.sane.bottom_le
  have hy0 := h.sane.y_nonneg
  have hheight := h.sane.height_lt
  rw [lineCount, csiCount_wrap32 n (by omega) (by omega), scrollCount]
  constructor <;> split_ifs <;> omega

lemma unscrolled (h : Fitting p v) (n : ℕ) (hb : p.height < p.bottom ∨ p.bottom ≤ p.y ∨ lineCount p n < 1) :
    p.bottom ≤ p.y ∨ lineCount p n = 0 := by
  have hbottom := h.sane.bottom_le
  by_cases hy : p.y < p.bottom
  · have hcount := lineCount_mem h n hy
    omega
  · exact .inl (not_lt.mp hy)

lemma csi_L_calls (p : Parser σ) (n : ℕ) : (csi_L (wrap32 n) p).calls =
    if p.height < p.bottom ∨ p.bottom ≤ p.y ∨ lineCount p n < 1 then []
    else [.scrollDown p.y p.bottom (lineCount p n),
      .putCharOffset p.videoEraseChar (p.width * lineCount p n) (p.width * p.y)] := by
  rw [csi_L, scrdown, lineCount, mul_comm p.width p.y]
  split_ifs <;> rfl

lemma csi_M_calls (p : Parser σ) (n : ℕ) : (csi_M (wrap32 n) p).calls =
    if p.height < p.bottom ∨ p.bottom ≤ p.y ∨ lineCount p n < 1 then []
    else [.scrollUp p.y p.bottom (lineCount p n) false,
      .putCharOffset p.videoEraseChar (p.width * lineCount p n) (p.width * (p.bottom - lineCount p n))] := by
  rw [csi_M, scrup, lineCount]
  split_ifs <;> rfl

lemma receive_rows (h : Fitting p v) {call : ScreenCall} {b d s k r : ℤ} (hk : k < b - p.y) (hcall : Ensures (receive v call) (Same v))
    (hregion : ∃ delta, receive v call = scrollRegion p.y b k d s delta v) (hd0 : 0 ≤ d) (hd : d + (b - p.y - k) ≤ v.sy)
    (hr0 : 0 ≤ r) (hr : r + k ≤ v.sy) :
    Ensures ([call, .putCharOffset p.videoEraseChar (p.width * k) (p.width * r)].foldlM receive v) fun w =>
      Same v w ∧ shown w = fun y => if r ≤ y ∧ y < r + k then blankRow p
        else if d ≤ y ∧ y < d + (b - p.y - k) then shown v (s + (y - d)) else shown v y := by
  obtain ⟨delta, hregion⟩ := hregion
  have hshown := shown_scrollRegion h.drawing.toSized s delta (t := p.y) (b := b) (by omega) hd0 hd
  rw [← hregion] at hshown
  refine receive_two ((hcall.and_allows hshown).imp fun u ⟨hu, hushown⟩ => ?_)
  have hz := h.drawing.toSized.frame hu.toFrame
  rw [← hu.sy] at hr
  have hrow : (fun x => if 0 ≤ x ∧ x < u.sx then clean p.videoEraseChar else zeroCell) = blankRow p := by
    funext x
    rw [blankRow, blankCell, h.width, hu.sx]
  have hofs : 0 ≤ p.width * r := mul_nonneg (zero_le_one.trans h.sane.width_pos) hr0
  have hput := shown_putCharOffset hz p.videoEraseChar hr0 hr
  rw [hrow, hushown, hu.sx, ← h.width] at hput
  refine ((ts_putCharOffset_same hz p.videoEraseChar hofs).and_allows hput).imp fun w ⟨hw, hwshown⟩ => ?_
  exact ⟨hu.trans hw, hwshown⟩

lemma insertLines_edits (h : Fitting p v) (n : ℕ) : Ensures ((csi_L (wrap32 n) p).calls.foldlM receive v)
    fun w => Same v w ∧ shown w = edited .insertLines p n (shown v) := by
  rw [csi_L_calls, edited]
  by_cases hb : p.height < p.bottom ∨ p.bottom ≤ p.y ∨ lineCount p n < 1
  · rw [if_pos hb]
    refine ensures_pure ⟨Same.refl v, ?_⟩
    rcases unscrolled h n hb with hy | hzero
    · funext y
      rw [insertBlanks, if_neg (by omega)]
    · rw [hzero, insert_zero]
  · rw [if_neg hb]
    have hcount := lineCount_mem h n (by omega)
    have hbottom := h.sane.bottom_le
    have hy0 := h.sane.y_nonneg
    have hheight := h.height
    have hregion : receive v (.scrollDown p.y p.bottom (lineCount p n)) =
        scrollRegion p.y p.bottom (lineCount p n) (p.y + lineCount p n) p.y (lineCount p n) v := by
      rw [receive, ts_scrollDown, if_neg (by omega : ¬p.bottom ≤ p.y + lineCount p n), if_neg (by omega)]
    have hsame : Ensures (receive v (.scrollDown p.y p.bottom (lineCount p n))) (Same v) :=
      ts_scrollDown_same h.drawing hy0 (by omega) hcount.2 (by omega)
    refine (receive_rows h (by omega) hsame ⟨_, hregion⟩ (by omega) (by omega) hy0 (by omega)).imp
      fun w hw => ⟨hw.1, hw.2.trans ?_⟩
    funext y
    have hsource : p.y + (y - (p.y + lineCount p n)) = y - lineCount p n := by omega
    simp only [insertBlanks, hsource]
    split_ifs <;> first | rfl | omega

lemma deleteLines_edits (h : Fitting p v) (n : ℕ) : Ensures ((csi_M (wrap32 n) p).calls.foldlM receive v)
    fun w => Same v w ∧ shown w = edited .deleteLines p n (shown v) := by
  rw [csi_M_calls, edited]
  by_cases hb : p.height < p.bottom ∨ p.bottom ≤ p.y ∨ lineCount p n < 1
  · rw [if_pos hb]
    refine ensures_pure ⟨Same.refl v, ?_⟩
    rcases unscrolled h n hb with hy | hzero
    · funext y
      rw [deleteBlanks, if_neg (by omega)]
    · rw [hzero, delete_zero]
  · rw [if_neg hb]
    have hcount := lineCount_mem h n (by omega)
    have hbottom := h.sane.bottom_le
    have hy0 := h.sane.y_nonneg
    have hheight := h.height
    have hregion : receive v (.scrollUp p.y p.bottom (lineCount p n) false) =
        scrollRegion p.y p.bottom (lineCount p n) p.y (p.y + lineCount p n) (-lineCount p n) v := by
      rw [receive, ts_scrollUp_unsaved, if_neg (by omega : ¬p.bottom ≤ p.y + lineCount p n), if_neg (by omega)]
    have hsame : Ensures (receive v (.scrollUp p.y p.bottom (lineCount p n) false)) (Same v) :=
      ts_scrollUp_same h.drawing hy0 (by omega) hcount.2 (by omega)
    refine (receive_rows h (by omega) hsame ⟨_, hregion⟩ hy0 (by omega) (by omega) (by omega)).imp
      fun w hw => ⟨hw.1, hw.2.trans ?_⟩
    funext y
    have hsource : p.y + lineCount p n + (y - p.y) = y + lineCount p n := by omega
    simp only [deleteBlanks, hsource]
    split_ifs <;> first | rfl | omega

lemma csiFinal_edits (host : Host σ) (h : Fitting p v) (e : Edit) {n : ℕ} (hn : parAt p 0 = wrap32 n) :
    Ensures ((csiFinal host e.final p).calls.foldlM receive v) fun w => Same v w ∧ shown w = edited e p n (shown v) := by
  cases e with
  | insertChars =>
    have hfinal : csiFinal host Edit.insertChars.final p = csi_at (parAt p 0) p := rfl
    rw [hfinal, hn]
    exact insertChar_edits h n
  | deleteChars =>
    have hfinal : csiFinal host Edit.deleteChars.final p = csi_P (parAt p 0) p := rfl
    rw [hfinal, hn]
    exact deleteChar_edits h n
  | insertLines =>
    have hfinal : csiFinal host Edit.insertLines.final p = csi_L (parAt p 0) p := rfl
    rw [hfinal, hn]
    exact insertLines_edits h n
  | deleteLines =>
    have hfinal : csiFinal host Edit.deleteLines.final p = csi_M (parAt p 0) p := rfl
    rw [hfinal, hn]
    exact deleteLines_edits h n

lemma csiFinal_keepsParser (host : Host σ) (e : Edit) (p : Parser σ) : (csiFinal host e.final p).parser = p := by
  cases e with
  | insertChars | deleteChars => rfl
  | insertLines =>
    change (scrdown _ _ _ p).parser = p
    rw [scrdown]
    split_ifs <;> rfl
  | deleteLines =>
    change (scrup _ _ _ _ p).parser = p
    rw [scrup]
    split_ifs <;> rfl

lemma foldlM_receiveByte (host : Host σ) (cs : List UInt8) (t : Session σ) : cs.foldlM (receiveByte host) t =
    ((processBytes host cs t.parser).calls.foldlM receive t.view).map fun v => ⟨v, (processBytes host cs t.parser).parser⟩ := by
  induction cs generalizing t with
  | nil => rfl
  | cons c cs ih =>
    rw [List.foldlM_cons, receiveByte, processBytes]
    dsimp only
    rw [List.foldlM_append]
    cases (processByte host c t.parser).calls.foldlM receive t.view with
    | none => rfl
    | some v => exact ih ⟨v, (processByte host c t.parser).parser⟩

lemma Edit.final_final (e : Edit) : Final e.final := by
  cases e <;> decide

/-- The parser differs in other things than the place of the cursor, the region and the blank. -/
structure SameEdits (p q : Parser σ) : Prop where
  x : q.x = p.x
  y : q.y = p.y
  width : q.width = p.width
  height : q.height = p.height
  bottom : q.bottom = p.bottom
  videoEraseChar : q.videoEraseChar = p.videoEraseChar

lemma SameEdits.edited (h : SameEdits p q) (e : Edit) (n : ℕ) : edited e q n = edited e p n := by
  have hcell : blankCell q = blankCell p := by rw [blankCell, blankCell, h.videoEraseChar]
  have hrow : blankRow q = blankRow p := by
    funext x
    rw [blankRow, blankRow, hcell, h.width]
  have hchars : charCount q n = charCount p n := by rw [charCount, charCount, h.x, h.width]
  have hlines : lineCount q n = lineCount p n := by rw [lineCount, lineCount, h.y, h.bottom, h.height]
  funext rows
  cases e <;> simp only [TerminalView.edited, hcell, hrow, hchars, hlines, h.x, h.y, h.width, h.bottom]

lemma sameEdits_oneRead (ds : List (Fin 10)) (p : Parser σ) : SameEdits p (setState .normal (oneRead ds p)) := by
  constructor <;> simp only [setState, oneRead, setPar, opened]

/-- A session after edits. -/
structure After (t u : Session σ) : Prop extends Reading u where
  parser' : SameEdits t.parser u.parser
  view' : Same t.view u.view

lemma edit_session (host : Host σ) (ht : Reading t) (hw : t.parser.width < 2 ^ 31) (e : Edit) (ds : List (Fin 10)) :
    Ensures ((csi (digits ds) e.final).foldlM (receiveByte host) t) fun u =>
      After t u ∧ shown u.view = edited e t.parser (value ds) (shown t.view) := by
  obtain ⟨hparser, hcalls⟩ : _ ∧ (processBytes host (csi (digits ds) e.final) t.parser).calls = _ :=
    processBytes_one ht.parser ds e.final_final
  have hsane : LinuxParser.Sane (setState .normal (oneRead ds t.parser)) :=
    (oneRead_sane ht.parser ds).frame (setState_frame .normal _)
  have hfit : Fitting (setState .normal (oneRead ds t.parser)) t.view := ⟨hsane, ht.drawing, ht.width, ht.height, hw⟩
  have hpar : parAt (setState .normal (oneRead ds t.parser)) 0 = wrap32 (value ds) := by
    have hread := parAt_oneRead ht.parser ds 0
    rw [if_pos rfl] at hread
    exact hread
  have hsame := sameEdits_oneRead ds t.parser
  rw [foldlM_receiveByte, hparser, hcalls, csiFinal_keepsParser]
  refine Ensures.map ((csiFinal_edits host hfit e hpar).imp fun w ⟨hview, hshown⟩ => ?_)
  rw [hsame.edited] at hshown
  refine ⟨⟨⟨⟨?_, hsane, ?_, ?_⟩, ht.drawing.same hview⟩, hsame, hview⟩, hshown⟩
  · exact (ht.drawing.same hview).toSound
  · exact ht.width.trans hview.sx.symm
  · exact ht.height.trans hview.sy.symm

/-! The same sequence several times. -/

/-- The sequence with the parameter 1, once for a count of 0. -/
def repeated (e : Edit) (n : ℕ) : List UInt8 := (List.replicate (max n 1) (csi (digits [1]) e.final)).flatten

structure SameEnd (u w : Session σ) : Prop where
  shown : shown u.view = shown w.view
  cursorX : u.view.cursorX = w.view.cursorX
  cursorY : u.view.cursorY = w.view.cursorY
  x : u.parser.x = w.parser.x
  y : u.parser.y = w.parser.y

/-- Both runs of bytes end with the same screen and cursor. -/
def SameEffect (host : Host σ) (t : Session σ) (bs cs : List UInt8) : Prop :=
  ∃ u w, bs.foldlM (receiveByte host) t = some u ∧ cs.foldlM (receiveByte host) t = some w ∧ SameEnd u w

lemma SameEdits.trans {r : Parser σ} (h : SameEdits p q) (h' : SameEdits q r) : SameEdits p r :=
  ⟨h'.x.trans h.x, h'.y.trans h.y, h'.width.trans h.width, h'.height.trans h.height, h'.bottom.trans h.bottom,
    h'.videoEraseChar.trans h.videoEraseChar⟩

lemma edits_session (host : Host σ) (ht : Reading t) (hw : t.parser.width < 2 ^ 31) (e : Edit) (m : ℕ) :
    Ensures ((List.replicate m (csi (digits [1]) e.final)).flatten.foldlM (receiveByte host) t) fun u =>
      After t u ∧ shown u.view = (edited e t.parser 1)^[m] (shown t.view) := by
  induction m generalizing t with
  | zero => exact ensures_pure ⟨⟨ht, ⟨rfl, rfl, rfl, rfl, rfl, rfl⟩, Same.refl _⟩, rfl⟩
  | succ m ih =>
    rw [List.replicate_succ, List.flatten_cons, List.foldlM_append]
    refine Ensures.bind (edit_session host ht hw e [1]) fun u ⟨hu, hushown⟩ => ?_
    have hwidth : u.parser.width < 2 ^ 31 := by rwa [hu.parser'.width]
    refine (ih hu.toReading hwidth).imp fun w ⟨hafter, hwshown⟩ => ?_
    refine ⟨⟨hafter.toReading, hu.parser'.trans hafter.parser', hu.view'.trans hafter.view'⟩, ?_⟩
    rw [hwshown, hu.parser'.edited, hushown]
    rfl

lemma sameEffect_iff (host : Host σ) (ht : Reading t) (hw : t.parser.width < 2 ^ 31) (e : Edit) (ds : List (Fin 10)) :
    SameEffect host t (csi (digits ds) e.final) (repeated e (value ds)) ↔
      edited e t.parser (value ds) (shown t.view) = (edited e t.parser 1)^[max (value ds) 1] (shown t.view) := by
  obtain ⟨u, hu, hcounted, hushown⟩ := edit_session host ht hw e ds
  obtain ⟨w, hw, hrepeated, hwshown⟩ := edits_session host ht hw e (max (value ds) 1)
  constructor
  · rintro ⟨u', w', hu', hw', hend⟩
    obtain rfl := Option.some.inj (hu.symm.trans hu')
    obtain rfl := Option.some.inj (hw.symm.trans hw')
    rw [← hushown, ← hwshown]
    exact hend.shown
  · intro h
    refine ⟨u, w, hu, hw, hushown.trans (h.trans hwshown.symm), ?_, ?_, ?_, ?_⟩
    · exact hcounted.view'.cursorX.trans hrepeated.view'.cursorX.symm
    · exact hcounted.view'.cursorY.trans hrepeated.view'.cursorY.symm
    · exact hcounted.parser'.x.trans hrepeated.parser'.x.symm
    · exact hcounted.parser'.y.trans hrepeated.parser'.y.symm

/-! When the two agree. -/

/-- By how many lines `IL` and `DL` move the others: at least one line of the region stays. -/
def linesMoved (p : Parser σ) (n : ℕ) : ℤ := min (max 1 ((n : ℤ) % 2 ^ 32)) (p.bottom - p.y - 1)

/-- The count is smaller than what an edit can clear, or what it leaves is blank. -/
def CountFits (e : Edit) (p : Parser σ) (n : ℕ) (rows : ℤ → ℤ → ScreenChar) : Prop :=
  match e with
  | .insertChars => n < 2 ^ 32 ∨ ∀ x, p.x ≤ x → x < p.width - max 1 ((n : ℤ) % 2 ^ 32) → rows p.y x = blankCell p
  | .deleteChars =>
    if p.x < p.width then n < 2 ^ 32 ∨ ∀ x, p.x + max 1 ((n : ℤ) % 2 ^ 32) ≤ x → x < p.width → rows p.y x = blankCell p
    else n % 2 ^ 32 = 0 → rows p.y (p.width - 1) = blankCell p
  | .insertLines => p.bottom ≤ p.y + 1 ∨ n < p.bottom - p.y ∨
      ∀ y, p.y ≤ y → y < p.bottom - linesMoved p n → rows y = blankRow p
  | .deleteLines => p.bottom ≤ p.y + 1 ∨ n < p.bottom - p.y ∨
      ∀ y, p.y + linesMoved p n ≤ y → y < p.bottom → rows y = blankRow p

lemma update_iterate {α : Type*} (y : ℤ) (g : α → α) (n : ℕ) (rows : ℤ → α) :
    (fun rows : ℤ → α => Function.update rows y (g (rows y)))^[n] rows = Function.update rows y (g^[n] (rows y)) := by
  induction n generalizing rows with
  | zero => exact (Function.update_eq_self y rows).symm
  | succ n ih =>
    rw [Function.iterate_succ_apply, ih, Function.update_self, Function.update_idem, Function.iterate_succ_apply]

lemma update_inj {α : Type*} (y : ℤ) (rows : ℤ → α) {a b : α} :
    Function.update rows y a = Function.update rows y b ↔ a = b := by
  refine ⟨fun h => ?_, congrArg _⟩
  have hy := congrFun h y
  rw [Function.update_self, Function.update_self] at hy
  exact hy

lemma csiCount_eq (n : ℕ) {room : ℤ} (h1 : 1 ≤ room) (hlt : room < 2 ^ 31) :
    csiCount (wrap32 n) room = min (max 1 ((n : ℤ) % 2 ^ 32)) room := by
  rw [csiCount_wrap32 n (by omega) hlt]
  split_ifs <;> omega

lemma charCount_eq (h : Fitting p v) (n : ℕ) (hx : p.x < p.width) :
    charCount p n = min (max 1 ((n : ℤ) % 2 ^ 32)) (p.width - p.x) := by
  have hx0 := h.sane.x_nonneg
  have hlt := h.width_lt
  exact csiCount_eq n (by omega) (by omega)

lemma lineCount_eq (h : Fitting p v) (n : ℕ) (hy : p.y < p.bottom) : lineCount p n = linesMoved p n := by
  have hy0 := h.sane.y_nonneg
  have hbottom := h.sane.bottom_le
  have hlt := h.sane.height_lt
  rw [lineCount, csiCount_eq n (by omega) (by omega), linesMoved, scrollCount]
  split_ifs <;> omega

lemma insertChars_agree (h : Fitting p v) (n : ℕ) (rows : ℤ → ℤ → ScreenChar) :
    edited .insertChars p n rows = (edited .insertChars p 1)^[max n 1] rows ↔ CountFits .insertChars p n rows := by
  have hiterate : (edited .insertChars p 1)^[max n 1] rows = Function.update rows p.y
      ((insertBlanks (blankCell p) p.x p.width (charCount p 1))^[max n 1] (rows p.y)) :=
    update_iterate p.y (insertBlanks (blankCell p) p.x p.width (charCount p 1)) _ rows
  rw [hiterate, edited, update_inj, CountFits]
  by_cases hx : p.x < p.width
  · have hone : charCount p 1 = 1 := by
      rw [charCount_eq h 1 hx]
      omega
    have hcount := charCount_eq h n hx
    have hlt := h.width_lt
    have hx0 := h.sane.x_nonneg
    rw [hone, insert_iterate]
    by_cases hn : n < 2 ^ 32
    · refine iff_of_true ?_ (.inl hn)
      by_cases hall : charCount p n = (max n 1 : ℕ)
      · rw [hall]
      · exact (insert_eq_full _ _ (by omega) (by omega)).mpr fun i hlow hhigh => by omega
    · rw [insert_eq_full _ _ (by omega) (by omega), or_iff_right hn]
      exact forall_congr' fun i => imp_congr_right fun hlow => imp_congr_left (by omega)
  · refine iff_of_true ?_ (.inr fun i hlow hhigh => by omega)
    have hfixed : (insertBlanks (blankCell p) p.x p.width (charCount p 1)) (rows p.y) = rows p.y :=
      insert_empty _ _ (not_lt.mp hx)
    rw [insert_empty _ _ (not_lt.mp hx), Function.iterate_fixed hfixed]

lemma deleteChars_agree (h : Fitting p v) (n : ℕ) (rows : ℤ → ℤ → ScreenChar) :
    edited .deleteChars p n rows = (edited .deleteChars p 1)^[max n 1] rows ↔ CountFits .deleteChars p n rows := by
  have hiterate : (edited .deleteChars p 1)^[max n 1] rows = Function.update rows p.y
      ((deleteBlanks (blankCell p) (min p.x (p.width - charCount p 1)) p.width (charCount p 1))^[max n 1] (rows p.y)) :=
    update_iterate p.y (deleteBlanks (blankCell p) (min p.x (p.width - charCount p 1)) p.width (charCount p 1)) _ rows
  rw [hiterate, edited, update_inj, CountFits]
  by_cases hx : p.x < p.width
  · have hone : charCount p 1 = 1 := by
      rw [charCount_eq h 1 hx]
      omega
    have hcount := charCount_eq h n hx
    have hlt := h.width_lt
    have hx0 := h.sane.x_nonneg
    rw [if_pos hx, hone, min_eq_left (by omega), min_eq_left (by omega), delete_iterate]
    by_cases hn : n < 2 ^ 32
    · refine iff_of_true ?_ (.inl hn)
      by_cases hall : charCount p n = (max n 1 : ℕ)
      · rw [hall]
      · exact (delete_eq_full _ _ (by omega) (by omega)).mpr fun i hlow hhigh => by omega
    · rw [delete_eq_full _ _ (by omega) (by omega), or_iff_right hn]
      exact forall_congr' fun i => ⟨fun hrow hlow hi => hrow (by omega) hi, fun hrow hlow hi => hrow (by omega) hi⟩
  · -- in the pending-wrap position only a count that is 0 in an `int` reaches the last column
    have hend : p.x = p.width := le_antisymm h.sane.x_le (not_lt.mp hx)
    have hone := ((charCount_mem h 1).resolve_left fun hin => hx hin.1).2
    have hcount := ((charCount_mem h n).resolve_left fun hin => hx hin.1).2
    rw [if_neg (by decide)] at hone
    have hfixed : (deleteBlanks (blankCell p) (min p.x (p.width - 0)) p.width 0) (rows p.y) = rows p.y := delete_zero _ _
    rw [if_neg hx, hone, Function.iterate_fixed hfixed, hcount]
    by_cases h0 : n % 2 ^ 32 = 0
    · have hlast : deleteBlanks (blankCell p) (p.width - 1) p.width 0 (rows p.y) =
          deleteBlanks (blankCell p) (p.width - 1) p.width 1 (rows p.y) ↔
            ∀ x, p.width - 1 + 0 ≤ x → x < p.width → rows p.y x = blankCell p :=
        delete_eq_full _ _ le_rfl (by omega)
      rw [delete_zero] at hlast
      rw [if_pos h0, hend, min_eq_right (by omega), forall_prop_of_true h0, eq_comm, hlast]
      constructor
      · intro hall
        exact hall _ (by omega) (by omega)
      · intro hblank x hlow hhigh
        obtain rfl : x = p.width - 1 := by omega
        exact hblank
    · rw [if_neg h0]
      exact iff_of_true (delete_zero _ _) fun hzero => absurd hzero h0

lemma lines_fixed (h : Fitting p v) (n : ℕ) (hb : p.bottom ≤ p.y + 1) : p.bottom ≤ p.y ∨ lineCount p n = 0 := by
  by_cases hy : p.y < p.bottom
  · right
    rw [lineCount_eq h n hy, linesMoved]
    omega
  · exact .inl (not_lt.mp hy)

lemma lines_counted (h : Fitting p v) (n : ℕ) (hb : p.y + 1 < p.bottom) : lineCount p 1 = 1 ∧ 0 ≤ linesMoved p n ∧
    (n < p.bottom - p.y → linesMoved p n = (max n 1 : ℕ)) := by
  have hlt := h.sane.height_lt
  have hbottom := h.sane.bottom_le
  have hy0 := h.sane.y_nonneg
  rw [lineCount_eq h 1 (by omega), linesMoved, linesMoved]
  refine ⟨?_, ?_, ?_⟩ <;> omega

lemma insertLines_agree (h : Fitting p v) (n : ℕ) (rows : ℤ → ℤ → ScreenChar) :
    edited .insertLines p n rows = (edited .insertLines p 1)^[max n 1] rows ↔ CountFits .insertLines p n rows := by
  have hiterate : (edited .insertLines p 1)^[max n 1] rows =
      (insertBlanks (blankRow p) p.y p.bottom (lineCount p 1))^[max n 1] rows := rfl
  rw [hiterate, edited, CountFits]
  by_cases hb : p.bottom ≤ p.y + 1
  · have hfixed (n : ℕ) : insertBlanks (blankRow p) p.y p.bottom (lineCount p n) rows = rows := by
      rcases lines_fixed h n hb with hy | hzero
      · exact insert_empty _ _ hy
      · rw [hzero, insert_zero]
    rw [hfixed n, Function.iterate_fixed (hfixed 1)]
    exact iff_of_true rfl (.inl hb)
  · have hcount := lineCount_eq h n (by omega)
    obtain ⟨hone, hmoved, hall⟩ := lines_counted h n (by omega)
    rw [hone, insert_iterate, hcount, or_iff_right hb]
    by_cases hn : n < p.bottom - p.y
    · rw [hall hn]
      exact iff_of_true rfl (.inl hn)
    · rw [insert_eq_full _ _ hmoved (by omega), or_iff_right hn]

lemma deleteLines_agree (h : Fitting p v) (n : ℕ) (rows : ℤ → ℤ → ScreenChar) :
    edited .deleteLines p n rows = (edited .deleteLines p 1)^[max n 1] rows ↔ CountFits .deleteLines p n rows := by
  have hiterate : (edited .deleteLines p 1)^[max n 1] rows =
      (deleteBlanks (blankRow p) p.y p.bottom (lineCount p 1))^[max n 1] rows := rfl
  rw [hiterate, edited, CountFits]
  by_cases hb : p.bottom ≤ p.y + 1
  · have hfixed (n : ℕ) : deleteBlanks (blankRow p) p.y p.bottom (lineCount p n) rows = rows := by
      rcases lines_fixed h n hb with hy | hzero
      · exact delete_empty _ _ hy
      · rw [hzero, delete_zero]
    rw [hfixed n, Function.iterate_fixed (hfixed 1)]
    exact iff_of_true rfl (.inl hb)
  · have hcount := lineCount_eq h n (by omega)
    obtain ⟨hone, hmoved, hall⟩ := lines_counted h n (by omega)
    rw [hone, delete_iterate, hcount, or_iff_right hb]
    by_cases hn : n < p.bottom - p.y
    · rw [hall hn]
      exact iff_of_true rfl (.inl hn)
    · rw [delete_eq_full _ _ hmoved (by omega), or_iff_right hn]

theorem countedEdit_iff (host : Host σ) (t : Session σ) (ht : Reading t) (hw : t.parser.width < 2 ^ 31) (e : Edit)
    (ds : List (Fin 10)) : SameEffect host t (csi (digits ds) e.final) (repeated e (value ds)) ↔
      CountFits e t.parser (value ds) (shown t.view) := by
  have hfit : Fitting t.parser t.view := ⟨ht.parser, ht.drawing, ht.width, ht.height, hw⟩
  rw [sameEffect_iff host ht hw]
  cases e with
  | insertChars => exact insertChars_agree hfit _ _
  | deleteChars => exact deleteChars_agree hfit _ _
  | insertLines => exact insertLines_agree hfit _ _
  | deleteLines => exact deleteLines_agree hfit _ _

def size2x2 : ScreenSize where
  width := 2
  height := 2
  width_pos := by decide
  width_lt := by decide
  height_pos := by decide
  height_lt := by decide

/-- One of two lines is deleted, with `a` in it. -/
theorem countedEdit_deleteLines : ∃ t, typedSession latinHost size2x2 [97] = some t ∧ Reading t ∧
    t.parser.width < 2 ^ 31 ∧
      (SameEffect latinHost t (csi (digits [1]) Edit.deleteLines.final) (repeated .deleteLines (value [1])) ↔
        CountFits .deleteLines t.parser (value [1]) (shown t.view)) := by
  have hcontained : Along (afterByte latinHost) (ByteContained latinHost) (initial size2x2 none) [97] := by
    decide
  obtain ⟨t, htyped, ht, hparser⟩ := typedSession_reading latinHost size2x2 [97] hcontained
  have hw : t.parser.width < 2 ^ 31 := by
    rw [hparser]
    decide
  exact ⟨t, htyped, ht, hw, countedEdit_iff latinHost t ht hw .deleteLines [1]⟩

/-- Two lines are inserted in front of two, and the first of them stays on the screen. -/
theorem line_left_by_insertLines : ∃ t, typedSession latinHost size2x2 [97, 13] = some t ∧ Reading t ∧
    ¬SameEffect latinHost t (csi (digits [2]) Edit.insertLines.final) (repeated .insertLines (value [2])) := by
  have hcontained : Along (afterByte latinHost) (ByteContained latinHost) (initial size2x2 none) [97, 13] := by
    decide
  obtain ⟨t, htyped, ht, hparser⟩ := typedSession_reading latinHost size2x2 [97, 13] hcontained
  have hw : t.parser.width < 2 ^ 31 := by
    rw [hparser]
    decide
  have hshown : (typedSession latinHost size2x2 [97, 13]).map (fun t => (shown t.view 0 0).ch) = some 97 := by
    decide
  rw [htyped, Option.map_some, Option.some.injEq] at hshown
  have hblank : (blankRow t.parser 0).ch ≠ 97 := by
    rw [hparser]
    decide
  have hplace : t.parser.y = 0 ∧ t.parser.bottom = 2 := by
    rw [hparser]
    decide
  refine ⟨t, htyped, ht, fun hsame => ?_⟩
  have hagree := (sameEffect_iff latinHost ht hw .insertLines [2]).mp hsame
  have hfits := (insertLines_agree ⟨ht.parser, ht.drawing, ht.width, ht.height, hw⟩ _ _).mp hagree
  obtain ⟨hy, hbottom⟩ := hplace
  rw [CountFits, hy, hbottom] at hfits
  rcases hfits with hlast | hless | hrows
  · exact absurd hlast (by decide)
  · exact absurd hless (by decide)
  · have hmoved : linesMoved t.parser (value [2]) = 1 := by
      rw [linesMoved, hy, hbottom]
      rfl
    have hrow := hrows 0 le_rfl (by rw [hmoved]; decide)
    rw [hrow] at hshown
    exact hblank hshown

end Xperimentum.Terminal.TerminalView
