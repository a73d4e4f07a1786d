import Mathlib.Tactic
import Xperimentum.Terminal.LazyRedraw

/-! The cells of the screen that each call of the parser reads or writes, against the row or the region that
the call is about. -/

namespace Xperimentum.Terminal.TerminalView

open Xperimentum.Lib.Memory Xperimentum.Lib.Partial Xperimentum.Lib.Runs Xperimentum.Terminal.LinuxParser

variable {σ : Type} {host : Host σ} {p : Parser σ} {v w : View} {c : UInt8} {rows : ℤ × ℤ}

/-- A loop over cells, which a negative count leaves out, or one side of a `memmove`, whose count is a `size_t`. -/
inductive Access
  | loop (start count : ℤ)
  | block (start count : ℤ)

def Access.Has (i : ℤ) : Access → Prop
  | .loop start count | .block start count => start ≤ i ∧ i < start + count

def Access.InRows (sx : ℤ) (rows : ℤ × ℤ) : Access → Prop
  | .loop start count => count ≤ 0 ∨ rows.1 * sx ≤ start ∧ start + count ≤ rows.2 * sx
  | .block start count => 0 ≤ count ∧ rows.1 * sx ≤ start ∧ start + count ≤ rows.2 * sx

instance (sx : ℤ) (rows : ℤ × ℤ) : ∀ a, Decidable (Access.InRows sx rows a)
  | .loop _ _ => inferInstanceAs (Decidable (_ ∨ _))
  | .block _ _ => inferInstanceAs (Decidable (_ ∧ _))

def markAccess (covered : Prop) [Decidable covered] (v : View) : List Access :=
  if covered then [.loop (v.currentY * v.sx + v.currentX) 1] else []

def saveAccess (save : Prop) [Decidable save] (nr : ℤ) (v : View) : List Access :=
  if save then [.block 0 (if savedLines nr v < v.sy then savedLines nr v * v.sx else v.sy * v.sx)] else []

def scrollAccess (t b nr d s : ℤ) (v : View) : List Access :=
  if v.sy < b ∨ b ≤ t ∨ nr < 1 then []
  else markAccess (t ≤ v.currentY ∧ v.currentY ≤ b) v ++
    [.block (s * v.sx) ((b - t - nr) * v.sx), .block (d * v.sx) ((b - t - nr) * v.sx)]

/-- The cells of `screen` that a call reads or writes. -/
def accesses (v : View) : ScreenCall → List Access
  | .putCharAt _ c x y =>
    if y < 0 ∨ v.sy ≤ y then []
    else
      let c := if v.sx < x + c then v.sx - x else c
      let c := if x < 0 then c - x else c
      let x := if x < 0 then 0 else x
      [.loop (y * v.sx + x) c]
  | .putCharOffset _ c ofs =>
    let c := if v.sx * v.sy < ofs + c then v.sx * v.sy - ofs else c
    let c := if ofs < 0 then c - ofs else c
    let ofs := if ofs < 0 then 0 else ofs
    [.loop ofs c]
  | .scrollUp t b nr save =>
    let left := if b ≤ t + nr then b - t - 1 else nr
    saveAccess (save ∧ t = 0 ∧ b = v.sy) nr v ++ scrollAccess t b left t (t + left) v
  | .scrollDown t b nr =>
    let left := if b ≤ t + nr then b - t - 1 else nr
    scrollAccess t b left (t + left) t v
  | .shiftRow y x0 delta =>
    if y < 0 ∨ v.sy ≤ y ∨ x0 < 0 ∨ v.sx ≤ x0 then []
    else
      let x1 := x0 + delta
      let c := if x1 < 0 then v.sx - x0 + x1 else v.sx - x0
      let x1 := if x1 < 0 then 0 else x1
      let c := if v.sx < x1 + c then v.sx - x1 else c
      markAccess (v.currentY = y) v ++ [.block (y * v.sx + x0) c, .block (y * v.sx + x1) c]
  | _ => []

/-- The rows a call is about, where `rows` are those a write at an offset is about. -/
def addressed (rows : ℤ × ℤ) : ScreenCall → ℤ × ℤ
  | .putCharAt _ _ _ y | .shiftRow y _ _ => (y, y + 1)
  | .scrollUp t b _ _ | .scrollDown t b _ => (t, b)
  | _ => rows

/-- A write at an offset behind a scroll fills lines of the region. -/
def filled (rows : ℤ × ℤ) : ScreenCall → ℤ × ℤ
  | .scrollUp t b _ _ | .scrollDown t b _ => (t, b)
  | _ => rows

def StaysInRows (v : View) : ℤ × ℤ → List ScreenCall → Prop
  | _, [] => True
  | rows, c :: cs => (∀ a ∈ accesses v c, a.InRows v.sx (addressed rows c)) ∧ StaysInRows v (filled rows c) cs

instance decidableStaysInRows (v : View) : ∀ rows cs, Decidable (StaysInRows v rows cs)
  | _, [] => inferInstanceAs (Decidable True)
  | rows, c :: cs =>
    have : Decidable (StaysInRows v (filled rows c) cs) := decidableStaysInRows v _ cs
    inferInstanceAs (Decidable (_ ∧ _))

/-- The rows that an erasing sequence is about: `J` from the cursor on, up to it, or all; `K` and `X` its row. -/
def csiRows (c : UInt8) (vpar : ℤ) (p : Parser σ) : ℤ × ℤ :=
  if byteChar c = 'J' then (if vpar = 0 then p.y else 0, if vpar = 1 then p.y + 1 else p.height) else (p.y, p.y + 1)

def rowsErased (c : UInt8) (p : Parser σ) : ℤ × ℤ :=
  if p.vcState = .esc then (0, p.height)
  else if p.vcState = .square then csiRows c 0 p
  else csiRows c (parAt p 0) p

/-- A view of the size of the parser's screen, the cursor drawn inside it. -/
structure Shows (v : View) (p : Parser σ) : Prop where
  sx : v.sx = p.width
  sy : v.sy = p.height
  currentX_nonneg : 0 ≤ v.currentX
  currentX_lt : v.currentX < v.sx
  max_nonneg : 0 ≤ v.maxScrollback

section Frame

lemma cellOf_outside {f : ScreenChar → ScreenChar} {buf b : List ScreenChar} {start count : ℤ}
    (h : b ∈ update f buf start count) (hl : v.sy * v.sx ≤ buf.length) {y x : ℤ} (hin : OnScreen v y x)
    (hout : ¬(start ≤ y * v.sx + x ∧ y * v.sx + x < start + count)) : cellOf b v.sx y x = cellOf buf v.sx y x := by
  rw [cellOf_update h hl hin.1 hin.2.1 hin.2.2.1 hin.2.2.2, if_neg hout]

lemma markCurrentIf_frame (hv : Sized v) (covered : Prop) [Decidable covered] (hw : w ∈ markCurrentIf covered v)
    {y x : ℤ} (hin : OnScreen v y x) (hout : ∀ a ∈ markAccess covered v, ¬a.Has (y * v.sx + x)) :
    cellOf w.screen w.sx y x = cellOf v.screen v.sx y x := by
  simp only [markCurrentIf, markAccess] at hw hout
  split_ifs at hw hout
  · obtain ⟨screen, hs, hw⟩ := Option.bind_eq_some_iff.mp hw
    obtain rfl := Option.some.inj hw
    exact cellOf_outside hs (screen_rows_le hv) hin (hout _ (List.mem_singleton_self _))
  · rw [Option.some.inj hw]

lemma cellOf_unmoved {dst src b : List ScreenChar} {d s n : ℤ} (h : b ∈ move dst d src s n)
    (hl : v.sy * v.sx ≤ dst.length) {y x : ℤ} (hin : OnScreen v y x)
    (hout : ¬(d ≤ y * v.sx + x ∧ y * v.sx + x < d + n)) : cellOf b v.sx y x = cellOf dst v.sx y x := by
  obtain ⟨hy0, hy, hx0, hx⟩ := hin
  have hlt := (row_lt_iff hx0 hx v.sy y).mpr hy
  have hg := getD_move h zeroCell (cell_nonneg hy0 hx0 hx) (by omega)
  rw [if_neg hout] at hg
  exact hg

lemma addDirty_screen (ax0 ay0 asx asy : ℤ) (v : View) :
    (addDirty ax0 ay0 asx asy v).screen = v.screen ∧ (addDirty ax0 ay0 asx asy v).sx = v.sx := by
  simp only [addDirty]
  split_ifs <;> exact ⟨rfl, rfl⟩

lemma scrollRegion_frame (hv : Sized v) {t b nr d s delta : ℤ} (hn : ¬(v.sy < b ∨ b ≤ t ∨ nr < 1))
    (hw : w ∈ scrollRegion t b nr d s delta v) {y x : ℤ} (hin : OnScreen v y x)
    (hout : ∀ a ∈ scrollAccess t b nr d s v, ¬a.Has (y * v.sx + x)) :
    cellOf w.screen w.sx y x = cellOf v.screen v.sx y x := by
  rw [scrollAccess, if_neg hn] at hout
  obtain ⟨u, hu, hw⟩ := Option.bind_eq_some_iff.mp hw
  obtain ⟨screen, hm, hw⟩ := Option.bind_eq_some_iff.mp hw
  obtain rfl := Option.some.inj hw
  have hd := markCurrentIf_dirties hv _ u hu
  have hz := hv.retains (markCurrentIf_retains _ v u hu)
  have hmark := markCurrentIf_frame hv _ hu hin fun a ha => hout a (List.mem_append_left _ ha)
  have hmoved := hout (.block (d * v.sx) ((b - t - nr) * v.sx)) (List.mem_append_right _ (by simp))
  have hc := compositeScroll_retains t b delta { u with screen := screen }
  rw [← hmark, (addDirty_screen _ _ _ _ _).1, (addDirty_screen _ _ _ _ _).2, compositeScroll_screen, hc.sx]
  refine cellOf_unmoved hm (screen_rows_le hz) (hin.of_eq hd.sx.symm hd.sy.symm) ?_
  rw [hd.sx]
  exact hmoved

lemma saveLinesIf_eq (save : Prop) [Decidable save] {nr : ℤ} (hw : w ∈ saveLinesIf save nr v) :
    ∃ sbuf n, w = { v with sbuf := sbuf, sbLength := n } := by
  simp only [saveLinesIf] at hw
  split_ifs at hw
  · obtain ⟨shifted, -, hw⟩ := Option.bind_eq_some_iff.mp hw
    obtain ⟨sbuf, -, hw⟩ := Option.bind_eq_some_iff.mp hw
    exact ⟨sbuf, _, (Option.some.inj hw).symm⟩
  · exact ⟨v.sbuf, v.sbLength, (Option.some.inj hw).symm⟩

lemma receive_frame (hv : Sized v) {call : ScreenCall} (hw : w ∈ receive v call) {y x : ℤ} (hin : OnScreen v y x)
    (hout : ∀ a ∈ accesses v call, ¬a.Has (y * v.sx + x)) : cellOf w.screen w.sx y x = cellOf v.screen v.sx y x := by
  cases call with
  | goto x y => rw [← Option.some.inj hw, ts_goto]
  | sendCString str => rw [← Option.some.inj hw]
  | setTitle title titleType => rw [← Option.some.inj hw, ts_setTitle]
  | putCharAt ch k x y =>
    simp only [receive, ts_putCharAt, accesses] at hw hout
    split_ifs at hw hout with hskip
    · rw [Option.some.inj hw]
    all_goals
      obtain ⟨screen, hs, hw⟩ := Option.bind_eq_some_iff.mp hw
      obtain rfl := Option.some.inj hw
      rw [(addDirty_screen _ _ _ _ _).1, (addDirty_screen _ _ _ _ _).2]
      exact cellOf_outside hs (screen_rows_le hv) hin (hout _ (List.mem_singleton_self _))
  | putCharOffset ch k ofs =>
    simp only [receive, ts_putCharOffset, accesses] at hw hout
    obtain ⟨screen, hs, hw⟩ := Option.bind_eq_some_iff.mp hw
    obtain rfl := Option.some.inj hw
    rw [(addDirty_screen _ _ _ _ _).1, (addDirty_screen _ _ _ _ _).2]
    exact cellOf_outside hs (screen_rows_le hv) hin (hout _ (List.mem_singleton_self _))
  | scrollUp t b nr save =>
    simp only [receive, ts_scrollUp] at hw
    obtain ⟨u, hu, hw⟩ := Option.bind_eq_some_iff.mp hw
    have hz := (saveLinesIf_dirties hv _ u hu).2
    obtain ⟨sbuf, n, rfl⟩ := saveLinesIf_eq _ hu
    by_cases hn : v.sy < b ∨ b ≤ t ∨ (if b ≤ t + nr then b - t - 1 else nr) < 1
    · rw [if_pos hn] at hw
      rw [← Option.some.inj hw]
    · rw [if_neg hn] at hw
      exact scrollRegion_frame hz hn hw hin fun a ha => hout a (List.mem_append_right _ ha)
  | scrollDown t b nr =>
    simp only [receive, ts_scrollDown] at hw
    by_cases hn : v.sy < b ∨ b ≤ t ∨ (if b ≤ t + nr then b - t - 1 else nr) < 1
    · rw [if_pos hn] at hw
      rw [Option.some.inj hw]
    · rw [if_neg hn] at hw
      exact scrollRegion_frame hv hn hw hin hout
  | shiftRow r x0 delta =>
    simp only [receive, ts_shiftRow, accesses] at hw hout
    by_cases hskip : r < 0 ∨ v.sy ≤ r ∨ x0 < 0 ∨ v.sx ≤ x0
    · rw [if_pos hskip] at hw
      rw [Option.some.inj hw]
    · rw [if_neg hskip] at hw hout
      obtain ⟨u, hu, hw⟩ := Option.bind_eq_some_iff.mp hw
      obtain ⟨screen, hm, hw⟩ := Option.bind_eq_some_iff.mp hw
      obtain rfl := Option.some.inj hw
      have hd := markCurrentIf_dirties hv _ u hu
      have hz := hv.retains (markCurrentIf_retains _ v u hu)
      have hmark := markCurrentIf_frame hv _ hu hin fun a ha => hout a (List.mem_append_left _ ha)
      have hc := compositeRow_retains { u with screen := screen }
      rw [← hmark, (addDirty_screen _ _ _ _ _).1, (addDirty_screen _ _ _ _ _).2, compositeRow_screen, hc.sx]
      refine cellOf_unmoved hm (screen_rows_le hz) (hin.of_eq hd.sx.symm hd.sy.symm) ?_
      rw [hd.sx]
      exact hout _ (List.mem_append_right _ (List.mem_cons_of_mem _ (List.mem_singleton_self _)))

end Frame

section Rows

lemma stays_append {cs ds : List ScreenCall} (hc : StaysInRows v rows cs) (hd : ∀ rows, StaysInRows v rows ds) :
    StaysInRows v rows (cs ++ ds) := by
  induction cs generalizing rows with
  | nil => exact hd rows
  | cons c cs ih => exact ⟨hc.1, ih hc.2⟩

lemma cells_inRow {sx y x c : ℤ} (hx : 0 ≤ x) (hc : x + c ≤ sx) : y * sx ≤ y * sx + x ∧ y * sx + x + c ≤ (y + 1) * sx := by
  have hrow : (y + 1) * sx = y * sx + sx := by ring
  omega

lemma rows_inRows {sx t b r n : ℤ} (hsx : 0 ≤ sx) (hr : t ≤ r) (hb : r + n ≤ b) :
    t * sx ≤ r * sx ∧ r * sx + n * sx ≤ b * sx := by
  refine ⟨mul_le_mul_of_nonneg_right hr hsx, ?_⟩
  rw [← add_mul]
  exact mul_le_mul_of_nonneg_right hb hsx

lemma mark_inRows (hv : Shows v p) {t b : ℤ} {covered : Prop} [Decidable covered]
    (h : covered → t ≤ v.currentY ∧ v.currentY < b) : ∀ a ∈ markAccess covered v, a.InRows v.sx (t, b) := by
  intro a ha
  simp only [markAccess] at ha
  split_ifs at ha with hc
  · obtain rfl := List.mem_singleton.mp ha
    obtain ⟨ht, hb⟩ := h hc
    have hx := hv.currentX_lt
    have h0 := hv.currentX_nonneg
    obtain ⟨hl, hr⟩ := cells_inRow (y := v.currentY) h0 (by omega : v.currentX + 1 ≤ v.sx)
    obtain ⟨htop, hbot⟩ := rows_inRows (by omega : 0 ≤ v.sx) ht (by omega : v.currentY + 1 ≤ b)
    rw [one_mul] at hbot
    rw [add_mul, one_mul] at hr
    exact .inr ⟨htop.trans hl, hr.trans hbot⟩
  · cases ha

lemma scroll_inRows (hv : Shows v p) {t b nr d s : ℤ} (hk : t + nr ≤ b) (hd : t ≤ d ∧ d ≤ t + nr)
    (hs : t ≤ s ∧ s ≤ t + nr) (hcy : b ≠ v.currentY) : ∀ a ∈ scrollAccess t b nr d s v, a.InRows v.sx (t, b) := by
  have hsx := hv.currentX_nonneg.trans hv.currentX_lt.le
  have hn : 0 ≤ (b - t - nr) * v.sx := mul_nonneg (by omega) hsx
  intro a ha
  rw [scrollAccess] at ha
  split_ifs at ha
  · cases ha
  · rcases List.mem_append.mp ha with hm | hm
    · exact mark_inRows hv (fun h => ⟨h.1, lt_of_le_of_ne h.2 hcy.symm⟩) a hm
    · rcases List.mem_cons.mp hm with rfl | hm
      · exact ⟨hn, rows_inRows hsx hs.1 (by omega)⟩
      · obtain rfl := List.mem_singleton.mp hm
        exact ⟨hn, rows_inRows hsx hd.1 (by omega)⟩

lemma save_inRows (hv : Shows v p) {save : Prop} [Decidable save] {nr t b : ℤ} (hn : 0 ≤ nr) (hb : 0 ≤ b)
    (h : save → t = 0 ∧ b = v.sy) : ∀ a ∈ saveAccess save nr v, a.InRows v.sx (t, b) := by
  have hsx := hv.currentX_nonneg.trans hv.currentX_lt.le
  intro a ha
  rw [saveAccess] at ha
  split_ifs at ha with hsave hlt
  · obtain rfl := List.mem_singleton.mp ha
    obtain ⟨rfl, rfl⟩ := h hsave
    have hnum : 0 ≤ savedLines nr v := by
      rw [savedLines]
      split_ifs
      · exact hn
      · exact hv.max_nonneg
    refine ⟨mul_nonneg hnum hsx, (zero_mul _).le, ?_⟩
    rw [zero_add]
    exact mul_le_mul_of_nonneg_right hlt.le hsx
  · obtain rfl := List.mem_singleton.mp ha
    obtain ⟨rfl, rfl⟩ := h hsave
    exact ⟨mul_nonneg hb hsx, (zero_mul _).le, (zero_add _).le⟩
  · cases ha

lemma put_inRow {ch : ScreenChar} {k x y : ℤ} (hx : 0 ≤ x) :
    ∀ a ∈ accesses v (.putCharAt ch k x y), a.InRows v.sx (y, y + 1) := by
  intro a ha
  simp only [accesses] at ha
  split_ifs at ha
  · cases ha
  all_goals
    obtain rfl := List.mem_singleton.mp ha
    first
      | omega
      | exact .inr (cells_inRow hx (by omega))

lemma offset_inRows {ch : ScreenChar} {k ofs : ℤ} (h0 : 0 ≤ ofs) (hl : rows.1 * v.sx ≤ ofs)
    (hr : ofs + k ≤ rows.2 * v.sx ∨ v.sx * v.sy ≤ rows.2 * v.sx) :
    ∀ a ∈ accesses v (.putCharOffset ch k ofs), a.InRows v.sx rows := by
  intro a ha
  obtain rfl := List.mem_singleton.mp ha
  refine .inr ?_
  rw [if_neg (not_lt.mpr h0), if_neg (not_lt.mpr h0)]
  refine ⟨hl, ?_⟩
  split_ifs <;> omega

lemma shift_inRow (hv : Shows v p) {y x0 delta : ℤ} (h0 : 0 ≤ x0 + delta) (hx : x0 < v.sx → x0 + delta ≤ v.sx) :
    ∀ a ∈ accesses v (.shiftRow y x0 delta), a.InRows v.sx (y, y + 1) := by
  intro a ha
  simp only [accesses, if_neg (not_lt.mpr h0)] at ha
  split_ifs at ha with hskip hcut
  · cases ha
  all_goals
    push Not at hskip
    obtain ⟨hy0, hy, hx0, hxs⟩ := hskip
    have hle := hx hxs
    rcases List.mem_append.mp ha with hm | hm
    · exact mark_inRows hv (fun h => by omega) a hm
    · rcases List.mem_cons.mp hm with rfl | hm
      · exact ⟨by omega, cells_inRow hx0 (by omega)⟩
      · obtain rfl := List.mem_singleton.mp hm
        exact ⟨by omega, cells_inRow h0 (by omega)⟩

lemma single_stays (hv : Shows v p) {call : ScreenCall} (hs : ¬Scrolls call) (hfit : Fits v.sx v.sy call)
    (hq : Single v.sx v.currentY False False call) : ∀ rows, StaysInRows v rows [call] := by
  refine fun rows => ⟨?_, trivial⟩
  cases call with
  | putCharAt ch k x y => exact put_inRow hfit.1
  | putCharOffset ch k ofs => exact hq.elim
  | scrollUp t b nr save => exact absurd trivial hs
  | scrollDown t b nr => exact absurd trivial hs
  | shiftRow y x0 delta => exact shift_inRow hv hq.1 fun hx => (hq.2 hx).resolve_right id
  | goto x y => exact fun a ha => by cases ha
  | sendCString str => exact fun a ha => by cases ha
  | setTitle title titleType => exact fun a ha => by cases ha

lemma block_stays (hv : Shows v p) {cs : List ScreenCall} (hfit : ∀ c ∈ cs, Fits v.sx v.sy c)
    (hb : Block v.sx (Single v.sx v.currentY False False) cs) : ∀ rows, StaysInRows v rows cs := by
  have hsx := hv.currentX_nonneg.trans hv.currentX_lt.le
  cases hb with
  | one hs hq => exact single_stays hv hs (hfit _ List.mem_cons_self) hq
  | @up t b nr save ch hn hlt _ hq =>
    obtain ⟨ht, -, -, hb⟩ : Fits v.sx v.sy (.scrollUp t b nr save) := hfit _ List.mem_cons_self
    have hcy : b ≠ v.currentY := hq.resolve_right id
    intro rows
    refine ⟨fun a ha => ?_, ?_, trivial⟩
    · simp only [accesses, if_neg (not_le.mpr hlt)] at ha
      rcases List.mem_append.mp ha with hm | hm
      · exact save_inRows hv (by omega) (by omega) And.right a hm
      · exact scroll_inRows hv hlt.le (by omega) (by omega) hcy a hm
    · have hr := rows_inRows (t := t) (b := b) (r := b - nr) (n := nr) hsx (by omega) (by omega)
      simp only [mul_comm v.sx]
      exact offset_inRows (mul_nonneg (by omega) hsx) hr.1 (.inl hr.2)
  | @down t b nr ch hn hlt hq =>
    obtain ⟨ht, -, -, hb⟩ : Fits v.sx v.sy (.scrollDown t b nr) := hfit _ List.mem_cons_self
    have hcy : b ≠ v.currentY := hq.resolve_right id
    intro rows
    refine ⟨fun a ha => ?_, ?_, trivial⟩
    · simp only [accesses, if_neg (not_le.mpr hlt)] at ha
      exact scroll_inRows hv hlt.le (by omega) (by omega) hcy a ha
    · have hr := rows_inRows (t := t) (b := b) (r := t) (n := nr) hsx le_rfl hlt.le
      simp only [mul_comm v.sx]
      exact offset_inRows (mul_nonneg ht hsx) hr.1 (.inl hr.2)

lemma blocks_stay (hv : Shows v p) {cs : List ScreenCall} (hfit : ∀ c ∈ cs, Fits v.sx v.sy c)
    (hb : Blocks v.sx (Single v.sx v.currentY False False) cs) : ∀ rows, StaysInRows v rows cs := by
  induction hb with
  | nil => exact fun _ => trivial
  | append hb _ ih =>
    have hrest := ih fun c hc => hfit c (List.mem_append_right _ hc)
    exact fun rows => stays_append (block_stays hv (fun c hc => hfit c (List.mem_append_left _ hc)) hb rows) hrest

end Rows

section Erasing

/-- The sequence erases up to the cursor while it is behind the last column, and there is a row below. -/
def PastMargin (c : UInt8) (vpar : ℤ) (p : Parser σ) : Prop :=
  (byteChar c = 'J' ∨ byteChar c = 'K') ∧ vpar = 1 ∧ p.x = p.width ∧ p.y + 1 < p.height

instance (c : UInt8) (vpar : ℤ) (p : Parser σ) : Decidable (PastMargin c vpar p) := inferInstanceAs (Decidable (_ ∧ _))

lemma eq_of_byteChar {d : UInt8} (h : byteChar c = byteChar d) : c = d := by
  apply UInt8.toNat_inj.mp
  rw [← byteChar_toNat c, h, byteChar_toNat]

lemma tell_stays {call : ScreenCall} (h : ∀ a ∈ accesses v call, a.InRows v.sx (addressed rows call)) :
    StaysInRows v rows (tell call p).calls := ⟨h, trivial⟩

lemma end_of_row (hv : Shows v p) (hp : Sane p) {n : ℤ} (hn : n ≤ (p.y + 1) * p.width ∨ p.height ≤ p.y + 1) :
    n ≤ (p.y + 1) * v.sx ∨ v.sx * v.sy ≤ (p.y + 1) * v.sx := by
  rw [hv.sx, hv.sy, mul_comm p.width]
  exact hn.imp_right fun h => (congrArg (· * p.width) (le_antisymm h hp.y_lt)).le

lemma csi_J_stays (hv : Shows v p) (hp : Sane p) (vpar : ℤ) (hc : byteChar c = 'J') (hpast : ¬PastMargin c vpar p) :
    StaysInRows v (csiRows c vpar p) (csi_J vpar p).calls := by
  have hx := hp.x_nonneg
  have hcell := mul_nonneg hp.y_nonneg (by linarith [hp.width_pos] : 0 ≤ p.width)
  have hsize : p.width * p.height = p.height * p.width := mul_comm _ _
  have hrow : (p.y + 1) * p.width = p.y * p.width + p.width := by ring
  rw [csiRows, if_pos hc]
  rcases eq_or_ne vpar 0 with rfl | h0
  · refine tell_stays (offset_inRows (screen_nonneg hp hx hp.y_nonneg) ?_ (.inl ?_))
    · show p.y * v.sx ≤ p.x + p.y * p.width
      rw [hv.sx]
      omega
    · show p.x + p.y * p.width + (p.width * p.height - (p.x + p.y * p.width)) ≤ p.height * v.sx
      rw [hv.sx]
      omega
  · rcases eq_or_ne vpar 1 with rfl | h1
    · refine tell_stays (offset_inRows (screen_nonneg hp le_rfl le_rfl) ?_ ?_)
      · show 0 * v.sx ≤ 0 + 0 * p.width
        omega
      · refine end_of_row hv hp ?_
        show 0 + 0 * p.width + (p.x + p.y * p.width + 1) ≤ (p.y + 1) * p.width ∨ p.height ≤ p.y + 1
        by_cases hm : p.x = p.width
        · exact .inr (not_lt.mp fun h => hpast ⟨.inl hc, rfl, hm, h⟩)
        · have hlt := lt_of_le_of_ne hp.x_le hm
          omega
    · rw [if_neg h0, if_neg h1]
      rcases eq_or_ne vpar 2 with rfl | h2
      · refine tell_stays (offset_inRows (screen_nonneg hp le_rfl le_rfl) ?_ (.inl ?_))
        · show 0 * v.sx ≤ 0 + 0 * p.width
          omega
        · show 0 + 0 * p.width + p.width * p.height ≤ p.height * v.sx
          rw [hv.sx]
          omega
      · rw [show csi_J vpar p = stay p by
          unfold csi_J
          split <;> first | contradiction | rfl]
        trivial

lemma csi_K_stays (hv : Shows v p) (hp : Sane p) (vpar : ℤ) (hc : byteChar c = 'K') (hpast : ¬PastMargin c vpar p) :
    StaysInRows v (p.y, p.y + 1) (csi_K vpar p).calls := by
  have hx := hp.x_nonneg
  have hrow : (p.y + 1) * p.width = p.y * p.width + p.width := by ring
  have hstart : ∀ x, 0 ≤ x → p.y * v.sx ≤ screen p x p.y := by
    intro x hx
    rw [hv.sx, screen]
    omega
  simp only [csi_K]
  split
  · refine tell_stays (offset_inRows (screen_nonneg hp hx hp.y_nonneg) (hstart _ hx) (end_of_row hv hp (.inl ?_)))
    rw [screen]
    omega
  · refine tell_stays (offset_inRows (screen_nonneg hp le_rfl hp.y_nonneg) (hstart _ le_rfl) (end_of_row hv hp ?_))
    by_cases hm : p.x = p.width
    · exact .inr (not_lt.mp fun h => hpast ⟨.inr hc, rfl, hm, h⟩)
    · have hlt := lt_of_le_of_ne hp.x_le hm
      rw [screen]
      omega
  · refine tell_stays (offset_inRows (screen_nonneg hp le_rfl hp.y_nonneg) (hstart _ le_rfl) (end_of_row hv hp (.inl ?_)))
    rw [screen]
    omega
  · trivial

lemma csi_X_stays (hv : Shows v p) (hp : Sane p) (vpar : ℤ) : StaysInRows v (p.y, p.y + 1) (csi_X vpar p).calls := by
  have hx := hp.x_nonneg
  have hrow : (p.y + 1) * p.width = p.y * p.width + p.width := by ring
  refine tell_stays (offset_inRows (screen_nonneg hp hx hp.y_nonneg) ?_ (end_of_row hv hp (.inl ?_)))
  · show p.y * v.sx ≤ p.x + p.y * p.width
    rw [hv.sx]
    omega
  · rw [screen]
    split_ifs <;> omega

lemma resetTerminal_stays (hv : Shows v p) : StaysInRows v (0, p.height) (resetTerminal p).calls := by
  obtain ⟨x, y, ch, hcalls⟩ : ∃ x y ch, (resetTerminal p).calls =
      [.goto x y, .putCharOffset ch (p.width * p.height) (0 + 0 * p.width)] := ⟨_, _, _, rfl⟩
  rw [hcalls]
  refine ⟨fun a ha => (List.not_mem_nil ha).elim, offset_inRows ?_ ?_ (.inr ?_), trivial⟩
  · rw [zero_mul, add_zero]
  · rw [zero_mul, add_zero]
    exact (zero_mul _).le
  · rw [hv.sx, hv.sy, mul_comm]
    rfl

lemma csiFinal_stays (host : Host σ) (hv : Shows v p) (hp : Sane p) (hc : CsiErases c) (hpast : ¬PastMargin c (parAt p 0) p) :
    StaysInRows v (csiRows c (parAt p 0) p) (csiFinal host c p).calls := by
  rcases hc with hJ | hK | hX
  · obtain rfl : c = 74 := eq_of_byteChar hJ
    exact csi_J_stays hv hp _ hJ hpast
  · obtain rfl : c = 75 := eq_of_byteChar hK
    exact csi_K_stays hv hp _ hK hpast
  · obtain rfl : c = 88 := eq_of_byteChar hX
    exact csi_X_stays hv hp _

end Erasing

/-- The byte ends a control sequence that erases past the right margin. -/
def ErasesPastMargin (c : UInt8) (p : Parser σ) : Prop :=
  (p.vcState = .getpars ∨ p.vcState = .gotpars) ∧ p.ques = false ∧ PastMargin c (parAt p 0) p

instance (c : UInt8) (p : Parser σ) : Decidable (ErasesPastMargin c p) := inferInstanceAs (Decidable (_ ∧ _))

/-- Nothing the byte does is a defect of its operation: it erases no cell behind its rows, shifts no row past
the margin, and scrolls no region with the cursor drawn in the row below it. -/
def KeepsToRows (host : Host σ) (v : View) (c : UInt8) (p : Parser σ) : Prop :=
  ¬ErasesPastMargin c p ∧ ByteFits v.currentY host c p

instance (host : Host σ) (v : View) (c : UInt8) (p : Parser σ) : Decidable (KeepsToRows host v c p) :=
  inferInstanceAs (Decidable (_ ∧ _))

section Bytes

lemma csiErases_eq (hc : CsiErases c) : c = 74 ∨ c = 75 ∨ c = 88 := by
  rcases hc with hJ | hK | hX
  · exact .inl (eq_of_byteChar hJ)
  · exact .inr (.inl (eq_of_byteChar hK))
  · exact .inr (.inr (eq_of_byteChar hX))

lemma gotparsState_erasing (host : Host σ) (hc : CsiErases c) (p : Parser σ) :
    (gotparsState host c p).calls = if p.ques then [] else (csiFinal host c (setState .normal p)).calls := by
  have h : gotparsState host c p = if p.ques then stay { setState .normal p with ques := false }
      else csiFinal host c (setState .normal p) := by
    obtain rfl | rfl | rfl := csiErases_eq hc <;> rfl
  rw [h]
  split_ifs <;> rfl

lemma getparsState_erasing (host : Host σ) (hc : CsiErases c) (p : Parser σ) :
    getparsState host c p = gotparsState host c (setState .gotpars p) := by
  obtain rfl | rfl | rfl := csiErases_eq hc <;> rfl

lemma squareState_erasing (host : Host σ) (hc : CsiErases c) (p : Parser σ) :
    squareState host c p = getparsState host c
      { p with par := List.replicate nparMax 0, npar := 0, vcState := .getpars, ques := false } := by
  obtain rfl | rfl | rfl := csiErases_eq hc <;> rfl

lemma processByte_erasing (host : Host σ) (hc : CsiErases c) (p : Parser σ) :
    processByte host c p = processState host c p := by
  obtain rfl | rfl | rfl := csiErases_eq hc <;> rfl

lemma Shows.frame {q : Parser σ} (hv : Shows v p) (hf : LinuxParser.Frame p q) : Shows v q :=
  ⟨hv.sx.trans hf.width.symm, hv.sy.trans hf.height.symm, hv.currentX_nonneg, hv.currentX_lt, hv.max_nonneg⟩

lemma gotpars_stays (host : Host σ) (hv : Shows v p) (hp : Sane p) (hc : CsiErases c)
    (hpast : p.ques = false → ¬PastMargin c (parAt p 0) p) :
    StaysInRows v (csiRows c (parAt p 0) p) (gotparsState host c p).calls := by
  have hf := setState_frame .normal p
  rw [gotparsState_erasing host hc]
  split_ifs with hq
  · trivial
  · exact csiFinal_stays host (hv.frame hf) (hp.frame hf) hc (hpast (eq_false_of_ne_true hq))

lemma erasing_stays (hv : Shows v p) (hp : Sane p) (he : Erases c p) (hpast : ¬ErasesPastMargin c p) :
    StaysInRows v (rowsErased c p) (processByte host c p).calls := by
  rcases he with ⟨hs, hc⟩ | ⟨hs, hc⟩
  · obtain rfl : c = 99 := eq_of_byteChar hc
    have hcall : processByte host 99 p = resetTerminal (setState .normal p) := by
      show processState host 99 p = _
      simp only [processState, hs]
      rfl
    rw [hcall, rowsErased, if_pos hs]
    have h := resetTerminal_stays (hv.frame (setState_frame .normal p))
    exact h
  · have hesc : p.vcState ≠ .esc := by
      rcases hs with hs | hs | hs <;> rw [hs] <;> decide
    rw [processByte_erasing host hc, rowsErased, if_neg hesc]
    rcases hs with hs | hs
    · simp only [processState, hs, squareState_erasing host hc, getparsState_erasing host hc, if_true]
      have hq : Sane (setState .gotpars
          { p with par := List.replicate nparMax 0, npar := 0, vcState := .getpars, ques := false }) :=
        { hp with npar_lt := Nat.succ_pos 15, par_length := List.length_replicate }
      have hvq : Shows v (setState .gotpars
          { p with par := List.replicate nparMax 0, npar := 0, vcState := .getpars, ques := false }) := { hv with }
      have hzero : (0 : ℤ) ≠ 1 := zero_ne_one
      have h := gotpars_stays host hvq hq hc fun _ h => hzero h.2.1
      exact h
    · have hnot : p.vcState ≠ .square := by
        rcases hs with hs | hs <;> rw [hs] <;> decide
      have hmargin : p.ques = false → ¬PastMargin c (parAt p 0) p := fun hq h => hpast ⟨hs, hq, h⟩
      rw [if_neg hnot]
      rcases hs with hs | hs
      · have hf := setState_frame .gotpars p
        have h := gotpars_stays host (hv.frame hf) (hp.frame hf) hc hmargin
        simp only [processState, hs, getparsState_erasing host hc]
        exact h
      · simp only [processState, hs]
        exact gotpars_stays host hv hp hc hmargin

lemma processByte_stays (hv : Shows v p) (hp : Sane p) (hr : ¬SetsNegativeRegion c p) (ht : ¬StoresStrayTab c p)
    (hk : KeepsToRows host v c p) : StaysInRows v (rowsErased c p) (processByte host c p).calls := by
  by_cases he : Erases c p
  · exact erasing_stays hv hp he hk.1
  · have hkeep : Keeps p (processByte host c p) := processByte_keeps hp hr ht
    have hb : ByteBlocks v.currentY _ _ False p (processByte host c p) :=
      processByte_byteBlocks host c p fun hnot => hnot hk.2
    have hplaced : Placed p := ⟨hp.width_pos, hp.x_nonneg, hp.x_le⟩
    have hcalls : Blocks v.sx (Single v.sx v.currentY False False) (processByte host c p).calls := by
      rw [hv.sx]
      exact (hb.imp id he id).calls.mono fun call hc => hc hplaced
    refine blocks_stay hv ?_ hcalls _
    rw [hv.sx, hv.sy]
    exact hkeep.fits

end Bytes

theorem run_staysInRows (host : Host σ) (size : ScreenSize) (cd : Option σ) (es : List LinuxParser.Event) (c : UInt8)
    (v : View) (hes : Along (LinuxParser.step host) Contained (initial size cd) (es ++ [.byte c]))
    (hv : Shows v (run (LinuxParser.step host) (initial size cd) es))
    (hk : KeepsToRows host v c (run (LinuxParser.step host) (initial size cd) es)) :
    StaysInRows v (rowsErased c (run (LinuxParser.step host) (initial size cd) es))
      (processByte host c (run (LinuxParser.step host) (initial size cd) es)).calls := by
  obtain ⟨hrun, ⟨hr, ht⟩, -⟩ := (along_append _ es [.byte c]).mp hes
  exact processByte_stays hv (run_invariant step_sane (initial_sane size cd) hrun) hr ht hk

def view4x3 : View where
  sx := 4
  sy := 3
  maxScrollback := 2
  screen := blankMemory 12
  sbuf := blankMemory 8
  scrollBottomOnInput := true

/-- A line feed that scrolls a region, with the cursor drawn above it. -/
theorem run_staysInRows_lineFeed :
    StaysInRows view4x3 (rowsErased 10 (run (LinuxParser.step latinHost) (initial size4x3 none) (typed "a\x1b[2;3r\n\n")))
      (processByte latinHost 10 (run (LinuxParser.step latinHost) (initial size4x3 none) (typed "a\x1b[2;3r\n\n"))).calls :=
  run_staysInRows latinHost size4x3 none (typed "a\x1b[2;3r\n\n") 10 view4x3 (by decide)
    ⟨by decide, by decide, by decide, by decide, by decide⟩ (by decide)

/-- A host whose glyphs are two cells wide. -/
def wideHost : Host Unit := { latinHost with useMultiCellGlyphs := true, glyphCells := fun _ => 2 }

/-- A wide character inserted in the last column is a move of -1 cells. -/
theorem wide_insert_not_staysInRows :
    ¬StaysInRows view4x3 (rowsErased 97 (run (LinuxParser.step wideHost) (initial size4x3 none) (typed "\x1b[4h\x1b[4G")))
      (processByte wideHost 97 (run (LinuxParser.step wideHost) (initial size4x3 none) (typed "\x1b[4h\x1b[4G"))).calls := by
  decide

end Xperimentum.Terminal.TerminalView
