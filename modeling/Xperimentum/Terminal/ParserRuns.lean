import Mathlib.Tactic
import Xperimentum.Lib.Runs
import Xperimentum.Terminal.ByteInvariant

/-! Runs of the parser over bytes and resizes, from the state the initialiser leaves. -/

namespace Xperimentum.Terminal.LinuxParser

open Xperimentum.Lib.Runs Xperimentum.Terminal.Charmaps

variable {σ : Type}

structure ScreenSize where
  width : ℤ
  height : ℤ
  width_pos : 1 ≤ width
  width_lt : width < 2 ^ 31
  height_pos : 1 ≤ height
  height_lt : height < 2 ^ 31

inductive Event
  | byte (c : UInt8)
  | resize (size : ScreenSize) (cursorY : ℤ)

def step (host : Host σ) (p : Parser σ) : Event → Parser σ
  | .byte c => (processByte host c p).parser
  | .resize size cursorY => setTerminalScreen size.width size.height cursorY p

def initial (size : ScreenSize) (iconvState : Option σ) : Parser σ :=
  (initWithTerminalScreen size.width size.height iconvState).parser

def Contained (p : Parser σ) : Event → Prop
  | .byte c => ¬SetsNegativeRegion c p ∧ ¬StoresStrayTab c p
  | .resize _ _ => True

instance (p : Parser σ) : ∀ e, Decidable (Contained p e)
  | .byte _ => inferInstanceAs (Decidable (_ ∧ _))
  | .resize _ _ => inferInstanceAs (Decidable True)

lemma setTerminalScreen_sane {p : Parser σ} (hp : Sane p) (size : ScreenSize) (cursorY : ℤ) :
    Sane (setTerminalScreen size.width size.height cursorY p) := by
  have hw := size.width_pos
  have hh := size.height_pos
  have hx := hp.x_nonneg
  refine ⟨⟨?_, ?_, ?_, ?_, le_rfl, ?_, le_rfl, hp.npar_lt, hp.title_le, hp.input_le⟩, hw, size.height_lt,
    hp.par_length⟩
  all_goals simp only [setTerminalScreen]
  · split_ifs <;> omega
  · split_ifs <;> omega
  · split_ifs <;> omega
  · split_ifs <;> omega
  · omega

lemma initWithTerminalScreen_keeps (size : ScreenSize) (cd : Option σ) :
    Keeps { width := size.width, height := size.height }
      (initWithTerminalScreen size.width size.height cd) := by
  have hh := size.height_pos
  let p : Parser σ := { width := size.width, height := size.height, bottom := size.height, color := 0xff, defColor := 0xff }
  have hp : Sane p := by
    refine ⟨⟨le_rfl, ?_, le_rfl, hh, le_rfl, hh, le_rfl, Nat.succ_pos 15, Nat.zero_le _, Nat.zero_le _⟩,
      size.width_pos, size.height_lt, rfl⟩
    exact zero_le_one.trans size.width_pos
  -- the reset sets `bottom` before anything reads it
  have hr : Keeps p (resetTerminal { width := size.width, height := size.height, color := 0xff, defColor := 0xff }) :=
    resetTerminal_keeps hp
  have ho : Keeps p (initWithTerminalScreen size.width size.height cd) :=
    hr.andThen fun q hq _ _ => keeps_frame hq (by constructor <;> rfl)
  exact ho.of_eq rfl rfl

lemma initial_sane (size : ScreenSize) (cd : Option σ) : Sane (initial size cd) :=
  (initWithTerminalScreen_keeps size cd).sane

lemma step_sane {host : Host σ} (p : Parser σ) (e : Event) (hp : Sane p) (he : Contained p e) :
    Sane (step host p e) := by
  cases e with
  | byte c => exact (processByte_keeps hp he.1 he.2).sane
  | resize size cursorY => exact setTerminalScreen_sane hp size cursorY

theorem run_inv (host : Host σ) (size : ScreenSize) (cd : Option σ) (es : List Event)
    (h : Along (step host) Contained (initial size cd) es) : Inv (run (step host) (initial size cd) es) :=
  (run_invariant step_sane (initial_sane size cd) h).toInv

def latinConversion : List UInt8 → Conversion Unit
  | [] => ⟨(), 0, none, .done⟩
  | [b] => ⟨(), 0, some b.toNat, .done⟩
  | b :: c :: bs => ⟨(), (c :: bs).length, some b.toNat, .e2big⟩

/-- A host whose converter is the one from ISO-8859-1. -/
def latinHost : Host Unit where
  iconv _ := latinConversion
  iconv_left _ inp := by
    rcases inp with _ | ⟨b, _ | ⟨c, bs⟩⟩ <;> simp [latinConversion]
  iconv_e2big _ inp h := by
    rcases inp with _ | ⟨b, _ | ⟨c, bs⟩⟩ <;> simp_all [latinConversion]
  iconv_eilseq _ inp h := by
    rcases inp with _ | ⟨b, _ | ⟨c, bs⟩⟩ <;> simp_all [latinConversion]
  useMultiCellGlyphs := false
  glyphCells _ := 1
  strayWord _ _ := 0
  strayStore p _ _ := p

def size80x24 : ScreenSize where
  width := 80
  height := 24
  width_pos := by decide
  width_lt := by decide
  height_pos := by decide
  height_lt := by decide

def typed (text : String) : List Event := text.toList.map fun c => .byte c.toNat.toUInt8

/-- The first parameter wraps to -5, below the second, and becomes the top line. -/
theorem negative_region_not_inv :
    ¬Inv (run (step latinHost) (initial size80x24 none) (typed "\x1b[4294967291;5r")) := by
  intro h
  have ht : ¬0 ≤ (run (step latinHost) (initial size80x24 none) (typed "\x1b[4294967291;5r")).top := by
    decide +kernel
  exact ht h.top_nonneg

theorem run_inv_region :
    Inv (run (step latinHost) (initial size80x24 none)
      (typed "\x1b[2;5r\x1b[99C\x1bHx" ++ [.resize size80x24 7] ++ typed "\x1b[3g\n")) := by
  apply run_inv
  decide

end Xperimentum.Terminal.LinuxParser
