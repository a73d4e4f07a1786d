import Mathlib.Tactic
import Xperimentum.Lib.Byte
import Xperimentum.Terminal.ControlSequences
import Xperimentum.Terminal.CursorTracking
import Xperimentum.Terminal.ParserRuns

/-! Saving the cursor and restoring it: the character for erasing is not changed with the rendition, and a
cursor behind its last column or outside of its region comes back inside. -/

namespace Xperimentum.Terminal.LinuxParser

open Lib.Byte Lib.Runs Charmaps

variable {σ : Type} {host : Host σ} {c : UInt8} {p q : Parser σ}

def savedAttr (p : Parser σ) : ℕ :=
  (p.sIntensity ||| p.sUnderline <<< 2 ||| p.sReverse <<< 3 ||| p.sBlink <<< 4) % 256

/-- The rendition that is saved looks like the current one. -/
def SavedCurrent (p : Parser σ) : Prop := p.sColor % 256 = p.color % 256 ∧ savedAttr p = attrByte p

def RestoresCurrent (p : Parser σ) : Event → Prop
  | .byte c => Restores c p → SavedCurrent p
  | .resize _ _ => True

def StoresTabs (p : Parser σ) : Event → Prop
  | .byte c => ¬StoresStrayTab c p
  | .resize _ _ => True

instance (p : Parser σ) : ∀ e, Decidable (StoresTabs p e)
  | .byte _ => inferInstanceAs (Decidable (¬_))
  | .resize _ _ => isTrue trivial

/-- The cursor is where it is put back to, and the character set in use is the one that is selected. -/
structure InPlace (p : Parser σ) : Prop where
  x_nonneg : 0 ≤ p.x
  x_lt : p.x < p.width
  y_region : p.decom = true → p.top ≤ p.y ∧ p.y < p.bottom
  y_screen : p.decom = false → 0 ≤ p.y ∧ p.y < p.height
  translate : p.translate = currentTranslate p

section Restoring

lemma restoreCur_erase (hp : EraseCurrent p) : EraseCurrent (restoreCur p).parser ↔ SavedCurrent p := by
  have herase : (restoreCur p).parser.videoEraseChar = p.videoEraseChar := rfl
  have hcolor : (restoreCur p).parser.color = p.sColor := rfl
  have hattr : attrByte (restoreCur p).parser = savedAttr p := rfl
  rw [EraseCurrent, herase, hcolor, hattr, hp.1, hp.2]
  exact and_congr eq_comm eq_comm

lemma escState_restores (hc : byteChar c = '8') (p : Parser σ) :
    escState host c p = restoreCur (setState .normal p) := by
  simp only [escState, hc]

lemma gotparsState_restores (hc : byteChar c = 'u') (hques : p.ques = false) :
    gotparsState host c p = restoreCur (setState .normal p) := by
  simp only [gotparsState, hc]
  rw [if_neg (by rw [setState, hques]; decide)]
  simp only [csiFinal, hc]
  rfl

lemma byte_of_char (c : UInt8) : (byteChar c = '8' → c.toNat = 56) ∧ (byteChar c = 'u' → c.toNat = 117) := by
  revert c
  exact forall_byte (by decide)

lemma getparsState_restores (hc : byteChar c = 'u') (hques : p.ques = false) :
    getparsState host c p = restoreCur (setState .normal (setState .gotpars p)) := by
  have hbyte := (byte_of_char c).2 hc
  rw [getparsState, if_neg (by omega), if_neg (by omega)]
  exact gotparsState_restores hc hques

lemma processByte_restores (h : Restores c p) (hp : EraseCurrent p) :
    EraseCurrent (processByte host c p).parser ↔ SavedCurrent p := by
  have hplain (hbyte : c.toNat = 56 ∨ c.toNat = 117) : processByte host c p = processState host c p :=
    processByte_plain (by omega) (by omega) (by omega)
  rcases h with ⟨hs, hc⟩ | ⟨hs, hc⟩ | ⟨hs | hs, hques, hc⟩
  · rw [hplain (.inl ((byte_of_char c).1 hc)), processState, hs]
    simp only [escState_restores hc]
    exact restoreCur_erase (p := setState .normal p) hp
  · have hbyte := (byte_of_char c).2 hc
    have hno : decide (c.toNat = 63) = false := decide_eq_false (by omega)
    rw [hplain (.inr hbyte), processState, hs]
    simp only [squareState, hno]
    rw [if_neg (show ¬c.toNat = 91 by omega), if_neg Bool.false_ne_true, getparsState_restores hc rfl]
    exact restoreCur_erase hp
  · rw [hplain (.inr ((byte_of_char c).2 hc)), processState, hs]
    simp only [getparsState_restores hc hques]
    exact restoreCur_erase (p := setState .normal (setState .gotpars p)) hp
  · rw [hplain (.inr ((byte_of_char c).2 hc)), processState, hs]
    simp only [gotparsState_restores hc hques]
    exact restoreCur_erase (p := setState .normal p) hp

lemma step_erase (p : Parser σ) (e : Event) (hp : EraseCurrent p) (he : StoresTabs p e) :
    EraseCurrent (step host p e) ↔ RestoresCurrent p e := by
  cases e with
  | resize size cursorY => exact iff_of_true hp trivial
  | byte c =>
    by_cases hc : Restores c p
    · exact (processByte_restores hc hp).trans ⟨fun h _ => h, fun h => h hc⟩
    · exact iff_of_true ((processByte_tracks he).erase hc hp) fun h => absurd h hc

end Restoring

lemma clampInto_eq_iff {n lower upper : ℤ} : clampInto n lower upper = n ↔ lower ≤ n ∧ n < upper := by
  rw [clampInto]
  split_ifs <;> omega

/-- `ESC 7` and `ESC 8`. -/
def saveRestore : List UInt8 := [0x1b, 0x37, 0x1b, 0x38]

lemma parser_saveRestore (host : Host σ) (p : Parser σ) :
    (processBytes host saveRestore p).parser =
      { saveCur (setState .normal p) with
        x := clampInto p.x 0 p.width
        y := if p.decom then clampInto p.y p.top p.bottom else clampInto p.y 0 p.height
        translate := currentTranslate p } := by
  have hesc (q : Parser σ) : Reads host [0x1b] q (setState .esc q) := reads_stay rfl
  have hsave (q : Parser σ) : Reads host [0x37] (setState .esc q) (saveCur (setState .normal q)) := reads_stay rfl
  have hread := ((hesc p).trans (hsave p)).trans (hesc _)
  have hrestore (q : Parser σ) :
      (processBytes host [0x38] (setState .esc q)).parser = (restoreCur (setState .normal q)).parser := rfl
  exact (congrArg Outcome.parser (hread [0x38])).trans (hrestore _)

lemma saveRestore_iff (host : Host σ) (p : Parser σ) :
    (processBytes host saveRestore p).parser = saveCur (setState .normal p) ↔ InPlace p := by
  rw [parser_saveRestore]
  constructor
  · intro h
    have hx : clampInto p.x 0 p.width = p.x := congrArg Parser.x h
    have hy : (if p.decom then clampInto p.y p.top p.bottom else clampInto p.y 0 p.height) = p.y :=
      congrArg Parser.y h
    have htranslate : currentTranslate p = p.translate := congrArg Parser.translate h
    obtain ⟨h0, hlt⟩ := clampInto_eq_iff.mp hx
    refine ⟨h0, hlt, fun hd => ?_, fun hd => ?_, htranslate.symm⟩
    · rw [if_pos hd] at hy
      exact clampInto_eq_iff.mp hy
    · rw [if_neg (by rw [hd]; exact Bool.false_ne_true)] at hy
      exact clampInto_eq_iff.mp hy
  · rintro ⟨h0, hlt, hregion, hscreen, htranslate⟩
    have hx : clampInto p.x 0 p.width = p.x := clampInto_eq_iff.mpr ⟨h0, hlt⟩
    have hy : (if p.decom then clampInto p.y p.top p.bottom else clampInto p.y 0 p.height) = p.y := by
      split_ifs with hd
      · exact clampInto_eq_iff.mpr (hregion hd)
      · exact clampInto_eq_iff.mpr (hscreen (eq_false_of_ne_true hd))
    rw [hx, hy, ← htranslate]
    rfl

lemma initial_erase (size : ScreenSize) (cd : Option σ) : EraseCurrent (initial size cd) := ⟨rfl, rfl⟩

theorem savedCursor_iff (host : Host σ) (size : ScreenSize) (cd : Option σ) (es : List Event)
    (h : Along (step host) StoresTabs (initial size cd) es) :
    ((∀ n, EraseCurrent (run (step host) (initial size cd) (es.take n))) ↔
        Along (step host) RestoresCurrent (initial size cd) es) ∧
      ∀ p : Parser σ, (processBytes host saveRestore p).parser = saveCur (setState .normal p) ↔ InPlace p :=
  ⟨run_iff step_erase (initial_erase size cd) h, saveRestore_iff host⟩

theorem savedCursor_session :
    ((∀ n, EraseCurrent (run (step latinHost) (initial size80x24 none)
        ((typed "\x1b[31m\x1b7x\x1bH\x1b8\x1b[K").take n))) ↔
        Along (step latinHost) RestoresCurrent (initial size80x24 none) (typed "\x1b[31m\x1b7x\x1bH\x1b8\x1b[K")) ∧
      ∀ p : Parser Unit, (processBytes latinHost saveRestore p).parser = saveCur (setState .normal p) ↔ InPlace p :=
  savedCursor_iff latinHost size80x24 none _ (by decide)

/-- The colour has been restored, and erasing goes on with the red one. -/
theorem restored_colour_not_erased :
    ¬EraseCurrent (run (step latinHost) (initial size80x24 none) (typed "\x1b7\x1b[31m\x1b8")) := by
  decide

end Xperimentum.Terminal.LinuxParser
