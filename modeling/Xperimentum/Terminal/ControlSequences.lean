import Mathlib.Tactic
import Xperimentum.Terminal.Utf8Printing

/-! The bytes of a control sequence with decimal parameters, and what the parser has read when its last byte comes. -/

namespace Xperimentum.Terminal.LinuxParser

open Xperimentum.Lib.Int32

variable {σ : Type} {host : Host σ} {p q r : Parser σ}

def digitByte (d : Fin 10) : UInt8 := UInt8.ofNat (48 + d.val)

def digits (ds : List (Fin 10)) : List UInt8 := ds.map digitByte

def value (ds : List (Fin 10)) : ℕ := ds.foldl (fun n d => n * 10 + d.val) 0

/-- `ESC [`, the parameters and the last byte. -/
def csi (parameters : List UInt8) (final : UInt8) : List UInt8 := 0x1b :: 0x5b :: (parameters ++ [final])

/-- The bytes change the state only, and the screen is told nothing. -/
def Reads (host : Host σ) (bs : List UInt8) (p q : Parser σ) : Prop :=
  ∀ cs, processBytes host (bs ++ cs) p = processBytes host cs q

lemma Reads.trans {bs cs : List UInt8} (h : Reads host bs p q) (h' : Reads host cs q r) : Reads host (bs ++ cs) p r := by
  intro ds
  rw [List.append_assoc, h, h']

lemma reads_stay {b : UInt8} (h : processByte host b p = stay q) : Reads host [b] p q := by
  intro cs
  rw [List.singleton_append, processBytes, h]
  cases cs <;> rfl

/-- The state in which the first byte behind `ESC [` is looked at. -/
def opened (p : Parser σ) : Parser σ :=
  { p with par := List.replicate nparMax 0, npar := 0, vcState := .getpars, ques := false }

lemma opened_sane (hp : Sane p) : Sane (opened p) := { hp with npar_lt := Nat.succ_pos 15, par_length := rfl }

/-- A byte of a control sequence that is not `[` or `?`. -/
def Plain (c : UInt8) : Prop := 0x20 ≤ c.toNat ∧ c.toNat < 0x7f ∧ c.toNat ≠ 91 ∧ c.toNat ≠ 63

instance (c : UInt8) : Decidable (Plain c) := inferInstanceAs (Decidable (_ ∧ _))

lemma processByte_getpars {c : UInt8} (hc : Plain c) (hp : p.vcState = .getpars) :
    processByte host c p = getparsState host c p := by
  rw [processByte_plain hc.1 (by have := hc.2.1; omega) (by have := hc.2.1; omega), processState, hp]

lemma processBytes_opened {c : UInt8} (hc : Plain c) (cs : List UInt8) (p : Parser σ) :
    processBytes host (0x1b :: 0x5b :: c :: cs) p = processBytes host (c :: cs) (opened p) := by
  have hesc : Reads host [0x1b] p (setState .esc p) := reads_stay rfl
  have hsquare : Reads host [0x5b] (setState .esc p) (setState .square p) := reads_stay rfl
  have hfirst : processByte host c (setState .square p) = processByte host c (opened p) := by
    have hques : decide (c.toNat = 63) = false := decide_eq_false hc.2.2.2
    rw [processByte_getpars hc (show (opened p).vcState = .getpars from rfl)]
    rw [processByte_plain hc.1 (by have := hc.2.1; omega) (by have := hc.2.1; omega)]
    simp only [processState, setState, opened, squareState, if_neg hc.2.2.1, hques]
    rfl
  have hopen := (hesc.trans hsquare) (c :: cs)
  rw [List.append_assoc] at hopen
  refine Eq.trans hopen ?_
  rw [processBytes, hfirst, processBytes]

lemma digitByte_toNat (d : Fin 10) : (digitByte d).toNat = 48 + d.val := ofNat_toNat (by omega)

lemma plain_digitByte (d : Fin 10) : Plain (digitByte d) := by
  rw [Plain, digitByte_toNat]
  omega

lemma setPar_self (hp : Sane p) {n : ℤ} (h : parAt p p.npar = n) : setPar p.npar n p = p := by
  have hl : p.npar < p.par.length := by
    rw [hp.par_length]
    exact hp.npar_lt
  have hget : parAt p p.npar = p.par[p.npar] := by
    rw [parAt, List.getD_eq_getElem?_getD, List.getElem?_eq_getElem hl, Option.getD_some]
  rw [setPar, ← h, hget, List.set_getElem_self]

lemma reads_digit (host : Host σ) (hp : Sane p) (hs : p.vcState = .getpars) (d : Fin 10) {n : ℕ} (h : parAt p p.npar = wrap32 n) :
    Reads host [digitByte d] p (setPar p.npar (wrap32 (n * 10 + d.val : ℕ)) p) := by
  have hten : wrap32 (wrap32 n * 10) ≡ n * 10 [ZMOD 2 ^ 32] :=
    (wrap32_modEq _).trans ((wrap32_modEq n).mul_right 10)
  have hdigit : ((48 + d.val : ℕ) : ℤ) - 48 = d.val := by omega
  have hnew : wrap32 (wrap32 (wrap32 n * 10) + d.val) = wrap32 (n * 10 + d.val : ℕ) := by
    apply wrap32_of_modEq
    rw [Nat.cast_add, Nat.cast_mul]
    exact hten.add_right _
  apply reads_stay
  rw [processByte_getpars (plain_digitByte d) hs, getparsState, digitByte_toNat, if_neg (by omega), if_pos (by omega),
    h, hdigit, hnew]

lemma reads_digits (host : Host σ) (hp : Sane p) (hs : p.vcState = .getpars) (ds : List (Fin 10)) {n : ℕ} (h : parAt p p.npar = wrap32 n) :
    Reads host (digits ds) p (setPar p.npar (wrap32 (ds.foldl (fun n d => n * 10 + d.val) n : ℕ)) p) := by
  induction ds generalizing p n with
  | nil =>
    intro cs
    rw [List.foldl_nil, setPar_self hp h]
    rfl
  | cons d ds ih =>
    have hone := reads_digit host hp hs d h
    have hset : parAt (setPar p.npar (wrap32 (n * 10 + d.val : ℕ)) p) p.npar = wrap32 (n * 10 + d.val : ℕ) := by
      rw [parAt_setPar hp hp.npar_lt, if_pos rfl]
    have hrest := ih (hp.frame (setPar_frame p.npar _ p)) hs hset
    have htwice : setPar p.npar (wrap32 (ds.foldl (fun n d => n * 10 + d.val) (n * 10 + d.val) : ℕ))
        (setPar p.npar (wrap32 (n * 10 + d.val : ℕ)) p) =
          setPar p.npar (wrap32 (ds.foldl (fun n d => n * 10 + d.val) (n * 10 + d.val) : ℕ)) p := by
      simp only [setPar, List.set_set]
    intro cs
    refine (hone (digits ds ++ cs)).trans ((hrest cs).trans ?_)
    exact congrArg (processBytes host cs) htwice

lemma plain_digits (ds : List (Fin 10)) : ∀ c ∈ digits ds, Plain c := by
  intro c hc
  obtain ⟨d, _, rfl⟩ := List.mem_map.mp hc
  exact plain_digitByte d

/-- A last byte that does not set or reset modes or ask for a report. -/
def Final (c : UInt8) : Prop :=
  0x40 ≤ c.toNat ∧ c.toNat < 0x7f ∧ c.toNat ≠ 91 ∧ byteChar c ≠ 'h' ∧ byteChar c ≠ 'l' ∧ byteChar c ≠ 'n'

instance (c : UInt8) : Decidable (Final c) := inferInstanceAs (Decidable (_ ∧ _))

lemma Final.plain {c : UInt8} (h : Final c) : Plain c := by
  obtain ⟨hlow, hhigh, hbracket, _⟩ := h
  exact ⟨by omega, hhigh, hbracket, by omega⟩

/-- One parameter has been read. -/
def oneRead (ds : List (Fin 10)) (p : Parser σ) : Parser σ := setPar 0 (wrap32 (value ds)) (opened p)

/-- Two parameters have been read. -/
def twoRead (ds es : List (Fin 10)) (p : Parser σ) : Parser σ :=
  setPar 1 (wrap32 (value es)) { oneRead ds p with npar := 1 }

lemma parAt_opened (p : Parser σ) (i : ℕ) : parAt (opened p) i = 0 := by
  rw [parAt, opened, List.getD_eq_getElem?_getD, List.getElem?_replicate]
  split_ifs <;> rfl

lemma reads_one (hp : Sane p) (ds : List (Fin 10)) : Reads host (digits ds) (opened p) (oneRead ds p) :=
  reads_digits host (opened_sane hp) rfl ds (parAt_opened p 0)

lemma oneRead_sane (hp : Sane p) (ds : List (Fin 10)) : Sane (oneRead ds p) :=
  (opened_sane hp).frame (setPar_frame 0 _ _)

lemma secondOpened_sane (hp : Sane p) (ds : List (Fin 10)) : Sane { oneRead ds p with npar := 1 } :=
  { oneRead_sane hp ds with npar_lt := by change 1 < 16; omega }

lemma parAt_oneRead (hp : Sane p) (ds : List (Fin 10)) (i : ℕ) :
    parAt (oneRead ds p) i = if i = 0 then wrap32 (value ds) else 0 := by
  rw [oneRead, parAt_setPar (opened_sane hp) (by decide), parAt_opened]

lemma parAt_twoRead (hp : Sane p) (ds es : List (Fin 10)) (i : ℕ) :
    parAt (twoRead ds es p) i = if i = 1 then wrap32 (value es) else if i = 0 then wrap32 (value ds) else 0 := by
  rw [twoRead, parAt_setPar (secondOpened_sane hp ds) (by decide), ← parAt_oneRead hp ds]
  rfl

lemma reads_two (hp : Sane p) (ds es : List (Fin 10)) :
    Reads host (digits ds ++ 0x3b :: digits es) (opened p) (twoRead ds es p) := by
  have hsemicolon : processByte host 0x3b (oneRead ds p) = stay { oneRead ds p with npar := 1 } := by
    rw [processByte_getpars (by decide) rfl, getparsState, if_pos]
    · rfl
    · exact ⟨rfl, by change 0 < 15; omega⟩
  have hsecond : parAt { oneRead ds p with npar := 1 } 1 = wrap32 (0 : ℕ) := parAt_oneRead hp ds 1
  have hrest := reads_digits host (secondOpened_sane hp ds) rfl es hsecond
  exact (reads_one hp ds).trans ((reads_stay hsemicolon).trans hrest)

lemma processBytes_csi {parameters : List UInt8} (hplain : ∀ c ∈ parameters, Plain c) {final : UInt8}
    (hfinal : Final final) (hread : Reads host parameters (opened p) q) :
    processBytes host (csi parameters final) p = processBytes host [final] q := by
  rw [← hread, csi]
  cases parameters with
  | nil => exact processBytes_opened hfinal.plain [] p
  | cons c cs => exact processBytes_opened (hplain c List.mem_cons_self) (cs ++ [final]) p

lemma processBytes_final {final : UInt8} (hfinal : Final final) (hs : q.vcState = .getpars) (hques : q.ques = false) :
    (processBytes host [final] q).parser = (csiFinal host final (setState .normal q)).parser ∧
      (processBytes host [final] q).calls = (csiFinal host final (setState .normal q)).calls := by
  have hbyte : processByte host final q = csiFinal host final (setState .normal q) := by
    obtain ⟨hlow, hhigh, -, hh, hl, hn⟩ := id hfinal
    rw [processByte_getpars hfinal.plain hs, getparsState, if_neg (by omega), if_neg (by omega), gotparsState]
    split
    · exact absurd ‹_› hh
    · exact absurd ‹_› hl
    · exact absurd ‹_› hn
    · rw [if_neg (by rw [setState, setState, hques]; decide)]
      rfl
  simp only [processBytes, hbyte, stay, List.append_nil, and_self]

lemma processBytes_one (hp : Sane p) (ds : List (Fin 10)) {final : UInt8} (hfinal : Final final) :
    (processBytes host (csi (digits ds) final) p).parser =
        (csiFinal host final (setState .normal (oneRead ds p))).parser ∧
      (processBytes host (csi (digits ds) final) p).calls =
        (csiFinal host final (setState .normal (oneRead ds p))).calls := by
  rw [processBytes_csi (plain_digits ds) hfinal (reads_one hp ds)]
  exact processBytes_final hfinal rfl rfl

lemma processBytes_two (hp : Sane p) (ds es : List (Fin 10)) {final : UInt8} (hfinal : Final final) :
    (processBytes host (csi (digits ds ++ 0x3b :: digits es) final) p).parser =
        (csiFinal host final (setState .normal (twoRead ds es p))).parser ∧
      (processBytes host (csi (digits ds ++ 0x3b :: digits es) final) p).calls =
        (csiFinal host final (setState .normal (twoRead ds es p))).calls := by
  have hplain : ∀ c ∈ digits ds ++ 0x3b :: digits es, Plain c := by
    intro c hc
    rcases List.mem_append.mp hc with hc | hc
    · exact plain_digits ds c hc
    · rcases List.mem_cons.mp hc with rfl | hc
      · decide
      · exact plain_digits es c hc
  rw [processBytes_csi hplain hfinal (reads_two hp ds es)]
  exact processBytes_final hfinal rfl rfl

end Xperimentum.Terminal.LinuxParser
