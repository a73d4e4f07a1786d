import Xperimentum.Lib.Byte
import Xperimentum.Lib.ShellWords
import Xperimentum.WMcore.PropList

/-! `wshellquote`: what it writes fits into its allocation, and a shell reads it back. -/

namespace Xperimentum.WMcore

open Lib.Byte Lib.ShellWords

/-- A block that is being filled from its beginning. -/
structure Block where
  size : ℕ
  bytes : Text

def Block.put (ch : UInt8) (block : Block) : Option Block :=
  if block.bytes.length < block.size then some { block with bytes := block.bytes ++ [ch] } else none

def Block.putAll (text : Text) (block : Block) : Option Block := text.foldlM (fun block ch => block.put ch) block

def Block.putIf (c : Prop) [Decidable c] (ch : UInt8) (block : Block) : Option Block :=
  if c then block.put ch else some block

def needsNoQuoting (ch : UInt8) : Bool := isalnum ch || ch = 43 || ch = 47 || ch = 46 || ch = 44 || ch = 45

def needsQuoting (s : Text) : Bool := s = [] || !s.all needsNoQuoting

def quotedSize (s : Text) : ℕ := (s.map fun ch => if ch = 39 then 4 else 1).sum + 2 + 1

/-- The loop over the characters from `p` on; `last` is the one that its last round began with. -/
@[grind =] def quoteRest (first : Bool) (last : UInt8) : Text → Block → Option (Block × UInt8)
  | [], block => some (block, last)
  | 39 :: p, block => do
    let block ← block.putIf (first = false) 39
    let block ← block.putAll [92, 39]
    let block ← (p.takeWhile (· = 39)).foldlM (fun block _ => block.putAll [92, 39]) block
    let block ← block.putIf (p.dropWhile (· = 39) ≠ []) 39
    quoteRest false 39 (p.dropWhile (· = 39)) block
  | ch :: p, block => do
    let block ← block.put ch
    quoteRest false ch p block
termination_by p => p.length
decreasing_by
  · exact Nat.lt_succ_of_le (List.dropWhile_sublist _).length_le
  · exact Nat.lt_succ_self _

/-- No result is a write behind the allocation. -/
def wshellquote (s : Text) : Option Text :=
  if needsQuoting s = false then some s
  else do
    let block : Block := ⟨quotedSize s, []⟩
    let block ← block.putIf (s.head? ≠ some 39) 39
    let (block, last) ← quoteRest true (s.headD 0) s block
    let block ← block.putIf (last ≠ 39) 39
    let _ ← block.put 0
    pure block.bytes

/-! What it writes. -/

def escapeQuotes (run : Text) : Text := run.flatMap fun _ => [92, 39]

/-- The rest of the result, as it follows within apostrophes. -/
@[grind =] def quotedRest : Text → Text
  | [] => [39]
  | 39 :: p =>
    39 :: 92 :: 39 :: escapeQuotes (p.takeWhile (· = 39)) ++
      if p.dropWhile (· = 39) = [] then [] else 39 :: quotedRest (p.dropWhile (· = 39))
  | ch :: p => ch :: quotedRest p
termination_by p => p.length
decreasing_by
  · exact Nat.lt_succ_of_le (List.dropWhile_sublist _).length_le
  · exact Nat.lt_succ_self _

def shellQuoted (s : Text) : Text := if s.head? = some 39 then (quotedRest s).tail else 39 :: quotedRest s

section Writes

variable {block : Block} {last : UInt8} {first : Bool}

lemma putAll_append (s t : Text) (block : Block) : block.putAll (s ++ t) = (block.putAll s).bind (·.putAll t) :=
  List.foldlM_append

lemma putAll_singleton (ch : UInt8) (block : Block) : block.putAll [ch] = block.put ch := by
  rw [Block.putAll, List.foldlM_cons]
  exact Option.bind_fun_some _

lemma putAll_cons (ch : UInt8) (s : Text) (block : Block) : block.putAll (ch :: s) = (block.put ch).bind (·.putAll s) :=
  List.foldlM_cons

lemma putAll_run (run : Text) (block : Block) :
    run.foldlM (fun block _ => block.putAll [92, 39]) block = block.putAll (escapeQuotes run) := by
  induction run generalizing block with
  | nil => rfl
  | cons ch run ih =>
    rw [List.foldlM_cons, escapeQuotes, List.flatMap_cons, putAll_append]
    exact congrArg _ (funext ih)

lemma putAll_of_le {s : Text} (h : block.bytes.length + s.length ≤ block.size) :
    block.putAll s = some { block with bytes := block.bytes ++ s } := by
  induction s generalizing block with
  | nil => rw [List.append_nil]; rfl
  | cons ch s ih =>
    rw [List.length_cons] at h
    rw [putAll_cons, Block.put, if_pos (by omega), Option.bind_some, ih]
    · rw [List.append_assoc]
      rfl
    · change (block.bytes ++ [ch]).length + s.length ≤ block.size
      rw [List.length_append, List.length_singleton]
      omega

lemma putIf_eq (c : Prop) [Decidable c] (ch : UInt8) (block : Block) :
    block.putIf c ch = block.putAll (if c then [ch] else []) := by
  rw [Block.putIf]
  split
  · exact (putAll_singleton ch block).symm
  · rfl

def closeQuotes (rest : Block × UInt8) : Option Block := rest.1.putIf (rest.2 ≠ 39) 39

lemma quoteRest_close (s : Text) (h : s = [] → last ≠ 39) :
    (quoteRest first last s block).bind closeQuotes =
      block.putAll (if first = true ∧ s.head? = some 39 then (quotedRest s).tail else quotedRest s) := by
  induction s using quotedRest.induct generalizing first last block with
  | case1 =>
    rw [quoteRest, quotedRest, if_neg (by simp), Option.bind_some, closeQuotes, putIf_eq, if_pos (h rfl)]
  | case2 p ih =>
    have hopen : (if first = true ∧ (39 :: p).head? = some 39 then (quotedRest (39 :: p)).tail
        else quotedRest (39 :: p)) = (if first = false then [39] else []) ++ ([92, 39] ++
          (escapeQuotes (p.takeWhile (· = 39)) ++
            if p.dropWhile (· = 39) = [] then [] else 39 :: quotedRest (p.dropWhile (· = 39)))) := by
      rw [quotedRest]
      cases first
      · rfl
      · rfl
    have hmore : ∀ block : Block, ((block.putIf (p.dropWhile (· = 39) ≠ []) 39).bind fun block =>
        (quoteRest false 39 (p.dropWhile (· = 39)) block).bind closeQuotes) =
          block.putAll (if p.dropWhile (· = 39) = [] then [] else 39 :: quotedRest (p.dropWhile (· = 39))) := by
      intro block
      by_cases hrest : p.dropWhile (· = 39) = []
      · rw [if_pos hrest, hrest, Block.putIf, if_neg (not_not.mpr rfl), Option.bind_some, quoteRest, Option.bind_some,
          closeQuotes, Block.putIf, if_neg (not_not.mpr rfl)]
        rfl
      · rw [if_neg hrest, Block.putIf, if_pos hrest, putAll_cons]
        refine congrArg _ (funext fun block => ?_)
        rw [ih fun h => absurd h hrest, if_neg (by simp)]
    rw [hopen, quoteRest, putAll_append, ← putIf_eq]
    simp only [bind, Option.bind_assoc, putAll_append, putAll_run, hmore]
  | case3 ch p hch ih =>
    have hhead : ¬(first = true ∧ (ch :: p).head? = some 39) := fun h => hch (Option.some.inj h.2)
    rw [if_neg hhead, quotedRest, putAll_cons]
    · simp only [quoteRest, bind, Option.bind_assoc]
      refine congrArg _ (funext fun block => ?_)
      rw [ih fun _ h => hch h, if_neg (by simp)]
    · exact hch

lemma quotedSize_cons (ch : UInt8) (s : Text) : quotedSize (ch :: s) = (if ch = 39 then 4 else 1) + quotedSize s := by
  rw [quotedSize, List.map_cons, List.sum_cons, quotedSize]
  omega

lemma quotedSize_run (p : Text) :
    quotedSize p = 4 * (p.takeWhile (· = 39)).length + quotedSize (p.dropWhile (· = 39)) := by
  induction p with
  | nil => rfl
  | cons ch p ih =>
    by_cases hch : ch = 39
    · rw [List.takeWhile_cons_of_pos (by simp [hch]), List.dropWhile_cons_of_pos (by simp [hch]), List.length_cons,
        quotedSize_cons, if_pos hch, ih]
      omega
    · rw [List.takeWhile_cons_of_neg (by simp [hch]), List.dropWhile_cons_of_neg (by simp [hch]), List.length_nil,
        mul_zero, zero_add]

lemma length_escapeQuotes (run : Text) : (escapeQuotes run).length = 2 * run.length := by
  rw [escapeQuotes, List.length_flatMap, List.map_const', List.sum_replicate, smul_eq_mul]
  exact mul_comm _ _

lemma length_quotedRest (s : Text) : (quotedRest s).length + 2 ≤ quotedSize s := by
  induction s using quotedRest.induct with
  | case1 =>
    rw [quotedRest]
    decide
  | case2 p ih =>
    have hrun := quotedSize_run p
    rw [quotedRest, quotedSize_cons, if_pos rfl]
    simp only [List.cons_append, List.length_cons, List.length_append, length_escapeQuotes]
    split
    · rw [List.length_nil]
      omega
    · rw [List.length_cons]
      omega
  | case3 ch p hch ih =>
    rw [quotedRest, quotedSize_cons, if_neg hch, List.length_cons]
    · omega
    · exact hch

lemma wshellquote_eq {s : Text} (h : needsQuoting s = true) : wshellquote s = some (shellQuoted s) := by
  have hlast : s = [] → s.headD 0 ≠ 39 := by
    rintro rfl
    decide
  have hsize := length_quotedRest s
  have hwrites : ∀ block : Block, ((block.putIf (s.head? ≠ some 39) 39).bind fun block =>
      (quoteRest true (s.headD 0) s block).bind closeQuotes) = block.putAll (shellQuoted s) := by
    intro block
    rw [shellQuoted, putIf_eq]
    by_cases hhead : s.head? = some 39
    · rw [if_neg (not_not.mpr hhead), if_pos hhead]
      refine (quoteRest_close s hlast).trans ?_
      rw [if_pos ⟨rfl, hhead⟩]
    · rw [if_pos hhead, if_neg hhead, putAll_singleton, putAll_cons]
      refine congrArg _ (funext fun block => (quoteRest_close s hlast).trans ?_)
      rw [if_neg fun h => hhead h.2]
  have hlength : (shellQuoted s).length + 1 ≤ quotedSize s := by
    rw [shellQuoted]
    split
    · rw [List.length_tail]
      omega
    · rw [List.length_cons]
      omega
  have hall : (⟨quotedSize s, []⟩ : Block).putAll (shellQuoted s) = some ⟨quotedSize s, shellQuoted s⟩ :=
    putAll_of_le (by simpa using Nat.le_of_succ_le hlength)
  have hend : (Block.put 0 ⟨quotedSize s, shellQuoted s⟩).bind (fun _ => some (shellQuoted s)) = some (shellQuoted s) := by
    rw [Block.put, if_pos]
    · rfl
    · exact hlength
  rw [wshellquote, if_neg (by simp [h])]
  have hdone := congrArg (fun o => o.bind fun block => (block.put 0).bind fun _ => some block.bytes)
    ((hwrites ⟨quotedSize s, []⟩).trans hall)
  simp only [Option.bind_assoc, closeQuotes, Option.bind_some, hend] at hdone
  exact hdone

end Writes

/-! What a shell reads. -/

lemma readWord_run {run text value : Text} (hrun : ∀ ch ∈ run, ch = 39) (h : readWord .unquoted text = some value) :
    readWord .unquoted (escapeQuotes run ++ text) = some (run ++ value) := by
  induction run with
  | nil => exact h
  | cons ch run ih =>
    rw [List.forall_mem_cons] at hrun
    obtain ⟨rfl, hrun⟩ := hrun
    rw [escapeQuotes, List.flatMap_cons]
    change readWord .unquoted (92 :: 39 :: (escapeQuotes run ++ text)) = _
    rw [readWord, if_neg (by decide), ih hrun]
    rfl

lemma readWord_quotedRest (s : Text) : readWord .apostrophes (quotedRest s) = some s := by
  induction s using quotedRest.induct with
  | case1 =>
    rw [quotedRest]
    rfl
  | case2 p ih =>
    have hrun : ∀ ch ∈ p.takeWhile (· = 39), ch = 39 := by
      intro ch hch
      exact of_decide_eq_true (List.all_eq_true.mp List.all_takeWhile ch hch)
    have hrest : readWord .unquoted (if p.dropWhile (· = 39) = [] then [] else 39 :: quotedRest (p.dropWhile (· = 39))) =
        some (p.dropWhile (· = 39)) := by
      split
      · next h => rw [h]; rfl
      · rw [readWord]
        exact ih
    have hvalue := readWord_run hrun hrest
    rw [List.takeWhile_append_dropWhile] at hvalue
    rw [quotedRest]
    change readWord .apostrophes (39 :: 92 :: 39 :: (escapeQuotes _ ++ _)) = _
    rw [readWord, readWord, if_neg (by decide), hvalue]
    rfl
  | case3 ch p hch ih =>
    rw [quotedRest, readWord, ih]
    · rfl
    · exact hch
    · exact hch

lemma plain_of_needsNoQuoting : ∀ ch, needsNoQuoting ch = true → ch ≠ 39 ∧ ch ≠ 34 ∧ ch ≠ 92 ∧ isSpecial ch = false :=
  forall_byte (by decide)

lemma readWord_plain {s : Text} (h : s.all needsNoQuoting = true) : readWord .unquoted s = some s := by
  induction s with
  | nil => rfl
  | cons ch s ih =>
    rw [List.all_cons, Bool.and_eq_true] at h
    obtain ⟨hquote, hdouble, hescape, hspecial⟩ := plain_of_needsNoQuoting ch h.1
    rw [readWord, hspecial, ih h.2]
    · rfl
    · exact hquote
    · exact hdouble
    · exact fun h => absurd h hescape
    · exact fun _ _ h => absurd h hescape

/-- What is written stays inside of the allocation, and a shell reads it as one word with the value `s`. -/
theorem wshellquote_faithful (s : Text) : ∃ quoted, wshellquote s = some quoted ∧ wordValue quoted = some s := by
  cases hquoting : needsQuoting s with
  | false =>
    refine ⟨s, by rw [wshellquote, if_pos hquoting], ?_⟩
    rw [needsQuoting, Bool.or_eq_false_iff, Bool.not_eq_false', decide_eq_false_iff_not] at hquoting
    rw [wordValue, if_neg hquoting.1, readWord_plain hquoting.2]
  | true =>
    refine ⟨shellQuoted s, wshellquote_eq hquoting, ?_⟩
    have hread := readWord_quotedRest s
    cases s with
    | nil =>
      rw [shellQuoted, quotedRest]
      rfl
    | cons ch p =>
      by_cases hch : ch = 39
      · subst hch
        rw [quotedRest] at hread
        rw [shellQuoted, if_pos (by rfl), quotedRest, wordValue, if_neg (by simp)]
        exact hread
      · rw [shellQuoted, if_neg (by simpa using hch), wordValue, if_neg (List.cons_ne_nil _ _), readWord, hread]

end Xperimentum.WMcore
