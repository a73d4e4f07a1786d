import Mathlib.Data.List.TakeWhile
import Xperimentum.WMcore.PropList

/-! `wtokennext` and `wtokensplit`, and the words of a command line under its quoting. -/

namespace Xperimentum.WMcore

/-- `PRC_ALPHA` and so on. -/
inductive CharType
  | alpha | blank | escape | dquote | eos | squote
  deriving DecidableEq

/-- The rows of `mtable`. -/
inductive DFAState
  | s0 | s1 | s2 | s3 | s4 | s5 | s6 | s7 | s8
  deriving DecidableEq

structure DFA where
  nstate : DFAState
  output : Bool

def DFA.row (alpha blank escape dquote eos squote : DFA) : CharType → DFA
  | .alpha => alpha
  | .blank => blank
  | .escape => escape
  | .dquote => dquote
  | .eos => eos
  | .squote => squote

/-- What the table has for `s5` and `s8` is not followed. -/
def mtable : DFAState → CharType → DFA
  | .s0 => .row ⟨.s3, true⟩ ⟨.s0, false⟩ ⟨.s4, false⟩ ⟨.s1, false⟩ ⟨.s8, false⟩ ⟨.s6, false⟩
  | .s1 => .row ⟨.s1, true⟩ ⟨.s1, true⟩ ⟨.s2, false⟩ ⟨.s3, false⟩ ⟨.s5, false⟩ ⟨.s1, true⟩
  | .s2 => .row ⟨.s1, true⟩ ⟨.s1, true⟩ ⟨.s1, true⟩ ⟨.s1, true⟩ ⟨.s5, false⟩ ⟨.s1, true⟩
  | .s3 => .row ⟨.s3, true⟩ ⟨.s5, false⟩ ⟨.s4, false⟩ ⟨.s1, false⟩ ⟨.s5, false⟩ ⟨.s6, false⟩
  | .s4 => .row ⟨.s3, true⟩ ⟨.s3, true⟩ ⟨.s3, true⟩ ⟨.s3, true⟩ ⟨.s5, false⟩ ⟨.s3, true⟩
  | .s5 => .row ⟨.s0, true⟩ ⟨.s0, false⟩ ⟨.s0, false⟩ ⟨.s0, false⟩ ⟨.s0, false⟩ ⟨.s0, false⟩
  | .s6 => .row ⟨.s6, true⟩ ⟨.s6, true⟩ ⟨.s7, false⟩ ⟨.s6, true⟩ ⟨.s5, false⟩ ⟨.s3, false⟩
  | .s7 => .row ⟨.s6, true⟩ ⟨.s6, true⟩ ⟨.s6, true⟩ ⟨.s6, true⟩ ⟨.s5, false⟩ ⟨.s6, true⟩
  | .s8 => .row ⟨.s0, true⟩ ⟨.s0, false⟩ ⟨.s0, false⟩ ⟨.s0, false⟩ ⟨.s0, false⟩ ⟨.s0, false⟩

/-- A negative output in the column of `PRC_ALPHA`. -/
def DFAState.final : DFAState → Bool
  | .s5 | .s8 => true
  | _ => false

def charType (ch : UInt8) : CharType :=
  if ch = 92 then .escape
  else if ch = 34 then .dquote
  else if ch = 39 then .squote
  else if ch = 32 ∨ ch = 9 then .blank
  else .alpha

/-- The loop from `ptr` on: what it adds to `ret`, and where `*next` points. At the end of the text every entry for
`PRC_EOS` ends the word. -/
@[grind =] def tokenFrom (state : DFAState) : Text → Text × Option Text
  | [] => ([], none)
  | ch :: ptr =>
    let entry := mtable state (charType ch)
    let rest := if entry.nstate.final then ([], some ptr) else tokenFrom entry.nstate ptr
    (if entry.output then ch :: rest.1 else rest.1, rest.2)

def wtokennext (word : Text) : Option Text × Option Text :=
  let (ret, next) := tokenFrom .s0 word
  (if ret = [] then none else some ret, next)

lemma length_next (state : DFAState) (word : Text) : ∀ ptr ∈ (tokenFrom state word).2, ptr.length < word.length := by
  induction word generalizing state with
  | nil =>
    intro ptr hptr
    cases hptr
  | cons ch word ih =>
    intro ptr hptr
    simp only [tokenFrom] at hptr
    split_ifs at hptr
    · obtain rfl := Option.some.inj hptr
      exact Nat.lt_succ_self _
    · exact Nat.lt_succ_of_lt (ih _ ptr hptr)

@[grind =] def wtokensplit (line : Text) : List Text :=
  match h : wtokennext line with
  | (none, _) => []
  | (some token, none) => [token]
  | (some token, some next) => token :: wtokensplit next
termination_by line.length
decreasing_by
  refine length_next .s0 line next ?_
  have hnext := congrArg Prod.snd h
  exact hnext

/-! The words of a command: every character stands for itself, or it is a mark, or a blank between words. -/

inductive Quoted
  | outside | double | single
  deriving DecidableEq

inductive Mark
  | literal (ch : UInt8)
  | dropped
  | blank
  deriving DecidableEq

@[grind =] def marks : Quoted → Text → List Mark
  | _, [] => []
  | _, [92] => [.dropped]
  | q, 92 :: ch :: text => .dropped :: .literal ch :: marks q text
  | .outside, ch :: text =>
    if ch = 34 then .dropped :: marks .double text
    else if ch = 39 then .dropped :: marks .single text
    else if ch = 32 ∨ ch = 9 then .blank :: marks .outside text
    else .literal ch :: marks .outside text
  | .double, ch :: text =>
    if ch = 34 then .dropped :: marks .outside text else .literal ch :: marks .double text
  | .single, ch :: text =>
    if ch = 39 then .dropped :: marks .outside text else .literal ch :: marks .single text

def Mark.char : Mark → Option UInt8
  | .literal ch => some ch
  | _ => none

def literals (ms : List Mark) : Text := ms.filterMap Mark.char

def inWord (m : Mark) : Bool := m ≠ .blank

/-- The words are what runs of blanks separate. -/
@[grind =] def splitWords : List Mark → List Text
  | [] => []
  | .blank :: ms => splitWords ms
  | m :: ms => literals ((m :: ms).takeWhile inWord) :: splitWords (ms.dropWhile inWord)
termination_by ms => ms.length
decreasing_by
  · exact Nat.lt_succ_self _
  · exact Nat.lt_succ_of_le (List.dropWhile_sublist _).length_le

def words (command : Text) : List Text := splitWords (marks .outside command)

/-! The table follows the marks. -/

def escaped (q : Quoted) : Text → List Mark
  | [] => []
  | ch :: text => .literal ch :: marks q text

/-- The marks of the rest of a text that is read on in a state. -/
def marksIn : DFAState → Text → List Mark
  | .s1 => marks .double
  | .s2 => escaped .double
  | .s4 => escaped .outside
  | .s6 => marks .single
  | .s7 => escaped .single
  | _ => marks .outside

lemma marks_escape (q : Quoted) (text : Text) : marks q (92 :: text) = .dropped :: escaped q text := by
  cases text with
  | nil => rw [marks, escaped]
  | cons ch text => rw [marks, escaped]

lemma marks_outside {ch : UInt8} (h : ch ≠ 92) (text : Text) : marks .outside (ch :: text) =
    if ch = 34 then .dropped :: marks .double text
    else if ch = 39 then .dropped :: marks .single text
    else if ch = 32 ∨ ch = 9 then .blank :: marks .outside text
    else .literal ch :: marks .outside text := by
  rw [marks]
  · exact fun h' _ => h h'
  · exact fun _ _ h' => absurd h' h

lemma marks_double {ch : UInt8} (h : ch ≠ 92) (text : Text) : marks .double (ch :: text) =
    if ch = 34 then .dropped :: marks .outside text else .literal ch :: marks .double text := by
  rw [marks]
  · exact fun h' _ => h h'
  · exact fun _ _ h' => absurd h' h

lemma marks_single {ch : UInt8} (h : ch ≠ 92) (text : Text) : marks .single (ch :: text) =
    if ch = 39 then .dropped :: marks .outside text else .literal ch :: marks .single text := by
  rw [marks]
  · exact fun h' _ => h h'
  · exact fun _ _ h' => absurd h' h

lemma charType_cases {ch : UInt8} (h : ch ≠ 92) :
    (ch = 34 ∧ charType ch = .dquote) ∨ (ch = 39 ∧ charType ch = .squote) ∨
      ((ch = 32 ∨ ch = 9) ∧ charType ch = .blank) ∨
        (ch ≠ 34 ∧ ch ≠ 39 ∧ ¬(ch = 32 ∨ ch = 9) ∧ charType ch = .alpha) := by
  simp only [charType, if_neg h]
  split_ifs with hd hs hb
  · exact .inl ⟨hd, rfl⟩
  · exact .inr (.inl ⟨hs, rfl⟩)
  · exact .inr (.inr (.inl ⟨hb, rfl⟩))
  · exact .inr (.inr (.inr ⟨hd, hs, hb, rfl⟩))

lemma marksIn_cons (state : DFAState) (h : state.final = false) (ch : UInt8) (text : Text) :
    ∃ m, marksIn state (ch :: text) = m :: marksIn (mtable state (charType ch)).nstate text ∧
      (m.char = if (mtable state (charType ch)).output then some ch else none) ∧
      (inWord m = false ↔ state = .s0 ∧ charType ch = .blank ∨ (mtable state (charType ch)).nstate.final = true) := by
  have hcell : ∀ q, escaped q (ch :: text) = .literal ch :: marks q text := fun q => rfl
  by_cases hescape : ch = 92
  · subst hescape
    have htype : charType 92 = .escape := by decide
    cases state <;>
      simp_all [marksIn, marks_escape, mtable, DFA.row, Mark.char, inWord, DFAState.final]
  · have hout := marks_outside hescape text
    have hdouble := marks_double hescape text
    have hsingle := marks_single hescape text
    rcases charType_cases hescape with ⟨rfl, htype⟩ | ⟨rfl, htype⟩ | ⟨hblank, htype⟩ | ⟨hd, hs, hb, htype⟩
    · cases state <;>
        simp_all [marksIn, mtable, DFA.row, Mark.char, inWord, DFAState.final]
    · cases state <;>
        simp_all [marksIn, mtable, DFA.row, Mark.char, inWord, DFAState.final]
    · have hd : ch ≠ 34 := by rintro rfl; revert hblank; decide
      have hs : ch ≠ 39 := by rintro rfl; revert hblank; decide
      cases state <;>
        simp_all [marksIn, mtable, DFA.row, Mark.char, inWord, DFAState.final]
    · cases state <;>
        simp_all [marksIn, mtable, DFA.row, Mark.char, inWord, DFAState.final]

lemma inWord_eq_false {m : Mark} : inWord m = false ↔ m = .blank := by
  rw [inWord, decide_eq_false_iff_not, ne_eq, not_not]

lemma literals_cons {m : Mark} {output : Bool} {ch : UInt8} (h : m.char = if output = true then some ch else none)
    (ms : List Mark) : literals (m :: ms) = if output = true then ch :: literals ms else literals ms := by
  rw [literals, List.filterMap_cons, h]
  cases output
  · rfl
  · rfl

lemma nstate_ne_s0 {state : DFAState} (h : state.final = false) (h0 : state ≠ .s0) (ctype : CharType) :
    (mtable state ctype).nstate ≠ .s0 := by
  cases state <;> first | cases h; done | exact absurd rfl h0 | cases ctype <;> decide

lemma tokenFrom_marks {state : DFAState} (h : state.final = false) (h0 : state ≠ .s0) (text : Text) :
    (tokenFrom state text).1 = literals ((marksIn state text).takeWhile inWord) ∧
      splitWords ((marksIn state text).dropWhile inWord) = ((tokenFrom state text).2.map words).getD [] := by
  induction text generalizing state with
  | nil =>
    have hnil : marksIn state [] = [] := by
      cases state <;> rfl
    rw [hnil, tokenFrom]
    exact ⟨rfl, by rw [List.dropWhile_nil, splitWords]; rfl⟩
  | cons ch text ih =>
    obtain ⟨m, hms, hchar, hword⟩ := marksIn_cons state h ch text
    have hs0 : ¬(state = .s0 ∧ charType ch = .blank) := fun hs => h0 hs.1
    have hiff := hword.trans (or_iff_right hs0)
    rw [hms]
    simp only [tokenFrom]
    cases hfinal : (mtable state (charType ch)).nstate.final with
    | true =>
      have hblank := inWord_eq_false.mp (hiff.mpr hfinal)
      have houtput : (mtable state (charType ch)).output = false := by
        by_contra htrue
        rw [hblank, if_pos (eq_true_of_ne_false htrue)] at hchar
        cases hchar
      have hrest : marksIn (mtable state (charType ch)).nstate text = marks .outside text := by
        cases hstate : (mtable state (charType ch)).nstate <;> first | rfl | (rw [hstate] at hfinal; cases hfinal)
      rw [List.takeWhile_cons_of_neg (by rw [hblank]; decide), List.dropWhile_cons_of_neg (by rw [hblank]; decide),
        houtput, if_pos rfl, hblank, hrest, splitWords]
      exact ⟨rfl, rfl⟩
    | false =>
      have hin : inWord m = true := by
        rw [← Bool.not_eq_false, hiff, hfinal]
        exact Bool.false_ne_true
      obtain ⟨htoken, hnext⟩ := ih hfinal (nstate_ne_s0 h h0 _)
      rw [List.takeWhile_cons_of_pos hin, List.dropWhile_cons_of_pos hin, if_neg Bool.false_ne_true,
        literals_cons hchar, htoken]
      exact ⟨rfl, hnext⟩

lemma tokenFrom_start (text : Text) :
    words text = [] ∧ tokenFrom .s0 text = ([], none) ∨
      words text = (tokenFrom .s0 text).1 :: ((tokenFrom .s0 text).2.map words).getD [] := by
  induction text with
  | nil =>
    refine .inl ⟨?_, rfl⟩
    rw [words, marks, splitWords]
  | cons ch text ih =>
    obtain ⟨m, hms, hchar, hword⟩ := marksIn_cons .s0 rfl ch text
    have hfinal : (mtable .s0 (charType ch)).nstate.final = false := by
      by_cases hescape : ch = 92
      · rw [hescape]
        rfl
      · rcases charType_cases hescape with ⟨-, htype⟩ | ⟨-, htype⟩ | ⟨-, htype⟩ | ⟨-, -, -, htype⟩ <;> rw [htype] <;> rfl
    rw [hfinal, or_iff_left Bool.false_ne_true, and_iff_right rfl] at hword
    rw [words]
    change marks .outside (ch :: text) = _ at hms
    rw [hms]
    simp only [tokenFrom, hfinal, if_neg Bool.false_ne_true]
    by_cases hblank : charType ch = .blank
    · obtain rfl := inWord_eq_false.mp (hword.mpr hblank)
      rw [hblank, splitWords]
      exact ih
    · have hin : inWord m = true := by
        rw [← Bool.not_eq_false, hword]
        exact hblank
      have hs0 : (mtable .s0 (charType ch)).nstate ≠ .s0 := by
        revert hblank
        cases charType ch <;> decide
      obtain ⟨htoken, hnext⟩ := tokenFrom_marks hfinal hs0 text
      refine .inr ?_
      rw [splitWords, List.takeWhile_cons_of_pos hin, hnext, literals_cons hchar, htoken]
      rintro rfl
      cases hin

lemma words_of_none {word : Text} {next : Option Text} (h : wtokennext word = (none, next)) :
    (words word).takeWhile (· ≠ []) = [] := by
  have hret : (if (tokenFrom .s0 word).1 = [] then none else some (tokenFrom .s0 word).1) = none := congrArg Prod.fst h
  rw [ite_eq_left_iff] at hret
  have hempty : (tokenFrom .s0 word).1 = [] := by
    by_contra hne
    exact absurd (hret hne) (Option.some_ne_none _)
  rcases tokenFrom_start word with ⟨hwords, -⟩ | hwords
  · rw [hwords, List.takeWhile_nil]
  · rw [hwords, hempty, List.takeWhile_cons_of_neg (by decide)]

lemma words_of_some {word token : Text} {next : Option Text} (h : wtokennext word = (some token, next)) :
    token ≠ [] ∧ words word = token :: (next.map words).getD [] := by
  have hret : (if (tokenFrom .s0 word).1 = [] then none else some (tokenFrom .s0 word).1) = some token :=
    congrArg Prod.fst h
  have hnext : (tokenFrom .s0 word).2 = next := congrArg Prod.snd h
  split at hret
  · cases hret
  · next hne =>
    have htoken : (tokenFrom .s0 word).1 = token := Option.some.inj hret
    rw [htoken] at hne
    refine ⟨hne, ?_⟩
    rcases tokenFrom_start word with ⟨-, hstart⟩ | hwords
    · exact absurd (htoken.symm.trans (congrArg Prod.fst hstart)) hne
    · rw [hwords, htoken, hnext]

lemma wtokensplit_eq (line : Text) : wtokensplit line = (words line).takeWhile (· ≠ []) := by
  induction line using wtokensplit.induct with
  | case1 line next h =>
    rw [wtokensplit, h, words_of_none h]
  | case2 line token h =>
    obtain ⟨hne, hwords⟩ := words_of_some h
    rw [wtokensplit, h, hwords, List.takeWhile_cons_of_pos (by simpa using hne)]
    rfl
  | case3 line token next h ih =>
    obtain ⟨hne, hwords⟩ := words_of_some h
    rw [wtokensplit, h, hwords, List.takeWhile_cons_of_pos (by simpa using hne)]
    exact congrArg _ ih

lemma flatten_splitWords (ms : List Mark) : (splitWords ms).flatten = literals ms := by
  induction ms using splitWords.induct with
  | case1 =>
    rw [splitWords]
    rfl
  | case2 ms ih =>
    rw [splitWords, ih]
    rfl
  | case3 m ms hm ih =>
    have hin : inWord m = true := by
      rw [← Bool.not_eq_false, inWord_eq_false]
      exact hm
    rw [splitWords, List.flatten_cons, ih, literals, literals, ← List.filterMap_append]
    · rw [List.takeWhile_cons_of_pos hin, List.cons_append, List.takeWhile_append_dropWhile]
      rfl
    · exact hm

/-- Every word is returned, and nothing but blanks and marks is left out. -/
structure ReturnsWords (command : Text) (tokens : List Text) : Prop where
  words : tokens = words command
  concatenated : tokens.flatten = literals (marks .outside command)

/-- Every word with a character is returned, whether or not an empty one is. -/
def ReturnsCharacters (command : Text) (tokens : List Text) : Prop := tokens = (words command).filter (· ≠ [])

/-- The words are returned if none is empty; those with a character are if none stands behind an empty one. -/
theorem wtokensplit_returnsWords_iff (command : Text) :
    (ReturnsWords command (wtokensplit command) ↔ [] ∉ words command) ∧
      (ReturnsCharacters command (wtokensplit command) ↔
        ∀ word ∈ (words command).dropWhile (· ≠ []), word = []) := by
  have hself : (words command).takeWhile (· ≠ []) = words command ↔ [] ∉ words command := by
    rw [List.takeWhile_eq_self_iff]
    refine ⟨fun h hmem => ?_, fun h word hword => ?_⟩
    · exact of_decide_eq_true (h [] hmem) rfl
    · apply decide_eq_true
      rintro rfl
      exact h hword
  refine ⟨⟨fun h => ?_, fun h => ?_⟩, ?_⟩
  · rw [← hself, ← wtokensplit_eq]
    exact h.words
  · have htokens := (wtokensplit_eq command).trans (hself.mpr h)
    refine ⟨htokens, ?_⟩
    rw [htokens, words, flatten_splitWords]
  · have hfilter : (words command).filter (· ≠ []) =
        (words command).takeWhile (· ≠ []) ++ ((words command).dropWhile (· ≠ [])).filter (· ≠ []) := by
      have hsplit := congrArg (List.filter (· ≠ [])) (List.takeWhile_append_dropWhile (p := (· ≠ [])) (l := words command))
      rw [List.filter_append] at hsplit
      rw [← hsplit]
      congr 1
      exact List.filter_eq_self.mpr fun word hword => List.all_eq_true.mp List.all_takeWhile word hword
    rw [ReturnsCharacters, wtokensplit_eq, hfilter, List.self_eq_append_right, List.filter_eq_nil_iff]
    refine forall₂_congr fun word _ => ?_
    rw [decide_eq_true_iff, not_not]

/-- Two double quotes, a blank and a letter. -/
theorem empty_word_not_returned : ¬ReturnsWords [34, 34, 32, 97] (wtokensplit [34, 34, 32, 97]) := by
  intro h
  have hwords : words [34, 34, 32, 97] = [[], [97]] := by
    simp [words, marks, splitWords, literals, inWord, Mark.char]
  have htokens := h.words
  rw [wtokensplit_eq, hwords] at htokens
  cases htokens

end Xperimentum.WMcore
