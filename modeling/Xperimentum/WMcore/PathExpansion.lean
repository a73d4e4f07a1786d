import Xperimentum.WMcore.FindFile

/-! A path expands, piece by piece, to the text of its pieces, exactly if that and the names fit into the buffers; no
access is outside of them. -/

namespace Xperimentum.WMcore.FindFile

/-- The text that a piece of the path is replaced by, and the name that is looked up for it, if it is not a plain
character. -/
structure Piece where
  text : List Char
  name : Option (List Char)

section Pieces

variable (getenv : List Char → Option (List Char)) (home : List Char)
  (getuserhomedir : List Char → Option (List Char))

def parenthesised (path : List Char) : Piece × List Char :=
  let name := path.takeWhile (· ≠ ')')
  let rest := path.dropWhile (· ≠ ')')
  let text := if rest = [] then '$' :: '(' :: name else (getenv name).getD ('$' :: '(' :: (name ++ [')']))
  (⟨text, some name⟩, rest.tail)

def plain (path : List Char) : Piece × List Char :=
  let name := path.takeWhile (· ≠ '/')
  (⟨(getenv name).getD ('$' :: name), some name⟩, path.dropWhile (· ≠ '/'))

def variablePiece (path : List Char) : Piece × List Char :=
  if path.head? = some '(' then parenthesised getenv path.tail else plain getenv path

def pieces : ℕ → List Char → List Piece
  | 0, _ => []
  | _ + 1, [] => []
  | turns + 1, c :: path =>
    if c = '$' then (variablePiece getenv path).1 :: pieces turns (variablePiece getenv path).2
    else ⟨[c], none⟩ :: pieces turns path

def text (pieces : List Piece) : List Char := pieces.flatMap fun piece => piece.text

/-- A piece fits behind `i` characters. A plain character may be the last one for which there is room. -/
def Piece.Fits (pathMax i : ℕ) (piece : Piece) : Prop :=
  ∀ name ∈ piece.name, name.length ≤ pathMax + 1 ∧ i + piece.text.length ≤ pathMax

def Fits (pathMax : ℕ) : ℕ → List Piece → Prop
  | _, [] => True
  | i, piece :: rest => (i ≤ pathMax ∧ piece.Fits pathMax i) ∧ Fits pathMax (i + piece.text.length) rest

instance (pathMax i : ℕ) (piece : Piece) : Decidable (piece.Fits pathMax i) :=
  inferInstanceAs (Decidable (∀ name ∈ piece.name, _ ∧ _))

instance decidableFits (pathMax : ℕ) : ∀ (i : ℕ) (pieces : List Piece), Decidable (Fits pathMax i pieces)
  | _, [] => inferInstanceAs (Decidable True)
  | i, piece :: rest =>
    have := decidableFits pathMax (i + piece.text.length) rest
    inferInstanceAs (Decidable ((_ ∧ _) ∧ Fits pathMax (i + piece.text.length) rest))

/-- What stands for the home directory in front, with the name that is looked up for it, and the rest of the path. -/
def homePiece (path : List Char) : Option Piece × List Char :=
  if path.head? = some '~' then
    if path.tail.head? = some '/' ∨ path.tail = [] then (some ⟨home, none⟩, path.tail)
    else
      let name := path.tail.takeWhile (· ≠ '/')
      ((getuserhomedir name).map fun text => ⟨text, some name⟩, path.tail.dropWhile (· ≠ '/'))
  else (some ⟨[], none⟩, path)

/-- The pieces behind the home directory. -/
def restPieces (path : List Char) : List Piece :=
  pieces getenv (homePiece home getuserhomedir path).2.length (homePiece home getuserhomedir path).2

def HomeFits (pathMax : ℕ) (piece : Piece) : Prop :=
  (piece.name = none → piece.text.length ≤ pathMax) ∧
    ∀ name ∈ piece.name, name.length ≤ pathMax + 1 ∧ piece.text.length ≤ pathMax + 1

instance (pathMax : ℕ) (piece : Piece) : Decidable (HomeFits pathMax piece) :=
  inferInstanceAs (Decidable ((_ → _) ∧ ∀ name ∈ piece.name, _ ∧ _))

end Pieces

/-- The result is an answer under a condition, and otherwise the error. -/
def Gives {α : Type} (r : Except Failure α) (P : Prop) (a : α) : Prop :=
  P ∧ r = .ok a ∨ ¬P ∧ r = .error .nameTooLong

section Gives

variable {α β : Type} {r : Except Failure α} {f : α → Except Failure β} {P Q : Prop} {a : α} {b : β}

lemma gives_ok (a : α) : Gives (.ok a) True a := .inl ⟨trivial, rfl⟩

lemma Gives.bind (h : Gives r P a) (hf : P → Gives (f a) Q b) : Gives (r >>= f) (P ∧ Q) b := by
  rcases h with ⟨hp, rfl⟩ | ⟨hp, rfl⟩
  · rcases hf hp with ⟨hq, hb⟩ | ⟨hq, herror⟩
    · exact .inl ⟨⟨hp, hq⟩, hb⟩
    · exact .inr ⟨fun hboth => hq hboth.2, herror⟩
  · exact .inr ⟨fun hboth => hp hboth.1, rfl⟩

lemma Gives.congr (h : Gives r P a) (hPQ : P ↔ Q) : Gives r Q a := by
  rcases h with ⟨hp, hr⟩ | ⟨hp, hr⟩
  · exact .inl ⟨hPQ.mp hp, hr⟩
  · exact .inr ⟨fun hq => hp (hPQ.mpr hq), hr⟩

end Gives

variable {pathMax n i : ℕ} {getenv getuserhomedir : List Char → Option (List Char)} {stop c : Char}
  {home path name content src : List Char}

lemma atMost_gives : Gives (atMost pathMax n) (n ≤ pathMax) () := by
  rw [atMost]
  split_ifs with h
  · exact .inr ⟨not_le.mpr h, rfl⟩
  · exact .inl ⟨not_lt.mp h, rfl⟩

lemma inside_eq (h : n ≤ pathMax + 1) : inside pathMax n = .ok () := if_pos (Nat.lt_succ_of_le h)

lemma readName_gives (path : List Char) (hname : name.length ≤ pathMax + 1) :
    Gives (readName pathMax stop path name) ((name ++ path.takeWhile (· ≠ stop)).length ≤ pathMax + 1)
      (name ++ path.takeWhile (· ≠ stop), path.dropWhile (· ≠ stop)) := by
  induction path generalizing name with
  | nil =>
    rw [readName, inside_eq hname, List.takeWhile_nil, List.append_nil]
    exact .inl ⟨hname, rfl⟩
  | cons c path ih =>
    rw [readName]
    by_cases hstop : c = stop
    · rw [if_pos hstop, inside_eq hname, List.takeWhile_cons_of_neg (by simp [hstop]), List.append_nil,
        List.dropWhile_cons_of_neg (by simp [hstop])]
      exact .inl ⟨hname, rfl⟩
    · rw [if_neg hstop, inside_eq hname, List.takeWhile_cons_of_pos (by simp [hstop]),
        List.dropWhile_cons_of_pos (by simp [hstop]), List.append_cons name c (path.takeWhile _)]
      have hlength : (name ++ [c]).length = name.length + 1 := List.length_append
      have hrest (hle : name.length ≤ pathMax) := ih (hlength.trans_le (Nat.succ_le_succ hle))
      refine (atMost_gives.bind hrest).congr ⟨And.right, fun hle => ⟨?_, hle⟩⟩
      rw [List.length_append] at hle
      omega

lemma readName_nil (pathMax : ℕ) (stop : Char) (path : List Char) :
    Gives (readName pathMax stop path []) ((path.takeWhile (· ≠ stop)).length ≤ pathMax + 1)
      (path.takeWhile (· ≠ stop), path.dropWhile (· ≠ stop)) :=
  readName_gives path (Nat.zero_le _)

/-! The first buffer holds its content, and `NUL`s behind it. -/

def filled (pathMax : ℕ) (content : List Char) : List Char :=
  content ++ List.replicate (pathMax + 2 - content.length) nul

lemma length_filled (h : content.length ≤ pathMax + 1) : (filled pathMax content).length = pathMax + 2 := by
  rw [filled, List.length_append, List.length_replicate]
  omega

lemma exists_filled (h : content.length ≤ pathMax + 1) :
    ∃ k, k + 1 + content.length = pathMax + 2 ∧ filled pathMax content = content ++ nul :: List.replicate k nul := by
  refine ⟨pathMax + 1 - content.length, by omega, ?_⟩
  have hk : pathMax + 2 - content.length = pathMax + 1 - content.length + 1 := by omega
  rw [filled, hk, List.replicate_succ]

lemma string_filled (hnul : nul ∉ content) (h : content.length ≤ pathMax + 1) :
    string (filled pathMax content) = content := by
  obtain ⟨k, -, hfilled⟩ := exists_filled h
  have hall : ∀ c ∈ content, decide (c ≠ nul) = true :=
    fun c hc => decide_eq_true fun heq => hnul (heq ▸ hc)
  rw [hfilled, string, List.takeWhile_append_of_pos hall, List.takeWhile_cons_of_neg (by simp), List.append_nil]

lemma wstrlcat_gives (hnul : nul ∉ content) (h : content.length ≤ pathMax + 1) (src : List Char) :
    Gives (copied pathMax (wstrlcat (filled pathMax content) src)) (content.length + src.length ≤ pathMax + 1)
      (filled pathMax (content ++ src)) := by
  rw [copied, wstrlcat, string_filled hnul h, length_filled h]
  by_cases hfits : content.length + src.length ≤ pathMax + 1
  · refine .inl ⟨hfits, ?_⟩
    have htake : src.take (pathMax + 2 - content.length - 1) = src := List.take_of_length_le (by omega)
    have hdrop : (filled pathMax content).drop (content.length + src.length + 1) =
        List.replicate (pathMax + 1 - (content ++ src).length) nul := by
      rw [filled, Nat.add_assoc, List.drop_append, List.drop_of_length_le (by omega), List.nil_append,
        List.drop_replicate, List.length_append]
      congr 1
      omega
    rw [if_neg (by show ¬pathMax + 2 ≤ content.length + src.length; omega), if_neg (by omega), htake, hdrop]
    have hk : pathMax + 2 - (content ++ src).length = pathMax + 1 - (content ++ src).length + 1 := by
      rw [List.length_append]
      omega
    rw [filled, hk, List.replicate_succ, List.append_assoc]
  · exact .inr ⟨hfits, if_pos (by show pathMax + 2 ≤ content.length + src.length; omega)⟩

lemma wstrlcpy_gives (src : List Char) (h : src.length ≤ pathMax + 1) :
    copied pathMax (wstrlcpy (List.replicate (pathMax + 2) nul) src) = .ok (filled pathMax src) := by
  have hne : List.replicate (pathMax + 2) nul ≠ [] := by simp
  have htake : src.take (pathMax + 2 - 1) = src := List.take_of_length_le (by omega)
  have hk : pathMax + 2 - src.length = pathMax + 2 - (src.length + 1) + 1 := by omega
  rw [copied, wstrlcpy, if_neg (by show ¬pathMax + 2 ≤ src.length; omega), if_neg hne, List.length_replicate, htake,
    List.drop_replicate, filled, hk, List.replicate_succ]

lemma write_nul (h : content.length ≤ i) (hi : i ≤ pathMax) :
    write (filled pathMax content) i nul = .ok (filled pathMax content) := by
  have hlength : (filled pathMax content).length = pathMax + 2 := length_filled (by omega)
  rw [write, if_pos (by omega), filled, List.set_append_right _ _ h, List.set_replicate_self]

lemma write_next (h : content.length ≤ pathMax) (c : Char) :
    write (filled pathMax content) content.length c = .ok (filled pathMax (content ++ [c])) := by
  obtain ⟨k, hk, hfilled⟩ := exists_filled (h.trans (Nat.le_succ pathMax))
  have hlast : pathMax + 2 - (content ++ [c]).length = k := by
    rw [List.length_append, List.length_singleton]
    omega
  rw [write, if_pos (by rw [length_filled (by omega)]; omega), hfilled, List.set_append_right _ _ le_rfl,
    Nat.sub_self, List.set_cons_zero, filled, hlast, List.append_assoc]
  rfl

/-! One piece. -/

lemma ok_bind {α β : Type} (a : α) (f : α → Except Failure β) : (Except.ok a >>= f) = f a := rfl

lemma Gives.eq_ok {α : Type} {r : Except Failure α} {P : Prop} {a : α} (h : Gives r P a) (hp : P) : r = .ok a :=
  h.elim And.right fun hneg => absurd hp hneg.1

lemma head_dropWhile (stop : Char) (path : List Char) :
    (path.dropWhile (· ≠ stop)).head? = some stop ↔ path.dropWhile (· ≠ stop) ≠ [] := by
  induction path with
  | nil => simp
  | cons c path ih =>
    by_cases hstop : c = stop
    · rw [List.dropWhile_cons_of_neg (by simp [hstop]), List.head?_cons, hstop]
      exact iff_of_true rfl (List.cons_ne_nil _ _)
    · rwa [List.dropWhile_cons_of_pos (by simp [hstop])]

/-- A value is put behind the content. -/
lemma value_gives (hnul : nul ∉ content) (h : content.length ≤ pathMax) (value rest : List Char) :
    Gives (do
        atMost pathMax (content.length + value.length)
        let buffer ← copied pathMax (wstrlcat (filled pathMax content) value)
        pure (rest, buffer, content.length + value.length))
      (content.length + value.length ≤ pathMax)
      (rest, filled pathMax (content ++ value), content.length + value.length) := by
  refine (atMost_gives.bind (Q := True) fun hle => ?_).congr (and_iff_left trivial)
  rw [(wstrlcat_gives hnul (by omega) value).eq_ok (by omega)]
  exact gives_ok _

lemma expandPlain_gives (hnul : nul ∉ content) (h : content.length ≤ pathMax) (path : List Char) :
    Gives (expandPlain pathMax getenv path (filled pathMax content) content.length)
      ((path.takeWhile (· ≠ '/')).length ≤ pathMax + 1 ∧
        content.length + (plain getenv path).1.text.length ≤ pathMax)
      ((plain getenv path).2, filled pathMax (content ++ (plain getenv path).1.text),
        content.length + (plain getenv path).1.text.length) := by
  rw [expandPlain, plain]
  refine (readName_nil pathMax '/' path).bind fun _ => ?_
  cases hvalue : getenv (path.takeWhile (· ≠ '/')) with
  | some value =>
    simp only [Option.getD_some]
    exact value_gives hnul h value _
  | none =>
    simp only [Option.getD_none, List.length_cons]
    refine (atMost_gives.bind (Q := True) fun hle => ?_).congr (and_iff_left trivial)
    have hdollar : nul ∉ content ++ ['$'] := by
      rw [List.mem_append, not_or]
      exact ⟨hnul, by decide⟩
    have hlength : (content ++ ['$']).length = content.length + 1 := List.length_append
    rw [(wstrlcat_gives hnul (by omega) ['$']).eq_ok (by rw [List.length_singleton]; omega), ok_bind,
      (wstrlcat_gives hdollar (by omega) (path.takeWhile (· ≠ '/'))).eq_ok (by omega), List.append_assoc]
    exact gives_ok _

lemma before_eq (closed : Bool) (hname : ')' ∉ name) : before closed name = ')' ↔ closed = true := by
  cases closed with
  | true => exact iff_of_true rfl rfl
  | false =>
    refine iff_of_false (fun hlast => ?_) Bool.false_ne_true
    change name.getLastD '(' = ')' at hlast
    rcases name.eq_nil_or_concat with rfl | ⟨front, c, rfl⟩
    · exact absurd hlast (by decide)
    · rw [List.concat_eq_append, List.getLastD_concat] at hlast
      exact hname (hlast ▸ by simp)

/-- What stands there for a variable that is not set. -/
def unset (closed : Bool) (name : List Char) : List Char := '$' :: '(' :: (if closed then name ++ [')'] else name)

lemma unset_gives (hnul : nul ∉ content) (h : content.length ≤ pathMax) (hname : nul ∉ name) (hclose : ')' ∉ name)
    (closed : Bool) (rest : List Char) :
    Gives (do
        atMost pathMax (content.length + (name.length + 2))
        let buffer ← write (filled pathMax content) (content.length + (name.length + 2)) nul
        let buffer ← copied pathMax (wstrlcat buffer ['$', '('])
        let buffer ← copied pathMax (wstrlcat buffer name)
        if before closed name = ')' then
          atMost pathMax (content.length + (name.length + 2) + 1)
          let buffer ← copied pathMax (wstrlcat buffer [')'])
          pure (rest, buffer, content.length + (name.length + 2) + 1)
        else pure (rest, buffer, content.length + (name.length + 2)))
      (content.length + (unset closed name).length ≤ pathMax)
      (rest, filled pathMax (content ++ unset closed name), content.length + (unset closed name).length) := by
  have hlength : (unset closed name).length = name.length + 2 + if closed then 1 else 0 := by
    cases closed <;> simp [unset]
  have hlonger : (content.length + (name.length + 2) ≤ pathMax ∧
      content.length + (unset closed name).length ≤ pathMax) ↔
        content.length + (unset closed name).length ≤ pathMax := by
    rw [hlength]
    omega
  refine (atMost_gives.bind fun hle => ?_).congr hlonger
  have hopen : nul ∉ content ++ ['$', '('] := by
    rw [List.mem_append, not_or]
    exact ⟨hnul, by decide⟩
  have hwhole : nul ∉ content ++ ['$', '('] ++ name := by
    rw [List.mem_append, not_or]
    exact ⟨hopen, hname⟩
  have hopenLength : (content ++ ['$', '(']).length = content.length + 2 := List.length_append
  have hwholeLength : (content ++ ['$', '('] ++ name).length = content.length + (name.length + 2) := by
    rw [List.length_append, hopenLength]
    omega
  rw [write_nul (by omega) hle, ok_bind,
    (wstrlcat_gives hnul (by omega) ['$', '(']).eq_ok (by simp only [List.length_cons, List.length_nil]; omega),
    ok_bind,    (wstrlcat_gives hopen (by omega) name).eq_ok (by omega), ok_bind]
  cases closed with
  | true =>
    rw [if_pos ((before_eq true hclose).mpr rfl), hlength]
    refine (atMost_gives.bind (Q := True) fun hle => ?_).congr (and_iff_left trivial)
    rw [(wstrlcat_gives hwhole (by omega) [')']).eq_ok (by rw [List.length_singleton]; omega), List.append_assoc,
      List.append_assoc]
    exact gives_ok _
  | false =>
    rw [if_neg (mt (before_eq false hclose).mp Bool.false_ne_true), hlength, List.append_assoc]
    exact .inl ⟨hle, rfl⟩

lemma expandParenthesised_gives (hnul : nul ∉ content) (h : content.length ≤ pathMax) (hpath : nul ∉ path) :
    Gives (expandParenthesised pathMax getenv path (filled pathMax content) content.length)
      ((path.takeWhile (· ≠ ')')).length ≤ pathMax + 1 ∧
        content.length + (parenthesised getenv path).1.text.length ≤ pathMax)
      ((parenthesised getenv path).2, filled pathMax (content ++ (parenthesised getenv path).1.text),
        content.length + (parenthesised getenv path).1.text.length) := by
  rw [expandParenthesised, parenthesised]
  refine (readName_nil pathMax ')' path).bind fun _ => ?_
  have hname : nul ∉ path.takeWhile (· ≠ ')') := fun hmem => hpath (List.takeWhile_subset _ hmem)
  have hclose : ')' ∉ path.takeWhile (· ≠ ')') := by
    intro hmem
    have hall := List.all_eq_true.mp (List.all_takeWhile (p := (· ≠ ')')) (l := path)) _ hmem
    exact of_decide_eq_true hall rfl
  by_cases hrest : path.dropWhile (· ≠ ')') = []
  · have hhead : (path.dropWhile (· ≠ ')')).head? ≠ some ')' := fun heq => (head_dropWhile ')' path).mp heq hrest
    simp only [if_neg hhead, decide_eq_false hhead, if_pos hrest]
    exact unset_gives hnul h hname hclose false _
  · have hhead := (head_dropWhile ')' path).mpr hrest
    simp only [if_pos hhead, decide_eq_true hhead, if_neg hrest]
    cases hvalue : getenv (path.takeWhile (· ≠ ')')) with
    | some value =>
      rw [Option.getD_some]
      exact value_gives hnul h value _
    | none =>
      rw [Option.getD_none]
      exact unset_gives hnul h hname hclose true _

lemma expandVariable_gives (hnul : nul ∉ content) (h : content.length ≤ pathMax) (hpath : nul ∉ path) :
    Gives (expandVariable pathMax getenv path (filled pathMax content) content.length)
      ((variablePiece getenv path).1.Fits pathMax content.length)
      ((variablePiece getenv path).2, filled pathMax (content ++ (variablePiece getenv path).1.text),
        content.length + (variablePiece getenv path).1.text.length) := by
  have hfits {P : Prop} (name : List Char) :
      (∀ n ∈ some name, n.length ≤ pathMax + 1 ∧ P) ↔ name.length ≤ pathMax + 1 ∧ P :=
    ⟨fun hall => hall name rfl, fun hname n hn => Option.some.inj hn ▸ hname⟩
  rw [expandVariable, variablePiece]
  split_ifs with hopen
  · exact (expandParenthesised_gives hnul h fun hmem => hpath (List.mem_of_mem_tail hmem)).congr (hfits _).symm
  · exact (expandPlain_gives hnul h path).congr (hfits _).symm

/-- The values that are found are C strings. -/
def NulFree (f : List Char → Option (List Char)) : Prop := ∀ name value, f name = some value → nul ∉ value

lemma getD_nul (henv : NulFree getenv) {default : List Char} (hdefault : nul ∉ default) (name : List Char) :
    nul ∉ (getenv name).getD default := by
  cases hvalue : getenv name with
  | none => exact hdefault
  | some value => exact henv name value hvalue

lemma variablePiece_nul (henv : NulFree getenv) (hpath : nul ∉ path) :
    nul ∉ (variablePiece getenv path).1.text ∧ nul ∉ (variablePiece getenv path).2 ∧
      (variablePiece getenv path).2.length ≤ path.length := by
  have htake (p : Char → Bool) {l : List Char} (hl : nul ∉ l) : nul ∉ l.takeWhile p :=
    fun hmem => hl (List.takeWhile_subset p hmem)
  have hdrop (p : Char → Bool) {l : List Char} (hl : nul ∉ l) : nul ∉ l.dropWhile p :=
    fun hmem => hl ((List.dropWhile_suffix p).subset hmem)
  have hlength (p : Char → Bool) (l : List Char) : (l.dropWhile p).length ≤ l.length :=
    (List.dropWhile_suffix p).length_le
  have hcons {c : Char} {l : List Char} (hc : nul ≠ c) (hl : nul ∉ l) : nul ∉ c :: l := 
    fun hmem => (List.mem_cons.mp hmem).elim hc hl
  have hdollar : nul ≠ '$' := by decide
  rw [variablePiece]
  split_ifs with hopen
  · have htail : nul ∉ path.tail := fun hmem => hpath (List.mem_of_mem_tail hmem)
    have hname := htake (· ≠ ')') htail
    have hclosed : nul ∉ path.tail.takeWhile (· ≠ ')') ++ [')'] := by
      rw [List.mem_append, not_or]
      exact ⟨hname, by decide⟩
    refine ⟨?_, fun hmem => hdrop (· ≠ ')') htail (List.mem_of_mem_tail hmem), ?_⟩
    · show nul ∉ if _ then _ else _
      split_ifs
      · exact hcons hdollar (hcons (by decide) hname)
      · exact getD_nul henv (hcons hdollar (hcons (by decide) hclosed)) _
    · have hrest := hlength (· ≠ ')') path.tail
      rw [List.length_tail] at hrest
      show (path.tail.dropWhile (· ≠ ')')).tail.length ≤ path.length
      rw [List.length_tail]
      omega
  · exact ⟨getD_nul henv (hcons hdollar (htake _ hpath)) _, hdrop _ hpath, hlength _ _⟩

/-! The whole path. -/

lemma filled_nil (pathMax : ℕ) : filled pathMax [] = List.replicate (pathMax + 2) nul := rfl

lemma string_gives (hnul : nul ∉ content) (h : content.length ≤ pathMax + 1) :
    Gives (pure (string (filled pathMax content)) : Except Failure (List Char)) True (content ++ text []) := by
  rw [string_filled hnul h, text, List.flatMap_nil, List.append_nil]
  exact gives_ok _

lemma exists_name (getenv : List Char → Option (List Char)) (path : List Char) :
    ∃ name, (variablePiece getenv path).1.name = some name := by
  rw [variablePiece]
  split_ifs <;> exact ⟨_, rfl⟩

lemma expandFrom_gives (henv : NulFree getenv) (turns : ℕ) (hturns : path.length ≤ turns) (hnul : nul ∉ content)
    (h : content.length ≤ pathMax + 1) (hpath : nul ∉ path) :
    Gives (expandFrom pathMax getenv turns path (filled pathMax content) content.length >>= fun r =>
        if r.1 ≠ [] then .error .nameTooLong else pure (string r.2))
      (Fits pathMax content.length (pieces getenv turns path)) (content ++ text (pieces getenv turns path)) := by
  induction turns generalizing path content with
  | zero =>
    obtain rfl : path = [] := List.length_eq_zero_iff.mp (by omega)
    exact string_gives hnul h
  | succ turns ih =>
    cases path with
    | nil => exact string_gives hnul h
    | cons c path =>
      rw [List.length_cons] at hturns
      have hc : nul ≠ c := fun heq => hpath (heq ▸ List.mem_cons_self)
      have hrest : nul ∉ path := fun hmem => hpath (List.mem_cons_of_mem c hmem)
      rw [expandFrom, pieces]
      by_cases hroom : content.length ≤ pathMax
      · rw [if_neg (not_lt.mpr hroom)]
        by_cases hvariable : c = '$'
        · rw [if_pos hvariable, if_pos hvariable, bind_assoc]
          obtain ⟨htext, hafter, hshorter⟩ := variablePiece_nul henv hrest
          obtain ⟨name, hname⟩ := exists_name getenv path
          have hmore : nul ∉ content ++ (variablePiece getenv path).1.text := by
            rw [List.mem_append, not_or]
            exact ⟨hnul, htext⟩
          have hlength : (content ++ (variablePiece getenv path).1.text).length =
              content.length + (variablePiece getenv path).1.text.length := List.length_append
          have hnext (hfits : (variablePiece getenv path).1.Fits pathMax content.length) :=
            ih (by omega) hmore (by have := (hfits name hname).2; omega) hafter
          rw [hlength] at hnext
          rw [text, List.flatMap_cons, ← List.append_assoc]
          refine ((expandVariable_gives hnul hroom hrest).bind hnext).congr ?_
          exact and_congr_left fun _ => (and_iff_right hroom).symm
        · rw [if_neg hvariable, if_neg hvariable, write_next hroom c, ok_bind]
          have hmore : nul ∉ content ++ [c] := by
            rw [List.mem_append, not_or, List.mem_singleton]
            exact ⟨hnul, hc⟩
          have hlength : (content ++ [c]).length = content.length + 1 := List.length_append
          have hnext := ih (by omega) hmore (hlength.trans_le (Nat.succ_le_succ hroom)) hrest
          rw [hlength] at hnext
          rw [text, List.flatMap_cons, ← List.append_assoc]
          refine hnext.congr ⟨fun hfits => ⟨⟨hroom, fun name hname => ?_⟩, hfits⟩, And.right⟩
          cases hname
      · rw [if_pos (not_le.mp hroom), ok_bind, if_pos (List.cons_ne_nil c path)]
        refine .inr ⟨fun hfits => ?_, rfl⟩
        split_ifs at hfits
        · exact hroom hfits.1.1
        · exact hroom hfits.1.1

lemma expandHome_gives {piece : Piece} (hpiece : (homePiece home getuserhomedir path).1 = some piece) :
    Gives (expandHome pathMax home getuserhomedir path) (HomeFits pathMax piece)
      ((homePiece home getuserhomedir path).2, filled pathMax piece.text) := by
  have hempty (src : List Char) : Gives (copied pathMax (wstrlcat (List.replicate (pathMax + 2) nul) src))
      (src.length ≤ pathMax + 1) (filled pathMax src) := by
    have hcat : Gives (copied pathMax (wstrlcat (filled pathMax []) src)) _ _ :=
      wstrlcat_gives List.not_mem_nil (Nat.zero_le _) src
    rwa [List.nil_append, List.length_nil, Nat.zero_add] at hcat
  have hplain (content : List Char) : HomeFits pathMax ⟨content, none⟩ ↔ content.length ≤ pathMax :=
    ⟨fun hfits => hfits.1 rfl, fun hle => ⟨fun _ => hle, fun name hname => by cases hname⟩⟩
  rw [expandHome]
  rw [homePiece] at hpiece ⊢
  split_ifs at hpiece ⊢ with htilde hown
  · obtain rfl := Option.some.inj hpiece
    refine (atMost_gives.bind (Q := True) fun hle => ?_).congr ((and_iff_left trivial).trans (hplain home).symm)
    rw [wstrlcpy_gives home (by omega)]
    exact gives_ok _
  · obtain ⟨content, hcontent, rfl⟩ := Option.map_eq_some_iff.mp hpiece
    refine ((readName_nil pathMax '/' path.tail).bind (Q := content.length ≤ pathMax + 1) fun _ => ?_).congr ?_
    · simp only [hcontent]
      refine ((hempty content).bind (Q := True) fun _ => ?_).congr (and_iff_left trivial)
      exact gives_ok _
    · refine ⟨fun hfits => ⟨fun hnone => (by cases hnone), fun name hname => ?_⟩, fun hfits => hfits.2 _ rfl⟩
      obtain rfl := Option.some.inj hname
      exact hfits
  · obtain rfl := Option.some.inj hpiece
    exact .inl ⟨(hplain []).mpr (Nat.zero_le _), rfl⟩

lemma expandHome_of_none (hpiece : (homePiece home getuserhomedir path).1 = none) :
    expandHome pathMax home getuserhomedir path = .error .nameTooLong := by
  rw [expandHome]
  rw [homePiece] at hpiece
  split_ifs at hpiece ⊢ with htilde hown
  · have hnone := Option.map_eq_none_iff.mp hpiece
    rcases readName_nil pathMax '/' path.tail with ⟨-, hok⟩ | ⟨-, herror⟩
    · rw [hok, ok_bind]
      simp only [hnone]
    · rw [herror]
      rfl

lemma homePiece_nul {piece : Piece} (hpath : nul ∉ path) (hhome : nul ∉ home) (huser : NulFree getuserhomedir)
    (hpiece : (homePiece home getuserhomedir path).1 = some piece) :
    nul ∉ piece.text ∧ nul ∉ (homePiece home getuserhomedir path).2 := by
  have htail : nul ∉ path.tail := fun hmem => hpath (List.mem_of_mem_tail hmem)
  rw [homePiece] at hpiece ⊢
  split_ifs at hpiece ⊢ with htilde hown
  · obtain rfl := Option.some.inj hpiece
    exact ⟨hhome, htail⟩
  · obtain ⟨content, hcontent, rfl⟩ := Option.map_eq_some_iff.mp hpiece
    exact ⟨huser _ _ hcontent, fun hmem => htail ((List.dropWhile_suffix _).subset hmem)⟩
  · obtain rfl := Option.some.inj hpiece
    exact ⟨List.not_mem_nil, hpath⟩

lemma wexpandpath_gives {piece : Piece} (hpath : nul ∉ path) (hhome : nul ∉ home) (henv : NulFree getenv)
    (huser : NulFree getuserhomedir) (hpiece : (homePiece home getuserhomedir path).1 = some piece) :
    Gives (wexpandpath pathMax getenv home getuserhomedir path)
      (HomeFits pathMax piece ∧ Fits pathMax piece.text.length (restPieces getenv home getuserhomedir path))
      (piece.text ++ text (restPieces getenv home getuserhomedir path)) := by
  obtain ⟨htext, hrest⟩ := homePiece_nul hpath hhome huser hpiece
  refine (expandHome_gives hpiece).bind fun hfits => ?_
  have hle : piece.text.length ≤ pathMax + 1 := by
    cases hname : piece.name with
    | none => exact (hfits.1 hname).trans (Nat.le_succ _)
    | some name => exact (hfits.2 name hname).2
  rw [string_filled htext hle]
  exact expandFrom_gives henv _ le_rfl htext hle hrest

/-- The path expands, exactly if its names and its text fit, to the text of its pieces, and no access is outside of
the buffers. -/
theorem wexpandpath_iff (hpath : nul ∉ path) (hhome : nul ∉ home) (henv : NulFree getenv)
    (huser : NulFree getuserhomedir) :
    (∀ out, wexpandpath pathMax getenv home getuserhomedir path = .ok out ↔
      ∃ piece ∈ (homePiece home getuserhomedir path).1, HomeFits pathMax piece ∧
        Fits pathMax piece.text.length (restPieces getenv home getuserhomedir path) ∧
        out = piece.text ++ text (restPieces getenv home getuserhomedir path)) ∧
    wexpandpath pathMax getenv home getuserhomedir path ≠ .error .outside := by
  cases hpiece : (homePiece home getuserhomedir path).1 with
  | none =>
    rw [wexpandpath, expandHome_of_none hpiece]
    refine ⟨fun out => ⟨fun hout => (by cases hout), ?_⟩, fun herror => by cases herror⟩
    rintro ⟨piece, hmem, -⟩
    cases hmem
  | some piece =>
    have hgives : Gives (wexpandpath pathMax getenv home getuserhomedir path) _ _ :=
      wexpandpath_gives hpath hhome henv huser hpiece
    rcases hgives with ⟨hfits, hok⟩ | ⟨hfits, herror⟩
    · rw [hok]
      refine ⟨fun out => ⟨fun hout => ⟨piece, rfl, hfits.1, hfits.2, (Except.ok.inj hout).symm⟩, ?_⟩,
        fun h => by cases h⟩
      rintro ⟨piece', hmem, -, -, rfl⟩
      obtain rfl := Option.some.inj hmem
      rfl
    · rw [herror]
      refine ⟨fun out => ⟨fun hout => (by cases hout), ?_⟩, fun h => by cases h⟩
      rintro ⟨piece', hmem, hhome, htail, -⟩
      obtain rfl := Option.some.inj hmem
      exact absurd ⟨hhome, htail⟩ hfits

/-- One variable that is set, one that is not, and a home directory, in a buffer for twelve characters. -/
theorem wexpandpath_sample :
    wexpandpath 12 (fun name => if name = ['X'] then some ['a', 'b'] else none) ['/', 'h'] (fun _ => none)
      ['~', '/', '$', '(', 'X', ')', '/', '$', 'Y', '/', 'c'] =
        .ok ['/', 'h', '/', 'a', 'b', '/', '$', 'Y', '/', 'c'] := by
  have henv : NulFree fun name => if name = ['X'] then some ['a', 'b'] else none := by
    intro name value hvalue
    change (if name = ['X'] then some ['a', 'b'] else none) = some value at hvalue
    split_ifs at hvalue
    obtain rfl := Option.some.inj hvalue
    decide
  have huser : NulFree fun _ => none := fun name value hvalue => by cases hvalue
  refine ((wexpandpath_iff (by decide) (by decide) henv huser).1 _).mpr ⟨⟨['/', 'h'], none⟩, rfl, ?_, ?_, rfl⟩
  · decide
  · decide

end Xperimentum.WMcore.FindFile
