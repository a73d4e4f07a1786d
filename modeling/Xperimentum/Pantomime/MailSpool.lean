import Mathlib.Data.List.TakeWhile
import Xperimentum.Pantomime.Data

/-! The messages of a mail spool. A line is read in pieces of at most 1023 bytes. -/

namespace Xperimentum.Pantomime.MailSpool

inductive PantomimeFormat
  | mbox
  | maildir
  | mailSpoolFile
  | folder
  deriving DecidableEq, Repr

section Source

/-- Up to and with the first newline, or as many bytes as fit. -/
def fgets : ℕ → Bytes → Bytes
  | n + 1, c :: b => c :: if c = 10 then [] else fgets n b
  | _, _ => []

def isFrom (aLine : Bytes) : Bool := (ascii "From ").isPrefixOf aLine

def isText (aLine : Bytes) : Bool := !isFrom aLine

/-- `strncasecmp`. -/
def isAnyFrom (aLine : Bytes) : Bool := (aLine.take 5).map lower = ascii "from "

/-- The inner loop, which moves the end of the message. -/
def readText (spool : Bytes) : ℕ → ℕ → ℕ
  | 0, fin => fin
  | n + 1, fin =>
    let aLine := fgets 1023 (spool.drop fin)
    if aLine = [] then fin
    else if isFrom aLine then fin
    else readText spool n (fin + aLine.length)

/-- There is no buffer for a negative length. -/
def readSpool (spool : Bytes) : ℕ → ℕ → Option (List Bytes)
  | 0, _ => some []
  | n + 1, position =>
    let aLine := fgets 1023 (spool.drop position)
    if aLine = [] then some []
    else if isAnyFrom aLine then
      let start := position + aLine.length
      let fin := readText spool (spool.length + 1) start
      let length : ℤ := fin - start - 1
      if length < 0 then none
      else (readSpool spool n fin).map fun messages => (spool.drop start).take length.toNat :: messages
    else readSpool spool n (position + aLine.length)

/-- What is returned, and what is left in the file. -/
def messagesFromMailSpoolFile (type : PantomimeFormat) (spool : Bytes) : Option (Option (List Bytes) × Bytes) :=
  if type = .mbox ∨ type = .maildir then some (none, spool)
  else (readSpool spool (spool.length + 1) 0).map fun messages => (some messages, [])

end Source

section Spool

/-- The lines with their newlines. -/
def keptLines : Bytes → List Bytes
  | [] => []
  | c :: b =>
    if c = 10 then [10] :: keptLines b
    else
      match keptLines b with
      | [] => [[c]]
      | l :: ls => (c :: l) :: ls

/-- Each separator with the lines up to the next one. -/
def entries : List Bytes → List (Bytes × List Bytes)
  | [] => []
  | l :: ls => if isFrom l then (l, ls.takeWhile isText) :: entries ls else entries ls

/-- The newline in front of the next separator belongs to no message. -/
def withoutSeparator (text : Bytes) : Bytes := if text.getLast? = some 10 then text.dropLast else text

/-- The messages that a spool has. -/
def messages (spool : Bytes) : List Bytes := (entries (keptLines spool)).map fun e => withoutSeparator e.2.flatten

def cut (l : Bytes) : List Bytes := if h : l = [] then [] else l.take 1023 :: cut (l.drop 1023)
termination_by l.length
decreasing_by
  have hpos := List.length_pos_of_ne_nil h
  rw [List.length_drop]
  omega

/-- The pieces in which the spool is read. -/
def pieces (spool : Bytes) : List Bytes := (keptLines spool).flatMap cut

end Spool

section Pieces

lemma keptLines_line {body : Bytes} (h : (10 : UInt8) ∉ body) (rest : Bytes) :
    keptLines (body ++ 10 :: rest) = (body ++ [10]) :: keptLines rest := by
  induction body with
  | nil => exact if_pos rfl
  | cons c body ih =>
    rw [List.mem_cons, not_or] at h
    rw [List.cons_append, keptLines, if_neg (Ne.symm h.1), ih h.2]
    rfl

lemma keptLines_last {body : Bytes} (h : (10 : UInt8) ∉ body) (hne : body ≠ []) : keptLines body = [body] := by
  induction body with
  | nil => exact absurd rfl hne
  | cons c body ih =>
    rw [List.mem_cons, not_or] at h
    rw [keptLines, if_neg (Ne.symm h.1)]
    by_cases hbody : body = []
    · rw [hbody]
      rfl
    · rw [ih h.2 hbody]

lemma fgets_line {n : ℕ} {body : Bytes} (h : (10 : UInt8) ∉ body) (rest : Bytes) :
    fgets n (body ++ 10 :: rest) = (body ++ [10]).take n := by
  induction body generalizing n with
  | nil => cases n <;> simp [fgets]
  | cons c body ih =>
    rw [List.mem_cons, not_or] at h
    cases n with
    | zero => rfl
    | succ n =>
      rw [List.cons_append, fgets, if_neg (Ne.symm h.1), ih h.2]
      rfl

lemma fgets_last {n : ℕ} {body : Bytes} (h : (10 : UInt8) ∉ body) : fgets n body = body.take n := by
  induction body generalizing n with
  | nil => cases n <;> rfl
  | cons c body ih =>
    rw [List.mem_cons, not_or] at h
    cases n with
    | zero => rfl
    | succ n =>
      rw [fgets, if_neg (Ne.symm h.1), ih h.2]
      rfl

lemma cut_of_ne {l : Bytes} (h : l ≠ []) : cut l = l.take 1023 :: cut (l.drop 1023) := by rw [cut, dif_neg h]

lemma cut_nil : cut [] = [] := by rw [cut, dif_pos rfl]

/-- `fgets` reads the first piece, and leaves the others. -/
lemma pieces_eq {b : Bytes} (h : b ≠ []) : pieces b = fgets 1023 b :: pieces (b.drop (fgets 1023 b).length) := by
  by_cases hmem : (10 : UInt8) ∈ b
  · obtain ⟨body, rest, rfl, hbody⟩ := List.eq_append_cons_of_mem hmem
    rw [fgets_line hbody, pieces, keptLines_line hbody, List.flatMap_cons, cut_of_ne (by simp), List.cons_append]
    congr 1
    by_cases hlen : (body ++ [10]).length ≤ 1023
    · rw [List.take_of_length_le hlen, List.drop_of_length_le hlen, cut_nil, List.nil_append]
      have hdrop : (body ++ 10 :: rest).drop (body ++ [10]).length = rest := by
        have hsplit : body ++ 10 :: rest = (body ++ [10]) ++ rest := List.append_cons body 10 rest
        rw [hsplit, List.drop_left]
      rw [hdrop]
      rfl
    · have hlen' : 1023 ≤ body.length := by
        rw [List.length_append, List.length_singleton] at hlen
        omega
      have hfree : (10 : UInt8) ∉ body.drop 1023 := fun hm => hbody (List.mem_of_mem_drop hm)
      rw [List.length_take_of_le (by omega), List.drop_append_of_le_length hlen', List.drop_append_of_le_length hlen',
        pieces, keptLines_line hfree, List.flatMap_cons]
  · rw [fgets_last hmem, pieces, keptLines_last hmem h, List.flatMap_singleton, cut_of_ne h]
    congr 1
    have hfree : (10 : UInt8) ∉ b.drop 1023 := fun hm => hmem (List.mem_of_mem_drop hm)
    by_cases hlen : b.length ≤ 1023
    · rw [List.take_of_length_le hlen, List.drop_of_length_le hlen, List.drop_length, cut_nil]
      rfl
    · have hne : b.drop 1023 ≠ [] := fun hnil => hlen (List.drop_eq_nil_iff.mp hnil)
      rw [List.length_take_of_le (by omega), pieces, keptLines_last hfree hne, List.flatMap_singleton]

lemma fgets_ne_nil {b : Bytes} (h : b ≠ []) : fgets 1023 b ≠ [] := by
  obtain ⟨c, b, rfl⟩ := List.exists_cons_of_ne_nil h
  exact List.cons_ne_nil _ _

lemma pieces_nil : pieces [] = [] := rfl

end Pieces

section Reading

/-- The pieces of each message, as they are read. -/
def texts : List Bytes → List (List Bytes)
  | [] => []
  | p :: ps =>
    if isAnyFrom p then ps.takeWhile isText :: texts (ps.dropWhile isText) else texts ps
termination_by ps => ps.length
decreasing_by
  · exact Nat.lt_succ_of_le (List.dropWhile_suffix isText).length_le
  · exact Nat.lt_succ_self _

/-- The last byte of a message is left out, and there has to be one. -/
def received (text : List Bytes) : Option Bytes := if text.flatten = [] then none else some text.flatten.dropLast

variable {spool : Bytes}

lemma drop_pieces {position : ℕ} (h : spool.drop position ≠ []) : pieces (spool.drop position) =
    fgets 1023 (spool.drop position) :: pieces (spool.drop (position + (fgets 1023 (spool.drop position)).length)) := by
  rw [pieces_eq h, List.drop_drop]

lemma fgets_length_pos {position : ℕ} (h : spool.drop position ≠ []) :
    0 < (fgets 1023 (spool.drop position)).length := List.length_pos_of_ne_nil (fgets_ne_nil h)

lemma readText_eq {n fin : ℕ} (h : spool.length < fin + n) :
    readText spool n fin = fin + ((pieces (spool.drop fin)).takeWhile isText).flatten.length ∧
      pieces (spool.drop (readText spool n fin)) = (pieces (spool.drop fin)).dropWhile isText := by
  induction n generalizing fin with
  | zero =>
    have hnil : spool.drop fin = [] := List.drop_eq_nil_iff.mpr (by omega)
    rw [readText, hnil]
    exact ⟨rfl, rfl⟩
  | succ n ih =>
    by_cases hnil : spool.drop fin = []
    · have hread : readText spool (n + 1) fin = fin := by
        rw [readText, hnil]
        rfl
      rw [hread, hnil]
      exact ⟨rfl, rfl⟩
    have hread : readText spool (n + 1) fin = if isFrom (fgets 1023 (spool.drop fin)) then fin
        else readText spool n (fin + (fgets 1023 (spool.drop fin)).length) := if_neg (fgets_ne_nil hnil)
    rw [hread, drop_pieces hnil]
    by_cases hfrom : isFrom (fgets 1023 (spool.drop fin)) = true
    · have htest : ¬isText (fgets 1023 (spool.drop fin)) = true := by
        rw [isText, hfrom]
        decide
      rw [if_pos hfrom, List.takeWhile_cons_of_neg htest, List.dropWhile_cons_of_neg htest]
      exact ⟨rfl, drop_pieces hnil⟩
    · have hpos := fgets_length_pos hnil
      have hrest : spool.length < fin + (fgets 1023 (spool.drop fin)).length + n := by omega
      have hnext := ih hrest
      have htest : isText (fgets 1023 (spool.drop fin)) = true := by
        rw [isText, eq_false_of_ne_true hfrom]
        rfl
      rw [if_neg hfrom, List.takeWhile_cons_of_pos htest, List.dropWhile_cons_of_pos htest, List.flatten_cons,
        List.length_append, ← Nat.add_assoc]
      exact hnext

lemma flatten_keptLines (b : Bytes) : (keptLines b).flatten = b := by
  induction b with
  | nil => rfl
  | cons c b ih =>
    rw [keptLines]
    split_ifs with hc
    · rw [List.flatten_cons, ih, hc]
      rfl
    · cases hlines : keptLines b with
      | nil =>
        rw [hlines] at ih
        rw [← ih]
        rfl
      | cons l ls =>
        rw [hlines] at ih
        rw [← ih]
        rfl

lemma flatten_cut (l : Bytes) : (cut l).flatten = l := by
  induction l using cut.induct with
  | case1 => rw [cut_nil, List.flatten_nil]
  | case2 l hne ih => rw [cut_of_ne hne, List.flatten_cons, ih, List.take_append_drop]

lemma flatten_flatMap_cut (ls : List Bytes) : (ls.flatMap cut).flatten = ls.flatten := by
  induction ls with
  | nil => rfl
  | cons l ls ih => rw [List.flatMap_cons, List.flatten_append, ih, flatten_cut, List.flatten_cons]

lemma flatten_pieces (b : Bytes) : (pieces b).flatten = b := by
  rw [pieces, flatten_flatMap_cut, flatten_keptLines]

lemma readSpool_eq {n position : ℕ} (h : spool.length < position + n) :
    readSpool spool n position = (texts (pieces (spool.drop position))).mapM received := by
  induction n generalizing position with
  | zero =>
    have hnil : spool.drop position = [] := List.drop_eq_nil_iff.mpr (by omega)
    rw [readSpool, hnil, pieces_nil, texts]
    rfl
  | succ n ih =>
    by_cases hnil : spool.drop position = []
    · rw [readSpool, hnil, pieces_nil, texts]
      rfl
    have hpos := fgets_length_pos hnil
    have hstart : pieces (spool.drop position) = fgets 1023 (spool.drop position) ::
        pieces (spool.drop (position + (fgets 1023 (spool.drop position)).length)) := drop_pieces hnil
    rw [readSpool, hstart, texts]
    simp only [if_neg (fgets_ne_nil hnil)]
    generalize hline : fgets 1023 (spool.drop position) = aLine at hpos
    by_cases hfrom : isAnyFrom aLine = true
    swap
    · rw [if_neg hfrom, if_neg hfrom]
      exact ih (by omega)
    rw [if_pos hfrom, if_pos hfrom, List.mapM_cons]
    have hspool : spool.length < position + aLine.length + (spool.length + 1) := by omega
    obtain ⟨hfin, hrest⟩ := readText_eq hspool
    have hflatten : ((pieces (spool.drop (position + aLine.length))).takeWhile isText).flatten ++
        ((pieces (spool.drop (position + aLine.length))).dropWhile isText).flatten =
        spool.drop (position + aLine.length) := by
      rw [← List.flatten_append, List.takeWhile_append_dropWhile, flatten_pieces]
    rw [ih (by omega), hrest, hfin]
    generalize (pieces (spool.drop (position + aLine.length))).takeWhile isText = text at hflatten
    rw [← hflatten, received]
    by_cases htext : text.flatten = []
    · rw [if_pos htext, if_pos (by rw [htext, List.length_nil]; omega)]
      rfl
    · have hlength := List.length_pos_of_ne_nil htext
      have hcount : ((position + aLine.length + text.flatten.length : ℕ) - (position + aLine.length : ℕ) - 1 : ℤ) =
          (text.flatten.length - 1 : ℕ) := by omega
      rw [if_neg htext, hcount, if_neg (by omega), Int.toNat_natCast, List.take_append_of_le_length (Nat.sub_le _ _),
        ← List.dropLast_eq_take]
      generalize List.mapM received (texts _) = messages
      cases messages <;> rfl

end Reading

section Counting

lemma isAnyFrom_of_isFrom {p : Bytes} (h : isFrom p = true) : isAnyFrom p = true := by
  obtain ⟨rest, rfl⟩ := List.isPrefixOf_iff_prefix.mp h
  have htake : (ascii "From " ++ rest).take 5 = ascii "From " := List.take_left' (by decide)
  rw [isAnyFrom, htake]
  decide

lemma isText_iff {p : Bytes} : isText p = true ↔ isFrom p = false := Iff.of_eq (Bool.not_eq_true' _)

lemma countP_takeWhile (ps : List Bytes) : (ps.takeWhile isText).countP isFrom = 0 :=
  List.countP_eq_zero.mpr fun p hp => by
    rw [isText_iff.mp (List.mem_takeWhile_imp hp)]
    decide

lemma countP_dropWhile (ps : List Bytes) : (ps.dropWhile isText).countP isFrom = ps.countP isFrom := by
  conv_rhs => rw [← List.takeWhile_append_dropWhile (p := isText) (l := ps)]
  rw [List.countP_append, countP_takeWhile, Nat.zero_add]

lemma takeWhile_dropWhile (ps : List Bytes) : (ps.dropWhile isText).takeWhile isText = [] := by
  induction ps with
  | nil => rfl
  | cons p ps ih =>
    by_cases h : isText p = true
    · rw [List.dropWhile_cons_of_pos h, ih]
    · rw [List.dropWhile_cons_of_neg h, List.takeWhile_cons_of_neg h]

/-- Each separator starts a message, and so may a line in front of the first one. -/
lemma texts_length (ps : List Bytes) :
    (texts ps).length = ps.countP isFrom + if (ps.takeWhile isText).any isAnyFrom then 1 else 0 := by
  induction ps using texts.induct with
  | case1 =>
    rw [texts]
    rfl
  | case2 p ps hany ih =>
    rw [texts, if_pos hany, List.length_cons, ih, takeWhile_dropWhile, countP_dropWhile]
    by_cases hfrom : isFrom p = true
    · have htext : ¬isText p = true := fun h => by
        rw [isText_iff.mp h] at hfrom
        cases hfrom
      rw [List.takeWhile_cons_of_neg htext, List.countP_cons_of_pos hfrom]
      rfl
    · have htext : isText p = true := isText_iff.mpr (eq_false_of_ne_true hfrom)
      rw [List.takeWhile_cons_of_pos htext, List.countP_cons_of_neg hfrom, List.any_cons, hany]
      rfl
  | case3 p ps hany ih =>
    have hfrom : ¬isFrom p = true := fun h => hany (isAnyFrom_of_isFrom h)
    have htext : isText p = true := isText_iff.mpr (eq_false_of_ne_true hfrom)
    rw [texts, if_neg hany, ih, List.takeWhile_cons_of_pos htext, List.countP_cons_of_neg hfrom, List.any_cons,
      eq_false_of_ne_true hany, Bool.false_or]

lemma entries_length (ls : List Bytes) : (entries ls).length = ls.countP isFrom := by
  induction ls with
  | nil => rfl
  | cons l ls ih =>
    rw [entries]
    split_ifs with h
    · rw [List.length_cons, ih, List.countP_cons_of_pos h]
    · rw [ih, List.countP_cons_of_neg h]

lemma isFrom_take (l : Bytes) : isFrom (l.take 1023) = isFrom l := by
  rw [Bool.eq_iff_iff, isFrom, isFrom, List.isPrefixOf_iff_prefix, List.isPrefixOf_iff_prefix, List.prefix_take_iff]
  exact and_iff_left (by decide)

lemma keptLines_ne_nil (b : Bytes) : ∀ l ∈ keptLines b, l ≠ [] := by
  induction b with
  | nil => exact fun l hl => absurd hl List.not_mem_nil
  | cons c b ih =>
    rw [keptLines]
    split_ifs
    · exact List.forall_mem_cons.mpr ⟨List.cons_ne_nil _ _, ih⟩
    · cases hlines : keptLines b with
      | nil => exact List.forall_mem_singleton.mpr (List.cons_ne_nil _ _)
      | cons l ls =>
        rw [hlines] at ih
        exact List.forall_mem_cons.mpr ⟨List.cons_ne_nil _ _, fun m hm => ih m (List.mem_cons_of_mem l hm)⟩

lemma countP_cut {ls : List Bytes} (hne : ∀ l ∈ ls, l ≠ []) : (ls.flatMap cut).countP isFrom =
    ls.countP isFrom + (ls.flatMap fun l => (cut l).tail).countP isFrom := by
  induction ls with
  | nil => rfl
  | cons l ls ih =>
    obtain ⟨hl, hls⟩ := List.forall_mem_cons.mp hne
    rw [List.flatMap_cons, List.flatMap_cons, List.countP_append, List.countP_append, ih hls, cut_of_ne hl,
      List.countP_cons, List.countP_cons, isFrom_take, List.tail_cons]
    omega

end Counting

section Entries

/-- The pieces of a line behind the first one are text. -/
def Unbroken (ls : List Bytes) : Prop := ∀ l ∈ ls, ∀ p ∈ (cut l).tail, isFrom p = false

variable {ls : List Bytes}

lemma texts_skip {qs : List Bytes} (h : ∀ q ∈ qs, isAnyFrom q = false) (ps : List Bytes) : texts (qs ++ ps) = texts ps := by
  induction qs with
  | nil => rfl
  | cons q qs ih =>
    obtain ⟨hq, hqs⟩ := List.forall_mem_cons.mp h
    rw [List.cons_append, texts, hq]
    exact ih hqs

lemma takeWhile_flatMap (hne : ∀ l ∈ ls, l ≠ []) (h : Unbroken ls) :
    (ls.flatMap cut).takeWhile isText = (ls.takeWhile isText).flatMap cut ∧
      (ls.flatMap cut).dropWhile isText = (ls.dropWhile isText).flatMap cut := by
  induction ls with
  | nil => exact ⟨rfl, rfl⟩
  | cons l ls ih =>
    obtain ⟨hl, hls⟩ := List.forall_mem_cons.mp hne
    obtain ⟨htail, hrest⟩ := List.forall_mem_cons.mp h
    have hcut : cut l = l.take 1023 :: (cut l).tail := by
      rw [cut_of_ne hl]
      rfl
    have hhead : isText (l.take 1023) = isText l := by rw [isText, isText, isFrom_take]
    rw [List.flatMap_cons, hcut, List.cons_append]
    by_cases htext : isText l = true
    · have hpos : isText (l.take 1023) = true := hhead.trans htext
      rw [List.takeWhile_cons_of_pos hpos, List.dropWhile_cons_of_pos hpos, List.takeWhile_cons_of_pos htext,
        List.dropWhile_cons_of_pos htext, List.takeWhile_append_of_pos fun p hp => isText_iff.mpr (htail p hp),
        List.dropWhile_append_of_pos fun p hp => isText_iff.mpr (htail p hp), (ih hls hrest).1, (ih hls hrest).2,
        List.flatMap_cons, hcut]
      exact ⟨rfl, rfl⟩
    · have hneg : ¬isText (l.take 1023) = true := by rwa [hhead]
      rw [List.takeWhile_cons_of_neg hneg, List.dropWhile_cons_of_neg hneg, List.takeWhile_cons_of_neg htext,
        List.dropWhile_cons_of_neg htext, List.flatMap_cons, hcut]
      exact ⟨rfl, rfl⟩

lemma entries_dropWhile (ls : List Bytes) : entries (ls.dropWhile isText) = entries ls := by
  induction ls with
  | nil => rfl
  | cons l ls ih =>
    by_cases h : isText l = true
    · rw [List.dropWhile_cons_of_pos h, ih, entries, isText_iff.mp h]
      rfl
    · rw [List.dropWhile_cons_of_neg h]

/-- Without other separators, the pieces of a message are those of its lines. -/
lemma texts_pieces (hne : ∀ l ∈ ls, l ≠ []) (h : Unbroken ls)
    (hstart : ∀ p ∈ (ls.takeWhile isText).flatMap cut, isAnyFrom p = false) :
    texts (ls.flatMap cut) = (entries ls).map fun e => (cut e.1).tail ++ e.2.flatMap cut := by
  induction hn : ls.length using Nat.strong_induction_on generalizing ls with
  | _ n ih =>
    cases ls with
    | nil =>
      rw [List.flatMap_nil, texts]
      rfl
    | cons l ls =>
      obtain ⟨hl, hls⟩ := List.forall_mem_cons.mp hne
      obtain ⟨htail, hrest⟩ := List.forall_mem_cons.mp h
      by_cases htext : isText l = true
      · rw [List.takeWhile_cons_of_pos htext, List.flatMap_cons, List.forall_mem_append] at hstart
        rw [List.flatMap_cons, texts_skip hstart.1, entries, isText_iff.mp htext]
        exact ih ls.length (by rw [← hn]; exact Nat.lt_succ_self _) hls hrest hstart.2 rfl
      · have hfrom : isFrom l = true := by
          rw [isText, Bool.not_eq_true', Bool.not_eq_false] at htext
          exact htext
        have hcut : cut l = l.take 1023 :: (cut l).tail := by
          rw [cut_of_ne hl]
          rfl
        have hany : isAnyFrom (l.take 1023) = true := isAnyFrom_of_isFrom (by rwa [isFrom_take])
        obtain ⟨htake, hdrop⟩ := takeWhile_flatMap hls hrest
        have hsub : ∀ m ∈ ls.dropWhile isText, m ∈ ls := fun m hm => (List.dropWhile_suffix isText).mem hm
        have hlength : (ls.dropWhile isText).length < n := by
          rw [← hn]
          exact Nat.lt_succ_of_le (List.dropWhile_suffix isText).length_le
        have hnext := ih _ hlength (fun m hm => hls m (hsub m hm)) (fun m hm => hrest m (hsub m hm))
          (by rw [takeWhile_dropWhile]; exact fun p hp => absurd hp List.not_mem_nil) rfl
        rw [List.flatMap_cons, hcut, List.cons_append, texts, if_pos hany,
          List.takeWhile_append_of_pos fun p hp => isText_iff.mpr (htail p hp),
          List.dropWhile_append_of_pos fun p hp => isText_iff.mpr (htail p hp), htake, hdrop, hnext, entries_dropWhile,
          entries, if_pos hfrom]
        rfl

/-- A line with another one behind it ends with its newline. -/
lemma keptLines_newline (b : Bytes) {a c : List Bytes} {l m : Bytes} (h : keptLines b = a ++ l :: m :: c) :
    l.getLast? = some 10 := by
  induction b generalizing a l m c with
  | nil => simp [keptLines] at h
  | cons x b ih =>
    rw [keptLines] at h
    split_ifs at h with hx
    · cases a with
      | nil =>
        rw [List.nil_append, List.cons.injEq] at h
        rw [← h.1]
        rfl
      | cons y a =>
        rw [List.cons_append, List.cons.injEq] at h
        exact ih h.2
    · cases hlines : keptLines b with
      | nil =>
        rw [hlines] at h
        have hlength := congrArg List.length h
        simp only [List.length_append, List.length_cons, List.length_nil] at hlength
        omega
      | cons y ys =>
        rw [hlines] at h
        cases a with
        | nil =>
          rw [List.nil_append, List.cons.injEq] at h
          have hy : keptLines b = [] ++ y :: m :: c := by rw [hlines, h.2, List.nil_append]
          have hne : y ≠ [] := keptLines_ne_nil b y (by rw [hlines]; exact List.mem_cons_self)
          obtain ⟨z, zs, rfl⟩ := List.exists_cons_of_ne_nil hne
          rw [← h.1, List.getLast?_cons_cons]
          exact ih hy
        | cons w a =>
          rw [List.cons_append, List.cons.injEq] at h
          exact ih (a := y :: a) (by rw [hlines, h.2, List.cons_append])

/-- Where the lines of a message stand. -/
lemma mem_entries {e : Bytes × List Bytes} (h : e ∈ entries ls) : ∃ a c, ls = a ++ e.1 :: (e.2 ++ c) := by
  induction ls with
  | nil => exact absurd h List.not_mem_nil
  | cons l ls ih =>
    rw [entries] at h
    split_ifs at h
    · rcases List.mem_cons.mp h with rfl | h
      · exact ⟨[], ls.dropWhile isText, by rw [List.takeWhile_append_dropWhile]; rfl⟩
      · obtain ⟨a, c, rfl⟩ := ih h
        exact ⟨l :: a, c, rfl⟩
    · obtain ⟨a, c, rfl⟩ := ih h
      exact ⟨l :: a, c, rfl⟩

end Entries

section Messages

/-- The separator fits in the buffer and the text of the message ends with a newline, or nothing follows a separator
that is one byte too long. -/
def Ended (e : Bytes × List Bytes) : Prop :=
  e.1.length ≤ 1023 ∧ e.2.flatten.getLast? = some 10 ∨ e.1.length = 1024 ∧ e.2 = []

lemma flatten_cut_tail {l : Bytes} (h : l ≠ []) (t : List Bytes) :
    ((cut l).tail ++ t.flatMap cut).flatten = l.drop 1023 ++ t.flatten := by
  have htail : (cut l).tail.flatten = l.drop 1023 := by
    rw [cut_of_ne h, List.tail_cons, flatten_cut]
  rw [List.flatten_append, htail, flatten_flatMap_cut]

/-- A list that stays the same one place further on has one element only. -/
lemma getLast?_of_cons_dropLast {x : UInt8} {t : Bytes} (ht : t ≠ []) (h : (x :: t).dropLast = t) : t.getLast? = some x := by
  induction t with
  | nil => exact absurd rfl ht
  | cons y t ih =>
    rw [List.dropLast_cons_of_ne_nil (List.cons_ne_nil y t), List.cons.injEq] at h
    by_cases hnil : t = []
    · rw [hnil, h.1]
      rfl
    · rw [List.getLast?_cons_of_ne_nil hnil]
      exact ih hnil (by rw [h.1]; exact h.2)

lemma received_iff {e : Bytes × List Bytes} (hl : e.1 ≠ []) (ht : ∀ l ∈ e.2, l ≠ [])
    (hnewline : e.2 ≠ [] → e.1.getLast? = some 10) :
    received ((cut e.1).tail ++ e.2.flatMap cut) = some (withoutSeparator e.2.flatten) ↔ Ended e := by
  obtain ⟨l, t⟩ := e
  simp only [received, Ended, flatten_cut_tail hl]
  simp only at hl ht hnewline
  have htnil : t.flatten = [] ↔ t = [] := by
    refine ⟨fun h => ?_, fun h => by rw [h, List.flatten_nil]⟩
    refine List.eq_nil_iff_forall_not_mem.mpr fun m hm => ht m hm ?_
    exact List.flatten_eq_nil_iff.mp h m hm
  rw [Ne, ← htnil] at hnewline
  rw [← htnil]
  generalize t.flatten = text at hnewline
  by_cases hshort : l.length ≤ 1023
  · rw [List.drop_of_length_le hshort, List.nil_append, withoutSeparator]
    by_cases htext : text = []
    · rw [if_pos htext, htext]
      refine iff_of_false (by simp) ?_
      rintro (⟨-, hlast⟩ | ⟨hlong, -⟩)
      · cases hlast
      · omega
    rw [if_neg htext]
    by_cases hlast : text.getLast? = some 10
    · rw [if_pos hlast]
      exact iff_of_true rfl (.inl ⟨hshort, hlast⟩)
    · rw [if_neg hlast]
      refine iff_of_false ?_ ?_
      · intro h
        have hlength := congrArg List.length (Option.some.inj h)
        have hpos := List.length_pos_of_ne_nil htext
        rw [List.length_dropLast] at hlength
        omega
      · rintro (⟨-, hlast'⟩ | ⟨-, hnil⟩)
        · exact hlast hlast'
        · exact htext hnil
  · have hdrop : l.drop 1023 ≠ [] := fun h => hshort (List.drop_eq_nil_iff.mp h)
    rw [if_neg fun h => hdrop (List.append_eq_nil_iff.mp h).1, Option.some_inj]
    by_cases htext : text = []
    · rw [htext, List.append_nil, withoutSeparator, if_neg (by simp), ← List.length_eq_zero_iff, List.length_dropLast,
        List.length_drop]
      constructor
      · exact fun h => .inr ⟨by omega, rfl⟩
      · rintro (⟨hle, -⟩ | ⟨hlong, -⟩)
        · omega
        · omega
    · refine iff_of_false ?_ ?_
      · intro h
        have hlength := congrArg List.length h
        have hpos := List.length_pos_of_ne_nil htext
        rw [List.length_dropLast, List.length_append, List.length_drop, withoutSeparator] at hlength
        split_ifs at hlength with hlast
        · rw [List.length_dropLast] at hlength
          omega
        · obtain ⟨x, hx⟩ := List.length_eq_one_iff.mp (by rw [List.length_drop]; omega : (l.drop 1023).length = 1)
          rw [hx, withoutSeparator, if_neg hlast] at h
          have hsame := getLast?_of_cons_dropLast htext h
          have hten := hnewline htext
          rw [← List.take_append_drop 1023 l, hx, List.getLast?_concat] at hten
          rw [hsame] at hlast
          exact hlast hten
      · rintro (⟨hle, -⟩ | ⟨-, hnil⟩)
        · exact hshort hle
        · exact htext hnil

lemma mapM_map_iff {α : Type} (f : α → List Bytes) (g : α → Bytes) (es : List α) :
    (es.map f).mapM received = some (es.map g) ↔ ∀ e ∈ es, received (f e) = some (g e) := by
  induction es with
  | nil => exact iff_of_true rfl fun e he => absurd he List.not_mem_nil
  | cons e es ih =>
    rw [List.map_cons, List.map_cons, List.mapM_cons, List.forall_mem_cons, ← ih]
    cases received (f e) with
    | none => simp
    | some b => cases (es.map f).mapM received <;> simp

lemma length_of_mapM {ts : List (List Bytes)} {ms : List Bytes} (h : ts.mapM received = some ms) : ms.length = ts.length := by
  induction ts generalizing ms with
  | nil =>
    cases h
    rfl
  | cons t ts ih =>
    rw [List.mapM_cons] at h
    obtain ⟨b, -, hrest⟩ := Option.bind_eq_some_iff.mp h
    obtain ⟨bs, hbs, heq⟩ := Option.bind_eq_some_iff.mp hrest
    cases heq
    rw [List.length_cons, List.length_cons, ih hbs]

/-- No piece but a separator is taken for one, in front of the first message or in any line, and each message ends. -/
structure Separated (spool : Bytes) : Prop where
  unbroken : Unbroken (keptLines spool)
  start : ∀ p ∈ (pieces spool).takeWhile isText, isAnyFrom p = false
  ended : ∀ e ∈ entries (keptLines spool), Ended e

lemma texts_iff (spool : Bytes) : (texts (pieces spool)).mapM received = some (messages spool) ↔ Separated spool := by
  have hne := keptLines_ne_nil spool
  have hentry : ∀ e ∈ entries (keptLines spool), received ((cut e.1).tail ++ e.2.flatMap cut) =
      some (withoutSeparator e.2.flatten) ↔ Ended e := by
    intro e he
    obtain ⟨a, c, hsplit⟩ := mem_entries he
    refine received_iff (hne e.1 ?_) (fun l hl => hne l ?_) fun ht => ?_
    · rw [hsplit]
      simp
    · rw [hsplit]
      simp [hl]
    · obtain ⟨m, ms, hm⟩ := List.exists_cons_of_ne_nil ht
      rw [hm] at hsplit
      exact keptLines_newline spool hsplit
  have hmap : ∀ (_ : Unbroken (keptLines spool)) (_ : ∀ p ∈ (pieces spool).takeWhile isText, isAnyFrom p = false),
      (texts (pieces spool)).mapM received = some (messages spool) ↔ ∀ e ∈ entries (keptLines spool), Ended e := by
    intro hunbroken hstart
    rw [pieces, (takeWhile_flatMap hne hunbroken).1] at hstart
    rw [pieces, texts_pieces hne hunbroken hstart, messages, mapM_map_iff]
    exact forall₂_congr hentry
  constructor
  · intro h
    have hlength := length_of_mapM h
    rw [messages, List.length_map, entries_length, texts_length, pieces, countP_cut hne] at hlength
    have hunbroken : Unbroken (keptLines spool) := by
      have hzero : ((keptLines spool).flatMap fun l => (cut l).tail).countP isFrom = 0 := by omega
      intro l hl p hp
      exact eq_false_of_ne_true (List.countP_eq_zero.mp hzero p (List.mem_flatMap.mpr ⟨l, hl, hp⟩))
    have hstart : ∀ p ∈ (pieces spool).takeWhile isText, isAnyFrom p = false := by
      have hany : ¬((keptLines spool).flatMap cut |>.takeWhile isText).any isAnyFrom = true := by
        intro hany
        rw [if_pos hany] at hlength
        omega
      rw [List.any_eq_true, not_exists] at hany
      exact fun p hp => eq_false_of_ne_true fun hfrom => hany p ⟨hp, hfrom⟩
    exact ⟨hunbroken, hstart, (hmap hunbroken hstart).mp h⟩
  · exact fun h => (hmap h.unbroken h.start).mpr h.ended

/-- All the messages are returned in order, before the spool is emptied, exactly if the spool is separated. -/
theorem messagesFromMailSpoolFile_iff (spool : Bytes) :
    messagesFromMailSpoolFile .mailSpoolFile spool = some (some (messages spool), []) ↔ Separated spool := by
  have hread := readSpool_eq (show spool.length < 0 + (spool.length + 1) by omega)
  rw [List.drop_zero] at hread
  rw [messagesFromMailSpoolFile, if_neg (by decide), hread, ← texts_iff]
  cases (texts (pieces spool)).mapM received with
  | none => exact iff_of_false (by simp) (by simp)
  | some ms => simp

/-- The second message has no bytes, and the third one no newline at its end. -/
theorem not_messagesFromMailSpoolFile : ¬∀ spool : Bytes,
    messagesFromMailSpoolFile .mailSpoolFile spool = some (some (messages spool), []) := by
  intro h
  exact absurd (h (ascii "From a\nHi\n\nFrom b\nFrom c\nHo")) (by decide)

end Messages

end Xperimentum.Pantomime.MailSpool
