import Mathlib.Tactic
import Xperimentum.Pantomime.POP3Replies

/-! The loops of `_parseSTAT`, `_parseLIST` and `_parseUIDL` with the variables that `sscanf` fills: a field that a line
does not have leaves its variable as an earlier line left it. -/

namespace Xperimentum.Pantomime.POP3

/-- A variable that nothing has been stored in is `none`. -/
structure Variables where
  idx : Option ℕ := none
  size : Option ℕ := none
  buf : Bytes := []

def scanLIST (line : Bytes) (v : Variables) : Variables :=
  match scanUnsigned line with
  | none => v
  | some (idx, rest) => { v with idx := some idx, size := ((scanUnsigned rest).map Prod.fst).or v.size }

def token (rest : Bytes) : Bytes := (skipSpace rest).takeWhile fun c => !isSpace c && c ≠ 0

/-- The buffer is cleared for every line. -/
def scanUIDL (line : Bytes) (v : Variables) : Variables :=
  match scanUnsigned line with
  | none => { v with buf := [] }
  | some (idx, rest) => { v with idx := some idx, buf := token rest }

/-- What one line does: the number of the message that it changes, and the bytes it stores in the buffer. -/
structure Access where
  idx : Option ℕ
  stored : ℕ
  deriving DecidableEq

def Access.Safe (count : ℕ) (a : Access) : Prop := (∃ idx ∈ a.idx, 0 < idx ∧ idx ≤ count) ∧ a.stored ≤ 71

instance (count : ℕ) (a : Access) : Decidable (a.Safe count) :=
  match h : a.idx with
  | none => .isFalse fun hs => by simp [Access.Safe, h] at hs
  | some idx => decidable_of_iff ((0 < idx ∧ idx ≤ count) ∧ a.stored ≤ 71) (by simp [Access.Safe, h])

/-- The loop over the lines behind the first one. An index that is out of range ends it with an exception, and nothing
is known of it behind a variable without a value or a full buffer. -/
@[grind =] def handleLines (scan : Bytes → Variables → Variables) (stored : Variables → ℕ)
    (change : ℕ → Variables → Message → Message) (v : Variables) (i : ℕ) (messages : List Message) :
    List Bytes → List Access × List Message
  | [] => ([], messages)
  | line :: lines =>
    let v := scan line v
    let access : Access := ⟨v.idx, stored v⟩
    if access.Safe messages.length then
      let rest := handleLines scan stored change v (i + 1) (messages.modify (v.idx.getD 0 - 1) (change i v)) lines
      (access :: rest.1, rest.2)
    else ([access], messages)

def handleLIST (responses : List Bytes) (messages : List Message) : List Access × List Message :=
  handleLines scanLIST (fun _ => 0) (fun i v m => { m with size := v.size, number := i }) {} 1 messages
    (responses.drop 1)

/-- A string of no characters is not stored. -/
def handleUIDL (responses : List Bytes) (messages : List Message) : List Access × List Message :=
  handleLines scanUIDL (fun v => if v.buf = [] then 0 else v.buf.length + 1) (fun _ v m => { m with uid := v.buf }) {} 1
    messages (responses.drop 1)

/-- The messages that `while (count--)` adds, with the steps that it may take. -/
@[grind =] def addMessages : ℕ → ℤ → Option ℕ
  | 0, _ => none
  | n + 1, count => if count = 0 then some 0 else (addMessages n (count - 1)).map (· + 1)

/-- A refused `STAT` adds none. -/
def countSTAT (line : Bytes) : Option ℤ := if hasCPrefix line (ascii "+OK") then scanInteger (line.drop 3) else some 0

/-- The folder behind a reply to `STAT`, with the steps that the loop may take. -/
def handleSTAT (n : ℕ) (line : Bytes) (messages : List Message) : Option (List Message) :=
  (countSTAT line).bind fun count => (addMessages n count).map fun added => messages ++ List.replicate added ({} : Message)

/-- The replies are handled to the end, every index lies in the folder and every identifier fits the buffer. -/
def ListingSafe (messages : List Message) (stat : Bytes) (list uidl : List Bytes) : Prop :=
  ∃ n, ∃ folder ∈ handleSTAT n stat messages,
    (∀ a ∈ (handleLIST list folder).1, a.Safe folder.length) ∧
      ∀ a ∈ (handleUIDL uidl (handleLIST list folder).2).1, a.Safe folder.length

/-- The first line has a number, and every number is that of a message. -/
def Numbered (count : ℕ) (lines : List Bytes) : Prop :=
  (∀ line ∈ lines.head?, (scanUnsigned line).isSome) ∧
    ∀ line ∈ lines, ∀ scanned ∈ scanUnsigned line, 0 < scanned.1 ∧ scanned.1 ≤ count

/-- The reply to `STAT` has a count that is not negative, the lines are numbered, and no identifier is longer than 70
bytes. -/
def WellFormedListing (count : ℕ) (stat : Bytes) (list uidl : List Bytes) : Prop :=
  ∃ added ∈ countSTAT stat, 0 ≤ added ∧ Numbered (count + added.toNat) (list.drop 1) ∧
    Numbered (count + added.toNat) (uidl.drop 1) ∧
    ∀ line ∈ uidl.drop 1, ∀ scanned ∈ scanUnsigned line, (token scanned.2).length ≤ 70

lemma addMessages_nat (c : ℕ) : addMessages (c + 1) c = some c := by
  induction c with
  | zero => rfl
  | succ c ih =>
    have hne : ((c + 1 : ℕ) : ℤ) ≠ 0 := by omega
    rw [addMessages, if_neg hne, Nat.cast_succ, add_sub_cancel_right, ih, Option.map_some]

lemma addMessages_negative {count : ℤ} (h : count < 0) (n : ℕ) : addMessages n count = none := by
  induction n generalizing count with
  | zero => rfl
  | succ n ih => rw [addMessages, if_neg h.ne, ih (by omega), Option.map_none]

lemma handleSTAT_iff (line : Bytes) (messages folder : List Message) : (∃ n, folder ∈ handleSTAT n line messages) ↔
    ∃ added ∈ countSTAT line, 0 ≤ added ∧ folder = messages ++ List.replicate added.toNat ({} : Message) := by
  simp only [handleSTAT]
  cases countSTAT line with
  | none => simp
  | some count =>
    simp only [Option.bind_some, Option.mem_some_iff, exists_eq_left']
    rcases lt_or_ge count 0 with hneg | hpos
    · simp [addMessages_negative hneg, hneg.not_ge]
    · obtain ⟨c, rfl⟩ := Int.eq_ofNat_of_zero_le hpos
      have hfixed : ∀ n k, addMessages n (c : ℤ) = some k → k = c := by
        intro n
        induction n generalizing c with
        | zero => exact fun k hk => by cases hk
        | succ n ih =>
          intro k hk
          cases c with
          | zero => exact (Option.some.inj hk).symm
          | succ c =>
            rw [addMessages, if_neg (by omega), Nat.cast_succ, add_sub_cancel_right] at hk
            obtain ⟨k', hk', rfl⟩ := Option.map_eq_some_iff.mp hk
            rw [ih c (by omega) k' hk']
      constructor
      · rintro ⟨n, hn⟩
        obtain ⟨k, hk, rfl⟩ := Option.map_eq_some_iff.mp hn
        exact ⟨hpos, by rw [hfixed n k hk, Int.toNat_natCast]⟩
      · rintro ⟨-, rfl⟩
        exact ⟨c + 1, by rw [addMessages_nat]; rfl⟩

section Lines

variable {scan : Bytes → Variables → Variables} {stored : Variables → ℕ} {change : ℕ → Variables → Message → Message}
  {C : Bytes → Prop}

/-- Every access is safe exactly when the variable of the number has a value at the first line, every number read is
that of a message, and every line fits. -/
lemma handleLines_safe_iff (hidx : ∀ line v, (scan line v).idx = ((scanUnsigned line).map Prod.fst).or v.idx)
    (hstored : ∀ line v, stored (scan line v) ≤ 71 ↔ C line) (lines : List Bytes) (v : Variables) (i : ℕ)
    (messages : List Message) (hv : ∀ idx ∈ v.idx, 0 < idx ∧ idx ≤ messages.length) :
    (∀ a ∈ (handleLines scan stored change v i messages lines).1, a.Safe messages.length) ↔
      (∀ line ∈ lines.head?, (scanUnsigned line).isSome ∨ v.idx.isSome) ∧
        ∀ line ∈ lines, (∀ scanned ∈ scanUnsigned line, 0 < scanned.1 ∧ scanned.1 ≤ messages.length) ∧ C line := by
  induction lines generalizing v i messages with
  | nil => simp [handleLines]
  | cons line lines ih =>
    have hsafe : (⟨(scan line v).idx, stored (scan line v)⟩ : Access).Safe messages.length ↔
        ((scanUnsigned line).isSome ∨ v.idx.isSome) ∧
          (∀ scanned ∈ scanUnsigned line, 0 < scanned.1 ∧ scanned.1 ≤ messages.length) ∧ C line := by
      rw [Access.Safe, hidx, hstored, ← and_assoc]
      refine and_congr_left fun _ => ?_
      cases hscan : scanUnsigned line with
      | some scanned => simp
      | none =>
        cases hid : v.idx with
        | none => simp
        | some idx => simpa using hv idx hid
    simp only [handleLines, List.head?_cons, Option.mem_some_iff, forall_eq', List.forall_mem_cons]
    split_ifs with h
    · obtain ⟨hsome, hline⟩ := hsafe.mp h
      obtain ⟨⟨idx, hget, hin⟩, -⟩ := h
      have hlen : (messages.modify ((scan line v).idx.getD 0 - 1) (change i (scan line v))).length = messages.length :=
        List.length_modify ..
      have hrest := ih (scan line v) (i + 1) (messages.modify ((scan line v).idx.getD 0 - 1) (change i (scan line v)))
        (fun idx' hidx' => by
          rw [hlen]
          obtain rfl := Option.some.inj (hget.symm.trans hidx')
          exact hin)
      rw [hlen] at hrest
      have hgot : (scan line v).idx.isSome := Option.isSome_iff_exists.mpr ⟨idx, hget⟩
      simp only [hgot, or_true, implies_true, true_and] at hrest
      simp only [List.forall_mem_cons, hrest, hsome, hline, true_and, and_true, hsafe]
    · simp only [List.mem_singleton, forall_eq, h, false_iff]
      rintro ⟨hsome, hline, -⟩
      exact h (hsafe.mpr ⟨hsome, hline⟩)

lemma handleLines_length (lines : List Bytes) (v : Variables) (i : ℕ) (messages : List Message) :
    (handleLines scan stored change v i messages lines).2.length = messages.length := by
  induction lines generalizing v i messages with
  | nil => rfl
  | cons line lines ih =>
    rw [handleLines]
    simp only
    split_ifs
    · rw [ih, List.length_modify]
    · rfl

end Lines

lemma handleLIST_safe_iff (responses : List Bytes) (messages : List Message) :
    (∀ a ∈ (handleLIST responses messages).1, a.Safe messages.length) ↔
      Numbered messages.length (responses.drop 1) := by
  have hidx : ∀ line v, (scanLIST line v).idx = ((scanUnsigned line).map Prod.fst).or v.idx := by
    intro line v
    rw [scanLIST]
    cases scanUnsigned line <;> rfl
  rw [handleLIST, handleLines_safe_iff (C := fun _ => True) hidx (by simp) _ _ _ _ (by simp)]
  simp [Numbered]

lemma handleUIDL_safe_iff (responses : List Bytes) (messages : List Message) :
    (∀ a ∈ (handleUIDL responses messages).1, a.Safe messages.length) ↔
      Numbered messages.length (responses.drop 1) ∧
        ∀ line ∈ responses.drop 1, ∀ scanned ∈ scanUnsigned line, (token scanned.2).length ≤ 70 := by
  have hidx : ∀ line v, (scanUIDL line v).idx = ((scanUnsigned line).map Prod.fst).or v.idx := by
    intro line v
    rw [scanUIDL]
    cases scanUnsigned line <;> rfl
  have hstored : ∀ line v, (if (scanUIDL line v).buf = [] then 0 else (scanUIDL line v).buf.length + 1) ≤ 71 ↔
      ∀ scanned ∈ scanUnsigned line, (token scanned.2).length ≤ 70 := by
    intro line v
    rw [scanUIDL]
    cases scanUnsigned line with
    | none => simp
    | some scanned =>
      simp only [Option.mem_some_iff, forall_eq']
      split_ifs with h
      · simp [h]
      · omega
  rw [handleUIDL, handleLines_safe_iff hidx hstored _ _ _ _ (by simp)]
  simp only [Option.isSome_none, Bool.false_eq_true, or_false, Numbered, forall_and, and_assoc]

lemma handleLines_of_listed (lines : List Bytes) (i j : ℕ) (v : Variables) (messages : List Message) {t : List Message}
    (ht : (lines.zipIdx i).foldl (listed fun _ rest =>
      if (token rest).length ≤ 70 then some fun m => { m with uid := token rest } else none) (some messages) = some t) :
    (handleLines scanUIDL (fun v => if v.buf = [] then 0 else v.buf.length + 1) (fun _ v m => { m with uid := v.buf }) v j
      messages lines).2 = t := by
  induction lines generalizing i j v messages with
  | nil => exact Option.some.inj ht
  | cons line lines ih =>
    rw [List.zipIdx_cons, List.foldl_cons] at ht
    cases hone : listed _ (some messages) (line, i) with
    | none =>
      rw [hone, foldl_listed_none] at ht
      cases ht
    | some messages' =>
      rw [hone] at ht
      simp only [listed, Option.bind_some] at hone
      obtain ⟨⟨idx, rest⟩, hscan, hone⟩ := Option.bind_eq_some_iff.mp hone
      simp only at hone
      split_ifs at hone with hin hlen
      swap
      · cases hone
      obtain rfl := Option.some.inj hone
      have hsafe : (⟨some idx, if token rest = [] then 0 else (token rest).length + 1⟩ : Access).Safe messages.length := by
        refine ⟨⟨idx, rfl, hin⟩, ?_⟩
        simp only
        split_ifs <;> omega
      have hvars : scanUIDL line v = ⟨some idx, v.size, token rest⟩ := by rw [scanUIDL, hscan]
      rw [handleLines, hvars]
      simp only
      rw [if_pos hsafe]
      exact ih _ _ _ _ ht

/-- Where every line has a number, the loop does what is said of it for a session. -/
lemma handleUIDL_of_parseUIDL {w : Surroundings} {s : Store} {handled : Store × List Send}
    (h : parseUIDL w s = some handled) : (handleUIDL s.responses s.allMessages).2 = handled.1.allMessages := by
  rw [parseUIDL, parseListing] at h
  obtain ⟨t, ht, rfl⟩ := Option.map_eq_some_iff.mp h
  exact handleLines_of_listed _ _ _ _ _ ht

end Xperimentum.Pantomime.POP3
