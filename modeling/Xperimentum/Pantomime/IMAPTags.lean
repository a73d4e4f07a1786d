import Xperimentum.Pantomime.Data
import Xperimentum.Pantomime.IMAPQueue

/-! The tags of the commands. The counter is an `int`, whose bits `%04x` prints, and the tag has four bytes of the
text. -/

namespace Xperimentum.Pantomime.IMAPStore

open Xperimentum.Lib.Partial

def tagDigit (d : ℕ) : UInt8 := if d < 10 then UInt8.ofNat (48 + d) else UInt8.ofNat (87 + d)

/-- What `sprintf` writes in front of the null byte. -/
def tagText (tag : ℕ) : Bytes :=
  let digits := Nat.digits 16 (tag % 2 ^ 32)
  List.replicate (4 - digits.length) 48 ++ (digits.reverse.map tagDigit)

/-- `lastTag`. -/
def tagData (tag : ℕ) : Bytes := (tagText tag).take 4

def TagFits (tag : ℕ) : Prop := (tagText tag).length + 1 ≤ 5

/-- The tags between two states are the ones `nextTag` has made. -/
def issuedTags (s t : Store) : List ℕ := (t.enqueued.drop s.enqueued.length).map QueueObject.tag

lemma tagFits_iff (tag : ℕ) : TagFits tag ↔ tag % 2 ^ 32 < 2 ^ 16 := by
  have hlength : (Nat.digits 16 (tag % 2 ^ 32)).length ≤ 4 ↔ tag % 2 ^ 32 < 2 ^ 16 :=
    Nat.digits_length_le_iff (by decide) (tag % 2 ^ 32)
  rw [TagFits, tagText, List.length_append, List.length_replicate, List.length_map, List.length_reverse, ← hlength]
  omega

lemma tagData_eq {tag : ℕ} (h : TagFits tag) : tagData tag = tagText tag :=
  List.take_of_length_le (Nat.le_of_succ_le_succ h)

def tagValue (c : UInt8) : ℕ := if c < 58 then c.toNat - 48 else c.toNat - 87

lemma tagValue_tagDigit : ∀ d < 16, tagValue (tagDigit d) = d := by decide

lemma map_tagValue {digits : List ℕ} (h : ∀ d ∈ digits, d < 16) : (digits.map tagDigit).map tagValue = digits := by
  rw [List.map_map]
  exact (List.map_congr_left fun d hd => tagValue_tagDigit d (h d hd)).trans (List.map_id digits)

lemma ofDigits_tagText (tag : ℕ) : Nat.ofDigits 16 ((tagText tag).map tagValue).reverse = tag % 2 ^ 32 := by
  have hzeros (n : ℕ) : (List.replicate n (48 : UInt8)).map tagValue = List.replicate n 0 := List.map_replicate
  have hdigits : ∀ d ∈ (Nat.digits 16 (tag % 2 ^ 32)).reverse, d < 16 := fun d hd =>
    Nat.digits_lt_base (by decide) (List.mem_reverse.mp hd)
  rw [tagText, List.map_append, hzeros, map_tagValue hdigits, List.reverse_append, List.reverse_reverse,
    List.reverse_replicate, Nat.ofDigits_append_replicate_zero, Nat.ofDigits_digits]

/-- The texts of two tags are the same only if their bits are. -/
lemma tagText_inj {a b : ℕ} (h : tagText a = tagText b) : a % 2 ^ 32 = b % 2 ^ 32 := by
  rw [← ofDigits_tagText a, h, ofDigits_tagText b]

section Counting

/-- The tags from one state to the next count on. -/
def Counts (s t : Store) : Prop :=
  ∃ sent, t.enqueued = s.enqueued ++ sent ∧ sent.map QueueObject.tag = List.range' (s.tag + 1) sent.length ∧
    t.tag = s.tag + sent.length

variable {s t u : Store}

lemma counts_of_eq (he : t.enqueued = s.enqueued) (ht : t.tag = s.tag) : Counts s t :=
  ⟨[], by rw [he, List.append_nil], rfl, ht⟩

lemma Counts.refl (s : Store) : Counts s s := counts_of_eq rfl rfl

lemma Counts.trans (h : Counts s t) (h' : Counts t u) : Counts s u := by
  obtain ⟨sent, he, hmap, ht⟩ := h
  obtain ⟨sent', he', hmap', ht'⟩ := h'
  refine ⟨sent ++ sent', ?_, ?_, ?_⟩
  · rw [he', he, List.append_assoc]
  · rw [List.map_append, hmap, hmap', ht, List.length_append, ← List.range'_append_1, Nat.add_right_comm]
  · rw [ht', ht, List.length_append, Nat.add_assoc]

lemma emptyQueue_counts (s : Store) : Counts s (emptyQueue s) := by
  simp only [emptyQueue]
  split
  all_goals exact counts_of_eq rfl rfl

lemma sendCommand_counts (command : IMAPCommand) (arguments : String) (s : Store) :
    Counts s (sendCommand command arguments s) := by
  simp only [sendCommand]
  split_ifs
  · exact Counts.refl s
  · exact ⟨[_], rfl, rfl, rfl⟩
  · exact ⟨[_], rfl, rfl, rfl⟩

lemma sendAll_counts (sends : Sends) (s : Store) : Counts s (sendAll sends s) := by
  induction sends generalizing s with
  | nil => exact Counts.refl s
  | cons c sends ih => exact (sendCommand_counts c.1 c.2 s).trans (ih _)

lemma greeting_counts (s : Store) : Counts s (greeting s) := by
  simp only [greeting]
  split_ifs
  · exact (sendCommand_counts .capability "CAPABILITY" s).trans (counts_of_eq rfl rfl)
  · exact Counts.refl s

lemma parseCAPABILITY_counts (s : Store) : Counts s (parseCAPABILITY s) := by
  simp only [parseCAPABILITY, authenticate]
  split_ifs
  · split
    all_goals apply sendCommand_counts
  · exact Counts.refl s

lemma parseSEARCHCACHE_counts (s : Store) : Counts s (parseSEARCHCACHE s) := by
  simp only [parseSEARCHCACHE]
  split
  case h_5 => exact Counts.refl s
  all_goals apply sendCommand_counts

lemma parseEXISTS_counts (n : ℕ) (s : Store) : Counts s (parseEXISTS n s) := by
  simp only [parseEXISTS]
  split
  · split_ifs
    · apply sendCommand_counts
    · exact Counts.refl s
  · exact Counts.refl s

lemma reselect_counts (f : IMAPFolder) (s : Store) : Counts s (reselect f s) := by
  have hselect : Counts s (selectName f s) := by
    simp only [selectName]
    split_ifs
    all_goals apply sendCommand_counts
  simp only [reselect]
  split_ifs
  · refine hselect.trans ?_
    simp only [prefetch]
    split_ifs
    all_goals apply sendCommand_counts
  · exact hselect

lemma okCase_counts (s : Store) : Counts s (okCase s) := by
  have hlogged : Counts s (loggedIn s) := by
    simp only [loggedIn]
    split_ifs
    · split
      · apply reselect_counts
      · exact counts_of_eq rfl rfl
    · exact Counts.refl s
  simp only [okCase]
  split
  case h_4 =>
    split_ifs
    · exact counts_of_eq rfl rfl
    · exact Counts.refl s
  case h_5 => exact counts_of_eq rfl rfl
  case h_6 => exact Counts.refl s
  all_goals exact hlogged

lemma noCase_counts (s : Store) : Counts s (noCase s) := by
  simp only [noCase]
  split
  all_goals exact counts_of_eq rfl rfl

lemma dequeue_counts (s : Store) : Counts s (dequeue s) :=
  (emptyQueue_counts { s with queue := s.queue.dropLast }).trans (counts_of_eq rfl rfl)

lemma complete_counts (sends : Sends) (h : t ∈ complete sends s) : Counts s t := by
  simp only [complete] at h
  cases hcurrent : s.currentQueueObject with
  | none => simp [hcurrent] at h
  | some q =>
    have hsent := sendAll_counts sends s
    simp only [hcurrent] at h
    split_ifs at h
    · obtain rfl := Option.some.inj h
      exact hsent
    · obtain rfl := Option.some.inj h
      exact hsent.trans (dequeue_counts _)

lemma parseBAD_counts (sends : Sends) (s : Store) : Counts s (parseBAD sends s) := by
  have hsent := sendAll_counts sends s
  simp only [parseBAD]
  split_ifs
  · exact hsent
  · exact hsent.trans (dequeue_counts _)
  · exact Counts.refl s
  · exact counts_of_eq rfl rfl

lemma step_counts {e : Event} (h : t ∈ step s e) : Counts s t := by
  have hsome {u : Store} (hu : some u = some t) (hcounts : Counts s u) : Counts s t := Option.some.inj hu ▸ hcounts
  cases e with
  | sendCommand command arguments => exact hsome h (sendCommand_counts command arguments s)
  | selectFolder folder => exact hsome h (counts_of_eq rfl rfl)
  | greeting => exact hsome h (greeting_counts s)
  | capability => exact hsome h (parseCAPABILITY_counts s)
  | searchCache => exact hsome h (parseSEARCHCACHE_counts s)
  | existsResponse n => exact hsome h (parseEXISTS_counts n s)
  | ok sends => exact (okCase_counts s).trans (complete_counts sends h)
  | no sends => exact (noCase_counts s).trans (complete_counts sends h)
  | bad sends => exact hsome h (parseBAD_counts sends s)

lemma tryRun_counts {es : List Event} (h : t ∈ tryRun step s es) : Counts s t :=
  allows_foldlM es (fun _ hcounts _ _ _ hstep => hcounts.trans (step_counts hstep)) (Counts.refl s) t h

lemma issuedTags_eq (h : Counts s t) : issuedTags s t = List.range' (s.tag + 1) (issuedTags s t).length := by
  obtain ⟨sent, he, hmap, -⟩ := h
  rw [issuedTags, he, List.drop_left, List.length_map, hmap]

end Counting

lemma range'_fits_iff (first n : ℕ) : (∀ tag ∈ List.range' first n, TagFits tag) ↔
    n = 0 ∨ first % 2 ^ 32 + n ≤ 2 ^ 16 := by
  simp only [tagFits_iff, List.mem_range'_1]
  constructor
  · intro h
    rcases Nat.eq_zero_or_pos n with hn | hn
    · exact .inl hn
    refine .inr (not_lt.mp fun hlt => ?_)
    have hfirst := h first ⟨le_rfl, by omega⟩
    have hbeyond := h (first + (2 ^ 16 - first % 2 ^ 32)) ⟨by omega, by omega⟩
    omega
  · rintro (rfl | hn) tag ⟨hle, hlt⟩
    · omega
    · omega

/-- The texts are all different where they fit. -/
lemma range'_texts_nodup {first n : ℕ} (h : n = 0 ∨ first % 2 ^ 32 + n ≤ 2 ^ 16) :
    ((List.range' first n).map tagData).Nodup := by
  have hfits := (range'_fits_iff first n).mpr h
  refine List.Nodup.map_on ?_ List.nodup_range'
  intro a ha b hb hab
  rw [tagData_eq (hfits a ha), tagData_eq (hfits b hb)] at hab
  have hbits := tagText_inj hab
  obtain ⟨ha, ha'⟩ := List.mem_range'_1.mp ha
  obtain ⟨hb, hb'⟩ := List.mem_range'_1.mp hb
  rcases h with rfl | h
  · omega
  · omega

/-- In every run, the tags are all different and fit where the counter stays below `10000` in hexadecimal. -/
theorem issuedTags_distinct (s : Store) (es : List Event) : ∀ t ∈ tryRun step s es,
    (((issuedTags s t).map tagData).Nodup ∧ ∀ tag ∈ issuedTags s t, TagFits tag) ↔
      issuedTags s t = [] ∨ (s.tag + 1) % 2 ^ 32 + (issuedTags s t).length ≤ 2 ^ 16 := by
  intro t ht
  have heq := issuedTags_eq (tryRun_counts ht)
  rw [← List.length_eq_zero_iff]
  constructor
  · rintro ⟨-, hfits⟩
    rw [heq] at hfits
    exact (range'_fits_iff _ _).mp hfits
  · intro h
    refine ⟨?_, ?_⟩
    · rw [heq]
      exact range'_texts_nodup h
    · rw [heq]
      exact (range'_fits_iff _ _).mpr h

theorem issuedTags_distinct_session : ∃ t ∈ tryRun step (initial .plain "LOGIN a b") session,
    (((issuedTags (initial .plain "LOGIN a b") t).map tagData).Nodup ∧
      ∀ tag ∈ issuedTags (initial .plain "LOGIN a b") t, TagFits tag) ↔
    issuedTags (initial .plain "LOGIN a b") t = [] ∨
      ((initial .plain "LOGIN a b").tag + 1) % 2 ^ 32 + (issuedTags (initial .plain "LOGIN a b") t).length ≤ 2 ^ 16 := by
  have hsome : (tryRun step (initial .plain "LOGIN a b") session).isSome := by decide
  obtain ⟨t, ht⟩ := Option.isSome_iff_exists.mp hsome
  exact ⟨t, ht, issuedTags_distinct _ session t ht⟩

lemma tryRun_appends (n : ℕ) (s : Store) : ∃ t ∈ tryRun step s (List.replicate n (.sendCommand .append "")),
    t.enqueued.length = s.enqueued.length + n := by
  induction n generalizing s with
  | zero => exact ⟨s, rfl, rfl⟩
  | succ n ih =>
    have hqueued : alreadyQueued .append "" s = false := by
      rw [alreadyQueued, List.any_eq_false]
      simp
    have hlength : (sendCommand .append "" s).enqueued.length = s.enqueued.length + 1 := by
      simp only [sendCommand, hqueued, Bool.false_eq_true, if_false]
      split_ifs
      all_goals exact List.length_append
    obtain ⟨t, ht, hlen⟩ := ih (sendCommand .append "" s)
    exact ⟨t, ht, by rw [hlen, hlength]; omega⟩

/-- The 65535th command of a new store. -/
theorem not_issuedTags_distinct : ¬∀ (es : List Event), ∀ t ∈ tryRun step (initial .plain "LOGIN a b") es,
    ((issuedTags (initial .plain "LOGIN a b") t).map tagData).Nodup ∧
      ∀ tag ∈ issuedTags (initial .plain "LOGIN a b") t, TagFits tag := by
  intro h
  obtain ⟨t, ht, hlength⟩ := tryRun_appends 65535 (initial .plain "LOGIN a b")
  have hfits := (h _ t ht).2
  have hissued : (issuedTags (initial .plain "LOGIN a b") t).length = 65535 := by
    rw [issuedTags, List.length_map, List.length_drop, hlength, Nat.add_sub_cancel_left]
  rw [issuedTags_eq (tryRun_counts ht), hissued] at hfits
  exact absurd ((range'_fits_iff _ _).mp hfits) (by decide)

end Xperimentum.Pantomime.IMAPStore
