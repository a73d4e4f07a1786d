import Xperimentum.Pantomime.EncodedWordsRoundTrip
import Xperimentum.Pantomime.MessageState

/-! What a header line gives when there is no space, or any number of them, between the colon and the value. -/

namespace Xperimentum.Pantomime.MessageState

open DateHeader EncodedWords InternetAddress Lib.Int32

open MessageHeaders (asciiText dataByTrimmingWhiteSpaces isBlankByte)

open Lib.Byte

def keywords : List String :=
  ["Bcc", "Cc", "Date", "From", "In-Reply-To", "Message-ID", "MIME-Version", "Organization", "References", "Reply-To",
    "Resent-From", "Resent-Bcc", "Resent-Cc", "Resent-To", "Status", "To", "X-Status", "Subject"] ++ partHeaders

/-- A name that no method of its own is for. -/
structure UnknownName where
  bytes : Bytes
  colon : 58 ∉ bytes
  unread : ∀ keyword ∈ keywords, ∀ aValue, hasKeyword keyword (bytes ++ 58 :: aValue) = false

inductive Header
  | destination (theType : RecipientType)
  | date
  | theFrom
  | inReplyTo
  | messageID
  | mimeVersion
  | organization
  | references
  | replyTo
  | resentFrom
  | status
  | xStatus
  | subject
  | unknown (aName : UnknownName)

def Header.name : Header → Bytes
  | .destination .to => ascii "To"
  | .destination .cc => ascii "Cc"
  | .destination .bcc => ascii "Bcc"
  | .destination .resentTo => ascii "Resent-To"
  | .destination .resentCc => ascii "Resent-Cc"
  | .destination .resentBcc => ascii "Resent-Bcc"
  | .date => ascii "Date"
  | .theFrom => ascii "From"
  | .inReplyTo => ascii "In-Reply-To"
  | .messageID => ascii "Message-ID"
  | .mimeVersion => ascii "MIME-Version"
  | .organization => ascii "Organization"
  | .references => ascii "References"
  | .replyTo => ascii "Reply-To"
  | .resentFrom => ascii "Resent-From"
  | .status => ascii "Status"
  | .xStatus => ascii "X-Status"
  | .subject => ascii "Subject"
  | .unknown aName => aName.bytes

/-- The line with a number of spaces in front of the value. -/
def Header.line (h : Header) (v : Bytes) (k : ℕ) : Bytes := h.name ++ 58 :: (List.replicate k 32 ++ v)

/-- The line as the header's own method reads it. -/
def Header.parse (h : Header) (R : Reader) (aLine : Bytes) (theMessage : Message) : Option Message :=
  match h with
  | .destination theType => parseDestination R aLine theType theMessage
  | .date => parseDate R aLine theMessage
  | .theFrom => parseFrom R aLine theMessage
  | .inReplyTo => parseInReplyTo aLine theMessage
  | .messageID => parseMessageID aLine theMessage
  | .mimeVersion => parseMIMEVersion aLine theMessage
  | .organization => parseOrganization R aLine theMessage
  | .references => parseReferences aLine theMessage
  | .replyTo => parseReplyTo R aLine theMessage
  | .resentFrom => parseResentFrom R aLine theMessage
  | .status => parseStatus aLine theMessage
  | .xStatus => parseXStatus aLine theMessage
  | .subject => parseSubject R aLine theMessage
  | .unknown _ => parseUnknownHeader aLine theMessage

section Lines

variable {R : Reader} {v : Bytes} {k : ℕ} {theMessage : Message}

lemma parseHeader_line (h : Header) : parseHeader R (h.line v k) theMessage = h.parse R (h.line v k) theMessage := by
  rcases h with (_ | _) | _ | _ | _ | _ | _ | _ | _ | _ | _ | _ | _ | _ | aName
  case unknown =>
    have hnot : ∀ keyword ∈ keywords, hasKeyword keyword ((Header.unknown aName).line v k) = false :=
      fun keyword h => aName.unread keyword h _
    simp only [keywords, partHeaders, List.cons_append, List.nil_append, List.forall_mem_cons] at hnot
    simp [parseHeader, partHeaders, hnot, Header.parse]
  all_goals rfl

/-- What is behind the byte after the colon. -/
def behind (v : Bytes) : ℕ → Bytes
  | 0 => v.tail
  | k + 1 => List.replicate k 32 ++ v

lemma line_length (h : Header) : (h.line v k).length = h.name.length + 1 + k + v.length := by
  rw [Header.line, List.length_append, List.length_cons, List.length_append, List.length_replicate]
  omega

lemma drop_line (h : Header) : (h.line v k).drop (h.name.length + 2) = behind v k := by
  rw [Header.line, List.drop_append, List.drop_eq_nil_of_le (by omega), List.nil_append, Nat.add_sub_cancel_left]
  cases k with
  | zero => exact List.drop_one
  | succ k => rfl

lemma behind_nil (h : Header) : behind v k = [] ↔ (h.line v k).length ≤ h.name.length + 2 := by
  rw [← drop_line h, List.drop_eq_nil_iff]

lemma parsing_line {α : Type} {offset : ℕ} {nothing : α} {read : Bytes → Option α} {set : α → Message} (h : Header)
    (hoffset : offset = h.name.length + 2) : parsing offset nothing read set (h.line v k) =
      (if behind v k = [] then some nothing else read (behind v k)).map set := by
  rw [parsing, hoffset, drop_line]
  by_cases hnil : behind v k = []
  · rw [if_pos hnil, if_neg (not_lt.mpr ((behind_nil h).mp hnil))]
  · rw [if_neg hnil, if_pos (not_le.mp fun hle => hnil ((behind_nil h).mpr hle))]

end Lines

/-- Two of the headers are read with a length or positions that are ints. -/
def Header.Counted (h : Header) : Prop := h = .date ∨ h = .replyTo

/-- The line without a space and the lines with spaces give the same message, whatever variables hold before they are set. -/
def SameState (R : Reader) (h : Header) (v : Bytes) : Prop :=
  ∀ k theMessage g g', (h.Counted → (h.line v k).length < 2 ^ 31) →
    ∃ m, parseHeader { R with garbage := g } (h.line v 0) theMessage = some m ∧
      parseHeader { R with garbage := g' } (h.line v k) theMessage = some m

section Outcomes

variable {R : Reader} {h : Header} {v : Bytes} {α : Type}

/-- A header whose line gives a value, which is put into the message. -/
lemma sameState_iff {set : Message → α → Message} (value : Garbage → ℕ → Option α)
    (hset : ∀ a a', (∀ m, set m a = set m a') → a = a')
    (hparse : ∀ g k m, h.parse { R with garbage := g } (h.line v k) m = (value g k).map (set m)) :
    SameState R h v ↔ ∀ k g g', (h.Counted → (h.line v k).length < 2 ^ 31) → ∃ a, value g 0 = some a ∧ value g' k = some a := by
  constructor
  · intro hsame k g g' hfits
    obtain ⟨m, hzero, hk⟩ := hsame k {} g g' hfits
    rw [parseHeader_line, hparse] at hzero hk
    obtain ⟨a, ha, -⟩ := Option.map_eq_some_iff.mp hzero
    obtain ⟨a', ha', -⟩ := Option.map_eq_some_iff.mp hk
    refine ⟨a, ha, ?_⟩
    rw [ha', hset a a' fun m => ?_]
    obtain ⟨m', hzero', hk'⟩ := hsame k m g g' hfits
    rw [parseHeader_line, hparse, ha, Option.map_some, Option.some_inj] at hzero'
    rw [parseHeader_line, hparse, ha', Option.map_some, Option.some_inj] at hk'
    rw [hzero', hk']
  · intro hvalue k m g g' hfits
    obtain ⟨a, hzero, hk⟩ := hvalue k g g' hfits
    refine ⟨set m a, ?_, ?_⟩
    · rw [parseHeader_line, hparse, hzero, Option.map_some]
    · rw [parseHeader_line, hparse, hk, Option.map_some]

/-- What is read behind the byte after the colon, if anything is there. -/
def valueAt (nothing : α) (read : Bytes → Option α) (v : Bytes) (k : ℕ) : Option α :=
  if behind v k = [] then some nothing else read (behind v k)

lemma sameState_parsing (set : Message → α → Message) (nothing : α) (read : Bytes → Option α) {offset : ℕ}
    (hoffset : offset = h.name.length + 2) (hset : ∀ a a', (∀ m, set m a = set m a') → a = a')
    (hparse : ∀ g aLine m, h.parse { R with garbage := g } aLine m = parsing offset nothing read (set m) aLine) :
    SameState R h v ↔ ∀ k, (h.Counted → (h.line v k).length < 2 ^ 31) →
      ∃ a, valueAt nothing read v 0 = some a ∧ valueAt nothing read v k = some a := by
  rw [sameState_iff (fun _ => valueAt nothing read v) hset fun g k m => (hparse g _ m).trans (parsing_line h hoffset)]
  exact ⟨fun hall k hfits => hall k R.garbage R.garbage hfits, fun hall k _ _ hfits => hall k hfits⟩

lemma valueAt_zero_cons (nothing : α) (read : Bytes → Option α) (c : UInt8) (t : Bytes) :
    valueAt nothing read (c :: t) 0 = if t = [] then some nothing else read t := rfl

lemma valueAt_succ_cons (nothing : α) (read : Bytes → Option α) (c : UInt8) (t : Bytes) (k : ℕ) :
    valueAt nothing read (c :: t) (k + 1) = read (List.replicate k 32 ++ c :: t) :=
  if_neg (List.append_ne_nil_of_right_ne_nil _ (List.cons_ne_nil c t))

lemma valueAt_two (nothing : α) (read : Bytes → Option α) (v : Bytes) : valueAt nothing read v 2 = read (32 :: v) :=
  if_neg (List.cons_ne_nil 32 v)

end Outcomes

section Text

variable {b b' v : Bytes} {w : Str}

def HasHigh (b : Bytes) : Prop := ∃ c ∈ b, 128 ≤ c

lemma asciiText_none : asciiText b = none ↔ HasHigh b := by
  rw [asciiText]
  split_ifs with hall
  · refine iff_of_false (fun h => by cases h) ?_
    rintro ⟨c, hc, hhigh⟩
    exact absurd (of_decide_eq_true (List.all_eq_true.mp hall c hc)) (UInt8.not_lt.mpr hhigh)
  · refine iff_of_true rfl ?_
    rw [List.all_eq_true] at hall
    push Not at hall
    obtain ⟨c, hc, hhigh⟩ := hall
    exact ⟨c, hc, UInt8.not_lt.mp fun h => hhigh (decide_eq_true h)⟩

lemma asciiText_some (h : asciiText b = some w) (h' : asciiText b' = some w) : b = b' := by
  rw [asciiText, Option.ite_none_right_eq_some] at h h'
  have heq : asciiUnits b = asciiUnits b' := (Option.some.inj h.2).trans (Option.some.inj h'.2).symm
  refine List.map_injective_iff.mpr (fun c c' hc => ?_) heq
  rw [← UInt8.toUInt8_toUInt16 c, ← UInt8.toUInt8_toUInt16 c', hc]

/-- Neither the value nor the value without its first byte is ASCII. -/
def NotText (v : Bytes) : Prop := HasHigh v ∧ (v.tail ≠ [] → HasHigh v.tail)

lemma hasHigh_spaces (k : ℕ) : HasHigh (List.replicate k 32 ++ v) ↔ HasHigh v := by
  constructor
  · rintro ⟨c, hc, hhigh⟩
    rcases List.mem_append.mp hc with hc | hc
    · rw [List.eq_of_mem_replicate hc] at hhigh
      exact absurd hhigh (by decide)
    · exact ⟨c, hc, hhigh⟩
  · rintro ⟨c, hc, hhigh⟩
    exact ⟨c, List.mem_append_right _ hc, hhigh⟩

lemma not_hasHigh_nil : ¬HasHigh [] := by
  rintro ⟨c, hc, -⟩
  cases hc

lemma not_hasHigh_space : ¬HasHigh [32] := by
  rintro ⟨c, hc, hhigh⟩
  rw [List.mem_singleton.mp hc] at hhigh
  exact absurd hhigh (by decide)

def printing (b : Bytes) : Bytes := b.filter fun c => !isBlankByte c

lemma hasHigh_printing : HasHigh (printing b) ↔ HasHigh b := by
  constructor
  · rintro ⟨c, hc, hhigh⟩
    exact ⟨c, List.mem_of_mem_filter hc, hhigh⟩
  · rintro ⟨c, hc, hhigh⟩
    refine ⟨c, List.mem_filter.mpr ⟨hc, ?_⟩, hhigh⟩
    exact forall_byte (P := fun c => 128 ≤ c → (!isBlankByte c) = true) (by decide) c hhigh

lemma texts_iff {f : Bytes → Bytes} (hf : ∀ b, printing (f b) = printing b) (hv : ∀ c ∈ v.head?, isBlankByte c = false) :
    (∀ k, ∃ a, valueAt none (fun aData => some (asciiText (f aData))) v 0 = some a ∧
      valueAt none (fun aData => some (asciiText (f aData))) v k = some a) ↔ NotText v := by
  have hhigh (b : Bytes) : asciiText (f b) = none ↔ HasHigh b := by
    rw [asciiText_none, ← hasHigh_printing, hf, hasHigh_printing]
  cases v with
  | nil =>
    refine iff_of_false (fun h => ?_) fun h => not_hasHigh_nil h.1
    obtain ⟨a, hzero, htwo⟩ := h 2
    cases hzero
    rw [valueAt_two, Option.some_inj, hhigh] at htwo
    exact not_hasHigh_space htwo
  | cons c t =>
    constructor
    · intro h
      obtain ⟨a, hzero, hone⟩ := h 1
      rw [valueAt_zero_cons] at hzero
      rw [valueAt_succ_cons, Option.some_inj] at hone
      change asciiText (f (c :: t)) = a at hone
      by_cases ht : t = []
      · rw [if_pos ht] at hzero
        cases hzero
        exact ⟨(hhigh _).mp hone, fun hne => absurd ht hne⟩
      · rw [if_neg ht, Option.some_inj] at hzero
        cases a with
        | none => exact ⟨(hhigh _).mp hone, fun _ => (hhigh _).mp hzero⟩
        | some w =>
          have heq := congrArg List.length (congrArg printing (asciiText_some hone hzero))
          rw [hf, hf, printing, printing, List.filter_cons, hv c rfl] at heq
          exact absurd heq (Nat.succ_ne_self _)
    · rintro ⟨hall, htail⟩
      have hnone (k : ℕ) : valueAt none (fun aData => some (asciiText (f aData))) (c :: t) k = some none := by
        cases k with
        | zero =>
          rw [valueAt_zero_cons]
          split_ifs with ht
          · rfl
          · exact congrArg some ((hhigh t).mpr (htail ht))
        | succ k =>
          rw [valueAt_succ_cons]
          exact congrArg some ((hhigh _).mpr ((hasHigh_spaces k).mpr hall))
      exact fun k => ⟨none, hnone 0, hnone k⟩

lemma printing_dropWhile (b : Bytes) : printing (b.dropWhile isBlankByte) = printing b := by
  induction b with
  | nil => rfl
  | cons c b ih =>
    rw [List.dropWhile_cons]
    split_ifs with hc
    · rw [ih, printing, printing, List.filter_cons, hc]
      rfl
    · rfl

lemma printing_reverse (b : Bytes) : printing b.reverse = (printing b).reverse := List.filter_reverse

lemma printing_trimmed (b : Bytes) : printing (dataByTrimmingWhiteSpaces b) = printing b := by
  rw [dataByTrimmingWhiteSpaces, printing_reverse, printing_dropWhile, printing_reverse, printing_dropWhile, List.reverse_reverse]

lemma firstReply_space (b : Bytes) : firstReply (32 :: b) = 32 :: b := by
  have hspace : (32 :: b).idxOf 32 = 0 := List.idxOf_cons_self
  rw [firstReply]
  simp only [hspace]
  rw [if_neg (by omega), if_neg (by omega)]

lemma firstReply_subset (b : Bytes) : firstReply b ⊆ b := by
  rw [firstReply]
  split_ifs
  · exact List.take_subset _ b
  · exact List.take_subset _ b
  · exact List.Subset.refl b

lemma replies_iff : (∀ k, ∃ a, valueAt none (fun aData => some (asciiText (firstReply aData))) v 0 = some a ∧
      valueAt none (fun aData => some (asciiText (firstReply aData))) v k = some a) ↔
    HasHigh (firstReply v) ∧ (v.tail ≠ [] → HasHigh (firstReply v.tail)) := by
  constructor
  · intro h
    obtain ⟨a, hzero, htwo⟩ := h 2
    obtain ⟨a', hzero', hthree⟩ := h 3
    have haa' : a = a' := Option.some.inj (hzero.symm.trans hzero')
    rw [valueAt_two, firstReply_space, Option.some_inj] at htwo
    cases a with
    | some w =>
      rw [← haa'] at hthree
      have hvalue : valueAt none (fun aData => some (asciiText (firstReply aData))) v 3 = some (asciiText (firstReply (32 :: 32 :: v))) :=
        if_neg (List.cons_ne_nil _ _)
      rw [hvalue, firstReply_space, Option.some_inj] at hthree
      have heq := congrArg List.length (asciiText_some htwo hthree)
      exact absurd heq.symm (Nat.succ_ne_self _)
    | none =>
      cases v with
      | nil => exact absurd (asciiText_none.mp htwo) not_hasHigh_space
      | cons c t =>
        obtain ⟨o, hzero'', hone⟩ := h 1
        obtain rfl : none = o := Option.some.inj (hzero.symm.trans hzero'')
        rw [valueAt_succ_cons, Option.some_inj, asciiText_none] at hone
        refine ⟨hone, fun ht => ?_⟩
        change t ≠ [] at ht
        rw [valueAt_zero_cons, if_neg ht, Option.some_inj, asciiText_none] at hzero
        exact hzero
  · rintro ⟨hall, htail⟩
    have hnone (k : ℕ) : valueAt none (fun aData => some (asciiText (firstReply aData))) v k = some none := by
      cases v with
      | nil => exact absurd hall not_hasHigh_nil
      | cons c t =>
        rcases k with _ | _ | k
        · rw [valueAt_zero_cons]
          split_ifs with ht
          · rfl
          · exact congrArg some (asciiText_none.mpr (htail ht))
        · rw [valueAt_succ_cons]
          exact congrArg some (asciiText_none.mpr hall)
        · rw [valueAt_succ_cons, List.replicate_succ, List.cons_append, firstReply_space]
          obtain ⟨d, hd, hhigh⟩ := hall
          refine congrArg some (asciiText_none.mpr ⟨d, List.mem_cons_of_mem _ (List.mem_append_right _ ?_), hhigh⟩)
          exact firstReply_subset _ hd
    exact fun k => ⟨none, hnone 0, hnone k⟩

lemma splitOn_space (b : Bytes) : (32 :: b).splitOn 32 = [] :: b.splitOn 32 := by
  rw [List.splitOn, List.splitOnP_cons_eq_if_modifyHead, if_pos (beq_self_eq_true (32 : UInt8))]
  rfl

lemma references_differ : ¬∀ k, ∃ a, valueAt none (fun aData => some (some ((aData.splitOn 32).filterMap asciiText))) v 0 = some a ∧
    valueAt none (fun aData => some (some ((aData.splitOn 32).filterMap asciiText))) v k = some a := by
  intro h
  obtain ⟨a, hzero, htwo⟩ := h 2
  obtain ⟨a', hzero', hthree⟩ := h 3
  obtain rfl : a = a' := Option.some.inj (hzero.symm.trans hzero')
  have hvalue : valueAt none (fun aData => some (some ((aData.splitOn 32).filterMap asciiText))) v 3 =
      some (some (((32 :: 32 :: v).splitOn 32).filterMap asciiText)) := if_neg (List.cons_ne_nil _ _)
  have hempty (b : Bytes) : ((32 :: b).splitOn 32).filterMap asciiText = [] :: (b.splitOn 32).filterMap asciiText := by
    rw [splitOn_space]
    rfl
  rw [hvalue, hempty, hempty] at hthree
  rw [valueAt_two, hempty] at htwo
  have heq := congrArg List.length (Option.some.inj (Option.some.inj (htwo.trans hthree.symm)))
  exact absurd heq.symm (Nat.succ_ne_self _)

end Text

section Flags

variable {v : Bytes}

/-- A flag is set for the whole value and for the value without its first byte, or for neither. -/
def SameFlags (v : Bytes) : Prop := ∀ flag : Flag, v.head? = some flag.letter → flag.letter ∈ v.tail

lemma flagsFromData_spaces (k : ℕ) : flagsFromData (List.replicate k 32 ++ v) = flagsFromData v := by
  have hletter (flag : Flag) : flag.letter ≠ 32 := by cases flag <;> decide
  rw [flagsFromData, flagsFromData]
  refine Finset.filter_congr fun flag _ => ?_
  rw [List.mem_append, or_iff_right]
  exact fun h => hletter flag (List.eq_of_mem_replicate h)

lemma flagsFromData_cons {c : UInt8} {t : Bytes} : flagsFromData t = flagsFromData (c :: t) ↔ SameFlags (c :: t) := by
  simp only [flagsFromData, Finset.ext_iff, Finset.mem_filter, Finset.mem_univ, true_and]
  constructor
  · intro h flag hflag
    exact (h flag).mpr (by rw [← Option.some.inj hflag]; exact List.mem_cons_self)
  · intro h flag
    rw [List.mem_cons]
    refine ⟨Or.inr, fun hor => hor.elim (fun heq => h flag (by rw [heq]; rfl)) id⟩

lemma status_iff : (∀ k, ∃ a, valueAt (∅, none) readStatus v 0 = some a ∧ valueAt (∅, none) readStatus v k = some a) ↔
    NotText v ∧ SameFlags v := by
  cases v with
  | nil =>
    refine iff_of_false (fun h => ?_) fun h => not_hasHigh_nil h.1.1
    obtain ⟨a, hzero, htwo⟩ := h 2
    cases hzero
    rw [valueAt_two, readStatus, Option.some_inj, Prod.mk_inj] at htwo
    exact not_hasHigh_space (asciiText_none.mp htwo.2)
  | cons c t =>
    constructor
    · intro h
      obtain ⟨a, hzero, hone⟩ := h 1
      rw [valueAt_zero_cons] at hzero
      rw [valueAt_succ_cons, readStatus, Option.some_inj] at hone
      change (flagsFromData (c :: t), asciiText (c :: t)) = a at hone
      by_cases ht : t = []
      · rw [if_pos ht] at hzero
        obtain rfl := Option.some.inj hzero
        obtain ⟨hflags, htext⟩ := Prod.mk_inj.mp hone
        refine ⟨⟨asciiText_none.mp htext, fun hne => absurd ht hne⟩, flagsFromData_cons.mp ?_⟩
        rw [hflags, ht]
        rfl
      · rw [if_neg ht, readStatus, Option.some_inj] at hzero
        obtain ⟨hflags, htext⟩ := Prod.mk_inj.mp (hzero.trans hone.symm)
        refine ⟨?_, flagsFromData_cons.mp hflags⟩
        cases htail : asciiText t with
        | none =>
          rw [htail] at htext
          exact ⟨asciiText_none.mp htext.symm, fun _ => asciiText_none.mp htail⟩
        | some w =>
          have heq := congrArg List.length (asciiText_some htail (htext.symm.trans htail))
          exact absurd heq.symm (Nat.succ_ne_self _)
    · rintro ⟨⟨hall, htail⟩, hflags⟩
      rw [← flagsFromData_cons] at hflags
      have hvalue (k : ℕ) : valueAt (∅, none) readStatus (c :: t) k = some (flagsFromData (c :: t), none) := by
        cases k with
        | zero =>
          rw [valueAt_zero_cons, ← hflags]
          split_ifs with ht
          · rw [ht]
            rfl
          · exact congrArg (fun o => some (flagsFromData t, o)) (asciiText_none.mpr (htail ht))
        | succ k =>
          rw [valueAt_succ_cons, readStatus, flagsFromData_spaces]
          exact congrArg (fun o => some (flagsFromData (c :: t), o)) (asciiText_none.mpr ((hasHigh_spaces k).mpr hall))
      exact fun k => ⟨_, hvalue 0, hvalue k⟩

end Flags

section Addresses

variable {R : Reader} {v : Bytes}

lemma addressPieces_front (front : Bytes) (bytes : Bytes) (b : Bool) (piece : Bytes) :
    addressPieces b (front ++ piece) bytes = (addressPieces b piece bytes).modifyHead (front ++ ·) := by
  induction bytes generalizing b piece with
  | nil => rfl
  | cons c bytes ih =>
    rw [addressPieces, addressPieces]
    generalize (if c = 34 then !b else b) = b'
    split_ifs
    · rw [List.modifyHead_cons, List.append_assoc]
    · rw [List.modifyHead_cons]
    · rw [List.append_assoc, ih]

lemma addressPieces_space (hv : v ≠ []) (b : Bool) (piece : Bytes) : addressPieces b piece (32 :: v) = addressPieces b (piece ++ [32]) v := by
  have hinner : ¬(((32 : UInt8) = 44 ∨ v = []) ∧ (if (32 : UInt8) = 34 then !b else b) = false) := by
    rintro ⟨h | h, -⟩
    · exact absurd h (by decide)
    · exact hv h
  rw [addressPieces, if_neg hinner]
  rfl

lemma addressPieces_spaces (hv : v ≠ []) (k : ℕ) (piece : Bytes) :
    addressPieces false piece (List.replicate k 32 ++ v) = addressPieces false (piece ++ List.replicate k 32) v := by
  induction k generalizing piece with
  | zero => rw [List.replicate_zero, List.nil_append, List.append_nil]
  | succ k ih =>
    rw [List.replicate_succ, List.cons_append, addressPieces_space (List.append_ne_nil_of_right_ne_nil _ hv), ih,
      List.append_assoc, List.singleton_append]

lemma addressPieces_blank (k : ℕ) (piece : Bytes) :
    addressPieces false piece (List.replicate (k + 1) 32) = [piece ++ List.replicate (k + 1) 32] := by
  induction k generalizing piece with
  | zero => rfl
  | succ k ih =>
    have hne : List.replicate (k + 1) (32 : UInt8) ≠ [] := List.cons_ne_nil _ _
    rw [List.replicate_succ, addressPieces_space hne, ih, List.append_assoc, List.singleton_append]

lemma trimmed_spaces (k : ℕ) (b : Bytes) : dataByTrimmingWhiteSpaces (List.replicate k 32 ++ b) = dataByTrimmingWhiteSpaces b := by
  have hall : ∀ c ∈ List.replicate k (32 : UInt8), isBlankByte c = true := by
    intro c hc
    rw [List.eq_of_mem_replicate hc]
    rfl
  rw [dataByTrimmingWhiteSpaces, List.dropWhile_append_of_pos hall, dataByTrimmingWhiteSpaces]

lemma readAddresses_nil : readAddresses R [] = some [] := rfl

lemma readAddresses_blank (k : ℕ) : readAddresses R (List.replicate k 32) = some [] := by
  cases k with
  | zero => exact readAddresses_nil
  | succ k =>
    have htrim : dataByTrimmingWhiteSpaces (List.replicate (k + 1) 32) = [] := by
      rw [← List.append_nil (List.replicate (k + 1) (32 : UInt8)), trimmed_spaces]
      rfl
    rw [readAddresses, addressPieces_blank, List.nil_append, List.mapM_cons, htrim]
    rfl

lemma readAddresses_spaces (k : ℕ) : readAddresses R (List.replicate k 32 ++ v) = readAddresses R v := by
  by_cases hv : v = []
  · rw [hv, List.append_nil, readAddresses_blank, readAddresses_nil]
  · rw [readAddresses, addressPieces_spaces hv, List.nil_append, ← List.append_nil (List.replicate k (32 : UInt8)),
      addressPieces_front, readAddresses]
    cases addressPieces false [] v with
    | nil => rfl
    | cons p ps => rw [List.modifyHead_cons, List.mapM_cons, List.mapM_cons, trimmed_spaces]

lemma addresses_iff {read : Bytes → Option (List Address)} {fits : ℕ → Prop} (hzero : fits 0) (hone : fits 1)
    (hread : ∀ k, fits k → read (behind v k) = readAddresses R (behind v k)) :
    (∀ k, fits k → ∃ l, valueAt [] read v 0 = some l ∧ valueAt [] read v k = some l) ↔
      ∃ l, readAddresses R v.tail = some l ∧ readAddresses R v = some l := by
  have hvalue (k : ℕ) (hk : fits k) : valueAt [] read v k = readAddresses R (behind v k) := by
    rw [valueAt, hread k hk]
    split_ifs with h
    · rw [h, readAddresses_nil]
    · rfl
  have hbehind (k : ℕ) : readAddresses R (behind v (k + 1)) = readAddresses R v := readAddresses_spaces k
  constructor
  · intro h
    obtain ⟨l, h0, h1⟩ := h 1 hone
    rw [hvalue 0 hzero] at h0
    rw [hvalue 1 hone, hbehind] at h1
    exact ⟨l, h0, h1⟩
  · rintro ⟨l, h0, h1⟩ k hk
    refine ⟨l, (hvalue 0 hzero).trans h0, ?_⟩
    rw [hvalue k hk]
    cases k with
    | zero => exact h0
    | succ k => rw [hbehind, h1]

end Addresses

section SingleAddress

variable {R : Reader} {v : Bytes}

/-- What the reader relies on: a space is white space, and it is kept when text is decoded. -/
structure Spaced (R : Reader) : Prop where
  white : R.isWhite 32 = true
  nothing : literal R.F R.defaultCharset [] = []
  space : ∀ b, literal R.F R.defaultCharset (32 :: b) = 32 :: literal R.F R.defaultCharset b

/-- The text of the value apart from the announcer of ISO-2022-JP. -/
def plainText (R : Reader) (v : Bytes) : Option Str := decodeSpans R.F R.defaultCharset (v.length + 1) [] false v

lemma decodeSpans_space {F : Foundation} {theCharset : Option Bytes} {n : ℕ} (hn : n ≠ 0) (span b : Bytes) :
    decodeSpans F theCharset (n + 1) span false (32 :: b) = decodeSpans F theCharset n (span ++ [32]) false b := by
  cases b with
  | nil =>
    rw [decodeSpans_unmarked (List.isChain_singleton 32) (Nat.succ_lt_succ (Nat.pos_of_ne_zero hn)),
      decodeSpans_unmarked List.isChain_nil (Nat.pos_of_ne_zero hn), List.append_nil]
  | cons d b =>
    rw [decodeSpans_step fun h => absurd h.1 (by decide)]
    rfl

lemma literal_space (hR : Spaced R) (span : Bytes) : literal R.F R.defaultCharset (32 :: span) =
    32 :: if span = [] then [] else literal R.F R.defaultCharset span := by
  rw [hR.space]
  split_ifs with h
  · rw [h, hR.nothing]
  · rfl

lemma decodeSpans_front (hR : Spaced R) {n : ℕ} {b : Bytes} (hn : b.length < n) (span : Bytes) :
    decodeSpans R.F R.defaultCharset n (32 :: span) false b =
      (decodeSpans R.F R.defaultCharset n span false b).map (32 :: ·) := by
  induction n generalizing b span with
  | zero => exact absurd hn (Nat.not_lt_zero _)
  | succ n ih =>
    rcases b with _ | ⟨c, _ | ⟨d, b⟩⟩
    · rw [decodeSpans_unmarked List.isChain_nil hn, decodeSpans_unmarked List.isChain_nil hn, List.append_nil, List.append_nil,
        if_neg (List.cons_ne_nil _ _), literal_space hR]
      rfl
    · rw [decodeSpans_unmarked (List.isChain_singleton c) hn, decodeSpans_unmarked (List.isChain_singleton c) hn,
        List.cons_append, if_neg (List.cons_ne_nil _ _), literal_space hR]
      rfl
    · by_cases hmark : c = 61 ∧ d = 63
      · obtain ⟨rfl, rfl⟩ := hmark
        have hfront : (if 32 :: span = [] ∨ false = true then [] else literal R.F R.defaultCharset (32 :: span)) =
            32 :: if span = [] ∨ false = true then [] else literal R.F R.defaultCharset span := by
          rw [if_neg (fun h => h.elim (List.cons_ne_nil _ _) Bool.false_ne_true), literal_space hR]
          simp only [Bool.false_eq_true, or_false]
        rw [decodeSpans, decodeSpans]
        cases parseWord b with
        | none => exact congrArg (fun u => some (u ++ literal R.F R.defaultCharset (61 :: 63 :: b))) hfront
        | some word =>
          obtain ⟨charset, encoding, text, rest⟩ := word
          dsimp only
          by_cases hencoding : lower encoding = 113 ∨ lower encoding = 98
          · rw [if_pos hencoding, if_pos hencoding]
            cases decodeText encoding text with
            | none => rfl
            | some data =>
              dsimp only [Option.bind_some]
              cases decodeSpans R.F R.defaultCharset n [] true rest with
              | none => rfl
              | some s => exact congrArg (fun u => some (u ++ (R.F.decode (R.defaultCharset.getD charset) data).getD [] ++ s)) hfront
          · rw [if_neg hencoding, if_neg hencoding]
            cases decodeSpans R.F R.defaultCharset n _ false rest with
            | none => rfl
            | some s => exact congrArg (fun u => some (u ++ s)) hfront
      · rw [decodeSpans_step hmark, decodeSpans_step hmark, List.cons_append]
        exact ih (Nat.lt_of_succ_lt_succ hn) _

lemma decodeSpans_spaces (k : ℕ) {n : ℕ} (hn : v.length < n) (span : Bytes) :
    decodeSpans R.F R.defaultCharset (n + k) span false (List.replicate k 32 ++ v) =
      decodeSpans R.F R.defaultCharset n (span ++ List.replicate k 32) false v := by
  induction k generalizing span with
  | zero => rw [List.replicate_zero, List.nil_append, List.append_nil, Nat.add_zero]
  | succ k ih =>
    rw [List.replicate_succ, List.cons_append, ← Nat.add_assoc, decodeSpans_space (by omega), ih, List.append_assoc,
      List.singleton_append]

lemma decodeSpans_behind (hR : Spaced R) (k : ℕ) {n : ℕ} (hn : v.length < n) :
    decodeSpans R.F R.defaultCharset n (List.replicate k 32) false v =
      (decodeSpans R.F R.defaultCharset n [] false v).map (spaces k ++ ·) := by
  induction k with
  | zero => exact Option.map_id'.symm
  | succ k ih =>
    rw [List.replicate_succ, decodeSpans_front hR hn, ih, Option.map_map]
    rfl

lemma decoded_spaces (hR : Spaced R) (k : ℕ) :
    decoded R (List.replicate (k + 1) 32 ++ v) = (plainText R v).map fun w => some (spaces (k + 1) ++ w) := by
  have hlength : (List.replicate (k + 1) 32 ++ v).length + 1 = v.length + 1 + (k + 1) := by
    rw [List.length_append, List.length_replicate]
    omega
  have hheader : decodeHeader R.F R.defaultCharset (List.replicate (k + 1) 32 ++ v) = (plainText R v).map (spaces (k + 1) ++ ·) := by
    rw [decodeHeader, if_neg (fun h => by cases h), if_neg (fun h => by cases h), hlength,
      decodeSpans_spaces _ (Nat.lt_succ_self _), List.nil_append, decodeSpans_behind hR _ (Nat.lt_succ_self _), plainText]
  have hannouncer : ¬hasCPrefix (List.replicate (k + 1) 32 ++ v) (27 :: ascii "$B") = true := fun h => by cases h
  rw [decoded, hheader]
  cases plainText R v with
  | none => exact if_neg hannouncer
  | some w => rfl

lemma readAddress_spaces (hR : Spaced R) (k : ℕ) : readAddress R (List.replicate (k + 1) 32 ++ v) =
    (plainText R v).map fun w => initWithString R.isWhite (spaces (k + 1) ++ w) := by
  rw [readAddress, decoded_spaces hR, Option.map_map]
  rfl

/-- The address is the same without the first byte, with it, and behind a space, and it does not begin where the text does. -/
def AddressKept (R : Reader) (v : Bytes) : Prop :=
  v.tail ≠ [] ∧ ∃ a w, readAddress R v.tail = some (some a) ∧ readAddress R v = some (some a) ∧ plainText R v = some w ∧
    Delimited w ∧ initWithString R.isWhite (spaces 1 ++ w) = some a

lemma delimited_of_same {isWhite : UInt16 → Bool} {w : Str} {a : Address} (h : initWithString isWhite (spaces 1 ++ w) = some a)
    (h' : initWithString isWhite (spaces 2 ++ w) = some a) : Delimited w := by
  by_contra hnot
  have hspaced (k : ℕ) : ¬Delimited (spaces k ++ w) := by
    rw [Delimited, List.mem_append, List.mem_append]
    rintro ((h | h) | (h | h))
    · exact absurd (List.eq_of_mem_replicate h) (by decide)
    · exact hnot (.inl h)
    · exact absurd (List.eq_of_mem_replicate h) (by decide)
    · exact hnot (.inr h)
  rw [initWithString_undelimited (fun h => by cases h) (hspaced 1)] at h
  rw [initWithString_undelimited (fun h => by cases h) (hspaced 2), ← h, Option.some_inj, Address.mk.injEq] at h'
  exact absurd (congrArg List.length h'.1) (Nat.succ_ne_self _)

lemma address_iff (hR : Spaced R) {read : Bytes → Option (Option Address)}
    (hread : ∀ b o, read b = some o → readAddress R b = some o)
    (hsome : ∀ b a, readAddress R b = some (some a) → read b = some (some a)) :
    (∀ k, ∃ a, valueAt none read v 0 = some a ∧ valueAt none read v k = some a) ↔ AddressKept R v := by
  constructor
  · intro h
    obtain ⟨o, hzero, htwo⟩ := h 2
    have hspaced := hread _ _ ((valueAt_two none read v).symm.trans htwo)
    rw [show 32 :: v = List.replicate (0 + 1) 32 ++ v from rfl, readAddress_spaces hR, Option.map_eq_some_iff] at hspaced
    obtain ⟨w, hw, hinit⟩ := hspaced
    obtain ⟨a, ha⟩ : ∃ a, initWithString R.isWhite (spaces (0 + 1) ++ w) = some a := initWithString_some fun h => by cases h
    obtain rfl : some a = o := ha.symm.trans hinit
    rcases v with _ | ⟨c, t⟩
    · cases hzero
    obtain ⟨o', hzero', hone⟩ := h 1
    obtain ⟨o'', hzero'', hthree⟩ := h 3
    obtain rfl : some a = o' := Option.some.inj (hzero.symm.trans hzero')
    obtain rfl : some a = o'' := Option.some.inj (hzero.symm.trans hzero'')
    have htail : t ≠ [] := by
      rintro rfl
      cases hzero
    rw [valueAt_zero_cons, if_neg htail] at hzero
    rw [valueAt_succ_cons] at hone hthree
    have hspaced := hread _ _ hthree
    rw [readAddress_spaces hR, hw, Option.map_some, Option.some_inj] at hspaced
    exact ⟨htail, a, w, hread _ _ hzero, hread _ _ hone, hw, delimited_of_same ha hspaced, ha⟩
  · rintro ⟨htail, a, w, hzero, hone, hw, hdelimited, hinit⟩
    rcases v with _ | ⟨c, t⟩
    · exact absurd rfl htail
    change t ≠ [] at htail
    change readAddress R t = some (some a) at hzero
    have hvalue (k : ℕ) : valueAt none read (c :: t) k = some (some a) := by
      rcases k with _ | _ | k
      · rw [valueAt_zero_cons, if_neg htail]
        exact hsome _ _ hzero
      · rw [valueAt_succ_cons]
        exact hsome _ _ hone
      · rw [valueAt_succ_cons]
        refine hsome _ _ ?_
        rw [readAddress_spaces hR, hw, Option.map_some, initWithString_spaces hR.white hdelimited,
          ← initWithString_spaces (j := 0) hR.white hdelimited, hinit]
    exact fun k => ⟨some a, hvalue 0, hvalue k⟩

end SingleAddress

section Dates

variable {bytes bytes' v : Bytes} {g : Garbage} {word : Buffer}

lemma Buffer.ext_bytes {word word' : Buffer} (h : word.bytes = word'.bytes) : word = word' := by
  cases word
  cases word'
  cases h
  rfl

/-- What a word gives depends on the words from there on, not on where they are. -/
lemma withWord_congr {β : Type} {missing : β} {next next' : ℕ → Buffer → Option β} {i i' : ℕ}
    (h : DateHeader.words (bytes.drop i) = DateHeader.words (bytes'.drop i'))
    (hnext : ∀ j j' word, DateHeader.words (bytes.drop j) = DateHeader.words (bytes'.drop j') → next j word = next' j' word) :
    withWord missing bytes i word next = withWord missing bytes' i' word next' := by
  cases hwords : DateHeader.words (bytes.drop i) with
  | nil => rw [withWord_nil hwords, withWord_nil (h.symm.trans hwords)]
  | cons w ws =>
    have hwords' := h.symm.trans hwords
    by_cases hfits : w.length < 256
    · obtain ⟨j, word₁, heq, hbytes, hrest⟩ := (withWord_cons missing next word hwords).2.2 hfits
      obtain ⟨j', word₂, heq', hbytes', hrest'⟩ := (withWord_cons missing next' word hwords').2.2 hfits
      obtain rfl := Buffer.ext_bytes (hbytes.trans hbytes'.symm)
      rw [heq, heq']
      exact hnext j j' word₁ (hrest.trans hrest'.symm)
    · rw [withWord_long hwords hfits, withWord_long hwords' hfits]

lemma parseFrom_congr {i i' : ℕ} (h : DateHeader.words (bytes.drop i) = DateHeader.words (bytes'.drop i')) :
    DateHeader.parseFrom g bytes i word = DateHeader.parseFrom g bytes' i' word := by
  rw [DateHeader.parseFrom, DateHeader.parseFrom]
  refine withWord_congr h fun i i' wordₘ h => ?_
  cases monthOf (cString wordₘ.bytes) with
  | none => rfl
  | some month =>
    refine withWord_congr h fun i i' word_y h => ?_
    refine withWord_congr h fun i i' wordₜ h => ?_
    refine congrArg (Option.map _) ?_
    exact withWord_congr h fun _ _ _ _ => rfl

lemma parseDate_congr {aLine aLine' : Bytes} (hlength : 6 < aLine.length) (hlength' : 6 < aLine'.length)
    (h : DateHeader.words (aLine.drop 6) = DateHeader.words (aLine'.drop 6)) : DateHeader.parseDate g aLine = DateHeader.parseDate g aLine' := by
  rw [DateHeader.parseDate, DateHeader.parseDate, if_pos hlength, if_pos hlength']
  have hstart : DateHeader.words ((aLine.drop 6).drop 0) = DateHeader.words ((aLine'.drop 6).drop 0) := h
  refine withWord_congr hstart fun i i' word h => ?_
  split_ifs
  · exact withWord_congr h fun _ _ _ h => parseFrom_congr h
  · exact parseFrom_congr h

/-- The date that is read from what is behind the byte after the colon. -/
def dateOf (g : Garbage) (aData : Bytes) : Option (Option Date) := DateHeader.parseDate g (ascii "Date: " ++ aData)

lemma parseDate_line (k : ℕ) : DateHeader.parseDate g (Header.date.line v k) = dateOf g (behind v k) := by
  have hdrop : (Header.date.line v k).drop 6 = behind v k := drop_line .date
  by_cases hnil : behind v k = []
  · have hle : (Header.date.line v k).length ≤ 6 := (behind_nil .date).mp hnil
    rw [hnil, DateHeader.parseDate, if_neg (not_lt.mpr hle)]
    rfl
  · have hlength : 6 < (Header.date.line v k).length := not_le.mp fun h => hnil ((behind_nil .date).mpr h)
    refine parseDate_congr hlength ?_ (by rw [hdrop]; rfl)
    rw [List.length_append]
    exact Nat.lt_add_of_pos_right (List.length_pos_of_ne_nil hnil)

lemma dateOf_spaces (hv : v ≠ []) (k : ℕ) : dateOf g (List.replicate k 32 ++ v) = dateOf g v := by
  have hpos := List.length_pos_of_ne_nil hv
  have hlength (b : Bytes) : 6 < (ascii "Date: " ++ (b ++ v)).length := by
    rw [List.length_append, List.length_append]
    exact Nat.lt_of_lt_of_le (Nat.lt_add_of_pos_right hpos) (Nat.add_le_add_left (Nat.le_add_left _ _) _)
  refine parseDate_congr (hlength _) (hlength []) ?_
  refine words_separators (fun c hc => ?_) v
  rw [List.eq_of_mem_replicate hc]
  rfl

/-- The same date is read with and without the first byte, whatever the variables hold. -/
def DateKept (v : Bytes) : Prop := v ≠ [] ∧ ∃ d, ∀ g, dateOf g v.tail = some d ∧ dateOf g v = some d

lemma dates_iff {fits : ℕ → Prop} (hone : fits 1) (htwo : v = [] → fits 2) :
    (∀ k (g g' : Garbage), fits k → ∃ d, dateOf g (behind v 0) = some d ∧ dateOf g' (behind v k) = some d) ↔ DateKept v := by
  constructor
  · intro h
    have hv : v ≠ [] := by
      rintro rfl
      obtain ⟨d, -, hd⟩ := h 2 zeros zeros (htwo rfl)
      cases hd
    obtain ⟨d, h0, h1⟩ := h 1 zeros zeros hone
    refine ⟨hv, d, fun g => ⟨?_, ?_⟩⟩
    · obtain ⟨a, ha, hd⟩ := h 1 g zeros hone
      rw [h1] at hd
      rw [Option.some.inj hd]
      exact ha
    · obtain ⟨a, ha, hd⟩ := h 1 zeros g hone
      rw [h0] at ha
      rw [Option.some.inj ha]
      exact hd
  · rintro ⟨hv, d, hd⟩ k g g' -
    refine ⟨d, (hd g).1, ?_⟩
    cases k with
    | zero => exact (hd g').1
    | succ k => exact (dateOf_spaces hv k).trans (hd g').2

end Dates

section Titles

variable {R : Reader} {v : Bytes} {k : ℕ}

lemma trimmed_line (h : Header) (n : ℕ) (hn : n = h.name.length + 1) :
    dataByTrimmingWhiteSpaces ((h.line v k).drop n) = dataByTrimmingWhiteSpaces v := by
  rw [Header.line, hn, List.drop_append, List.drop_eq_nil_of_le (by omega), List.nil_append, Nat.add_sub_cancel_left]
  exact trimmed_spaces k v

lemma decoded_single (c : UInt8) : decoded R [c] = some (some (literal R.F R.defaultCharset [c])) := by
  have hheader : decodeHeader R.F R.defaultCharset [c] = some (literal R.F R.defaultCharset [c]) := by
    rw [decodeHeader, if_neg (List.cons_ne_nil _ _), if_neg]
    · exact decodeSpans_unmarked (List.isChain_singleton c) (Nat.lt_succ_self _) [] false
    · intro h
      have hlength := (List.isPrefixOf_iff_prefix.mp h).length_le
      rw [List.length_singleton] at hlength
      exact absurd hlength (by decide)
  rw [decoded, hheader]

lemma trimmed_length (b : Bytes) : (dataByTrimmingWhiteSpaces b).length ≤ b.length := by
  rw [dataByTrimmingWhiteSpaces, List.length_reverse]
  refine (List.length_dropWhile_le _ _).trans ?_
  rw [List.length_reverse]
  exact List.length_dropWhile_le _ _

lemma decoded_short (hv : v.length ≤ 1) : ∃ w, decoded R (dataByTrimmingWhiteSpaces v) = some (some w) := by
  have hlength := (trimmed_length v).trans hv
  generalize dataByTrimmingWhiteSpaces v = b at hlength
  rcases b with _ | ⟨c, _ | ⟨d, t⟩⟩
  · exact ⟨[], rfl⟩
  · exact ⟨_, decoded_single c⟩
  · rw [List.length_cons, List.length_cons] at hlength
    omega

/-- The subject of a line. -/
def subjectOf (R : Reader) (v : Bytes) (k : ℕ) : Option (Option Str) :=
  if 9 < (Header.subject.line v k).length then decoded R (dataByTrimmingWhiteSpaces v) else some none

lemma subjectOf_eq : subjectOf R v k = if 9 < 8 + k + v.length then decoded R (dataByTrimmingWhiteSpaces v) else some none := by
  rw [subjectOf, line_length]
  rfl

lemma subject_iff : (∀ k, ∃ a, subjectOf R v 0 = some a ∧ subjectOf R v k = some a) ↔
    2 ≤ v.length ∧ decoded R (dataByTrimmingWhiteSpaces v) ≠ none := by
  constructor
  · intro h
    obtain ⟨a, hzero, htwo⟩ := h 2
    rw [subjectOf_eq, if_pos (by omega)] at htwo
    refine ⟨?_, fun hnone => by rw [htwo] at hnone; cases hnone⟩
    by_contra hshort
    obtain ⟨w, hw⟩ := decoded_short (R := R) (v := v) (by omega)
    rw [subjectOf_eq, if_neg (by omega), ← htwo, hw, Option.some_inj] at hzero
    cases hzero
  · rintro ⟨hlong, hdefined⟩ k
    obtain ⟨a, ha⟩ := Option.ne_none_iff_exists'.mp hdefined
    refine ⟨a, ?_, ?_⟩
    · rw [subjectOf_eq, if_pos (by omega), ha]
    · rw [subjectOf_eq, if_pos (by omega), ha]

/-- The organization of a line. -/
def organizationOf (R : Reader) (v : Bytes) (k : ℕ) : Option Str :=
  if 14 < (Header.organization.line v k).length then (decoded R (dataByTrimmingWhiteSpaces v)).bind id else some []

lemma organizationOf_eq : organizationOf R v k =
    if 14 < 13 + k + v.length then (decoded R (dataByTrimmingWhiteSpaces v)).bind id else some [] := by
  rw [organizationOf, line_length]
  rfl

lemma organization_iff : (∀ k, ∃ a, organizationOf R v 0 = some a ∧ organizationOf R v k = some a) ↔
    ∃ w, decoded R (dataByTrimmingWhiteSpaces v) = some (some w) ∧ (v.length = 1 → w = []) := by
  constructor
  · intro h
    obtain ⟨w, hzero, htwo⟩ := h 2
    rw [organizationOf_eq, if_pos (by omega), Option.bind_eq_some_iff] at htwo
    obtain ⟨o, ho, rfl⟩ := htwo
    refine ⟨w, ho, fun hone => ?_⟩
    rw [organizationOf_eq, if_neg (by omega)] at hzero
    exact (Option.some.inj hzero).symm
  · rintro ⟨w, hw, hone⟩
    have hvalue (k : ℕ) : organizationOf R v k = some w := by
      rw [organizationOf_eq, hw]
      split_ifs with hlong
      · rfl
      · rcases Nat.eq_zero_or_pos v.length with hzero | hpos
        · rw [List.eq_nil_of_length_eq_zero hzero] at hw
          cases hw
          rfl
        · rw [hone (by omega)]
    exact fun k => ⟨w, hvalue 0, hvalue k⟩

end Titles

section Headers

variable {R : Reader} {v : Bytes}

lemma set_injective {α : Type} {set : Message → α → Message} (field : Message → α) (hfield : ∀ a, field (set {} a) = a)
    (a a' : α) (h : ∀ m, set m a = set m a') : a = a' := by
  rw [← hfield a, h {}, hfield]

lemma orElse_none {β : Type} (o : Option β) : (o <|> none) = o := by cases o <;> rfl

lemma not_counted {h : Header} (hdate : h ≠ .date) (hreply : h ≠ .replyTo) {P : ℕ → Prop} {fits : ℕ → Prop} :
    (∀ k, (h.Counted → fits k) → P k) ↔ ∀ k, P k :=
  forall_congr' fun _ => imp_iff_right fun hcounted => (hcounted.elim hdate hreply).elim

lemma destination_iff (theType : RecipientType) : SameState R (.destination theType) v ↔
    ∃ l, readAddresses R v.tail = some l ∧ readAddresses R v = some l := by
  have hoffset : offsetOfType theType = (Header.destination theType).name.length + 2 := by cases theType <;> rfl
  have hfield (l : List Address) : (addRecipients {} theType l).recipients.map Prod.snd = l := by
    rw [addRecipients, List.nil_append, List.map_map]
    exact List.map_id l
  rw [sameState_parsing (fun m => addRecipients m theType) [] (readAddresses R) hoffset
    (set_injective (fun m => m.recipients.map Prod.snd) hfield) fun _ _ _ => rfl]
  exact addresses_iff (fun h => by rcases h with h | h <;> cases h) (fun h => by rcases h with h | h <;> cases h) fun _ _ => rfl

lemma behind_length (h : Header) (k : ℕ) : (behind v k).length ≤ (h.line v k).length := by
  rw [← drop_line h, List.length_drop]
  exact Nat.sub_le _ _

lemma replyTo_iff (hshort : (Header.replyTo.line v 1).length < 2 ^ 31) : SameState R .replyTo v ↔
    ∃ l, readAddresses R v.tail = some l ∧ readAddresses R v = some l := by
  have hoffset : 10 = Header.replyTo.name.length + 2 := rfl
  have hfield (l : List Address) : (setReplyTo {} l).replyTo.getD [] = l := by
    rw [setReplyTo]
    split_ifs with hnil
    · exact hnil.symm
    · rfl
  have hcounted : Header.replyTo.Counted := .inr rfl
  rw [sameState_parsing setReplyTo [] (fun aData => readAddresses R (aData.take (wrap32 aData.length).toNat)) hoffset
    (set_injective (fun m => m.replyTo.getD []) hfield) fun _ _ _ => rfl]
  refine addresses_iff (fun _ => ?_) (fun _ => hshort) fun k hk => ?_
  · rw [line_length] at hshort ⊢
    omega
  · have hlength := (behind_length .replyTo k).trans_lt (hk hcounted)
    rw [wrap32_of_mem (by omega) (by omega), Int.toNat_natCast, List.take_length]

lemma theFrom_iff (hR : Spaced R) : SameState R .theFrom v ↔ AddressKept R v := by
  have hoffset : 6 = Header.theFrom.name.length + 2 := rfl
  rw [sameState_parsing setFrom none (readAddress R) hoffset
    (set_injective Message.theFrom orElse_none) fun _ _ _ => rfl,
    not_counted (fun h => by cases h) fun h => by cases h]
  exact address_iff hR (fun _ _ h => h) fun _ _ h => h

lemma resentFrom_iff (hR : Spaced R) : SameState R .resentFrom v ↔ AddressKept R v := by
  have hoffset : 13 = Header.resentFrom.name.length + 2 := rfl
  rw [sameState_parsing setResentFrom none (fun aData => (readAddress R aData).bind fun a => a.map some) hoffset
    (set_injective Message.resentFrom orElse_none) fun _ _ _ => rfl,
    not_counted (fun h => by cases h) fun h => by cases h]
  refine address_iff hR (fun b o h => ?_) fun b a h => ?_
  · obtain ⟨o', ho', hmap⟩ := Option.bind_eq_some_iff.mp h
    obtain ⟨a, rfl, rfl⟩ := Option.map_eq_some_iff.mp hmap
    exact ho'
  · rw [h]
    rfl

lemma inReplyTo_iff : SameState R .inReplyTo v ↔
    HasHigh (firstReply v) ∧ (v.tail ≠ [] → HasHigh (firstReply v.tail)) := by
  have hoffset : 13 = Header.inReplyTo.name.length + 2 := rfl
  rw [sameState_parsing setInReplyTo none (fun aData => some (asciiText (firstReply aData))) hoffset
    (set_injective Message.inReplyTo orElse_none) fun _ _ _ => rfl,
    not_counted (fun h => by cases h) fun h => by cases h]
  exact replies_iff

lemma messageID_iff (hv : ∀ c ∈ v.head?, isBlankByte c = false) : SameState R .messageID v ↔ NotText v := by
  have hoffset : 12 = Header.messageID.name.length + 2 := rfl
  rw [sameState_parsing setMessageID none (fun aData => some (asciiText (dataByTrimmingWhiteSpaces aData))) hoffset
    (set_injective Message.messageID orElse_none) fun _ _ _ => rfl,
    not_counted (fun h => by cases h) fun h => by cases h]
  exact texts_iff printing_trimmed hv

lemma mimeVersion_iff (hv : ∀ c ∈ v.head?, isBlankByte c = false) : SameState R .mimeVersion v ↔ NotText v := by
  have hoffset : 14 = Header.mimeVersion.name.length + 2 := rfl
  rw [sameState_parsing setMIMEVersion none (fun aData => some (asciiText aData)) hoffset
    (set_injective Message.mimeVersion orElse_none) fun _ _ _ => rfl,
    not_counted (fun h => by cases h) fun h => by cases h]
  exact texts_iff (f := id) (fun _ => rfl) hv

lemma references_iff : ¬SameState R .references v := by
  have hoffset : 12 = Header.references.name.length + 2 := rfl
  rw [sameState_parsing setReferences none (fun aData => some (some ((aData.splitOn 32).filterMap asciiText))) hoffset
    (set_injective Message.references orElse_none) fun _ _ _ => rfl,
    not_counted (fun h => by cases h) fun h => by cases h]
  exact references_differ

lemma setStatus_injective (aKey : String) : ∀ a a', (∀ m, setStatus aKey m a = setStatus aKey m a') → a = a' := by
  refine set_injective (fun m => (m.flags, m.headers (asciiUnits (ascii aKey)))) ?_
  rintro ⟨flags, _ | w⟩
  · exact Prod.ext (Finset.empty_union flags) rfl
  · exact Prod.ext (Finset.empty_union flags) (Function.update_self _ _ _)

lemma status_same : SameState R .status v ↔ NotText v ∧ SameFlags v := by
  have hoffset : 8 = Header.status.name.length + 2 := rfl
  rw [sameState_parsing (setStatus "Status") (∅, none) readStatus hoffset (setStatus_injective "Status") fun _ _ _ => rfl,
    not_counted (fun h => by cases h) fun h => by cases h]
  exact status_iff

lemma xStatus_same : SameState R .xStatus v ↔ NotText v ∧ SameFlags v := by
  have hoffset : 10 = Header.xStatus.name.length + 2 := rfl
  rw [sameState_parsing (setStatus "X-Status") (∅, none) readStatus hoffset (setStatus_injective "X-Status") fun _ _ _ => rfl,
    not_counted (fun h => by cases h) fun h => by cases h]
  exact status_iff

lemma sameState_plain {h : Header} {α : Type} (set : Message → α → Message) (value : ℕ → Option α) (hdate : h ≠ .date)
    (hreply : h ≠ .replyTo) (hset : ∀ a a', (∀ m, set m a = set m a') → a = a')
    (hparse : ∀ g k m, h.parse { R with garbage := g } (h.line v k) m = (value k).map (set m)) :
    SameState R h v ↔ ∀ k, ∃ a, value 0 = some a ∧ value k = some a := by
  rw [sameState_iff (fun _ => value) hset hparse]
  exact ⟨fun hall k => hall k R.garbage R.garbage fun hcounted => (hcounted.elim hdate hreply).elim, fun hall k _ _ _ => hall k⟩

lemma subject_same : SameState R .subject v ↔ 2 ≤ v.length ∧ decoded R (dataByTrimmingWhiteSpaces v) ≠ none := by
  have hparse (g : Garbage) (k : ℕ) (m : Message) :
      Header.subject.parse { R with garbage := g } (Header.subject.line v k) m = (subjectOf R v k).map (setSubject m) := by
    change (if 9 < _ then decoded R (dataByTrimmingWhiteSpaces ((Header.subject.line v k).drop 8)) else some none).map _ = _
    rw [trimmed_line .subject 8 rfl, subjectOf]
  rw [sameState_plain setSubject (subjectOf R v) (fun h => by cases h) (fun h => by cases h)
    (set_injective Message.subject orElse_none) hparse]
  exact subject_iff

lemma organization_same : SameState R .organization v ↔
    ∃ w, decoded R (dataByTrimmingWhiteSpaces v) = some (some w) ∧ (v.length = 1 → w = []) := by
  have hparse (g : Garbage) (k : ℕ) (m : Message) : Header.organization.parse { R with garbage := g }
      (Header.organization.line v k) m = (organizationOf R v k).map (setOrganization m) := by
    change (if 14 < _ then (decoded R (dataByTrimmingWhiteSpaces ((Header.organization.line v k).drop 13))).bind id
      else some []).map _ = _
    rw [trimmed_line .organization 13 rfl, organizationOf]
  rw [sameState_plain setOrganization (organizationOf R v) (fun h => by cases h) (fun h => by cases h)
    (set_injective (fun m => m.organization.getD []) fun _ => rfl) hparse]
  exact organization_iff

lemma date_same (hshort : (Header.date.line v 1).length < 2 ^ 31) : SameState R .date v ↔ DateKept v := by
  have hparse (g : Garbage) (k : ℕ) (m : Message) : Header.date.parse { R with garbage := g } (Header.date.line v k) m =
      (dateOf g (behind v k)).map (setReceivedDate m) := by
    rw [← parseDate_line]
    rfl
  rw [sameState_iff (fun g k => dateOf g (behind v k)) (set_injective Message.receivedDate orElse_none) hparse]
  refine dates_iff (fun _ => hshort) ?_
  rintro rfl -
  decide

lemma findCString_colon {aName : Bytes} (h : 58 ∉ aName) (aValue : Bytes) :
    findCString [58] (aName ++ 58 :: aValue) = some (aName, aValue) := by
  induction aName with
  | nil => rfl
  | cons c aName ih =>
    rw [List.mem_cons, not_or] at h
    have hfirst : ¬List.isPrefixOf [58] (c :: (aName ++ 58 :: aValue)) = true := by
      intro hprefix
      exact h.1 (List.cons_prefix_cons.mp (List.isPrefixOf_iff_prefix.mp hprefix)).1
    rw [List.cons_append, findCString, if_neg hfirst, ih h.2]
    rfl

/-- The value of a header that is not known. -/
def unknownOf (v : Bytes) (k : ℕ) : Option Str := if List.replicate k 32 ++ v = [] then none else asciiText (behind v k)

lemma parseUnknownHeader_line (aName : UnknownName) (k : ℕ) (m : Message) :
    parseUnknownHeader ((Header.unknown aName).line v k) m = some (addHeader m (asciiText aName.bytes) (unknownOf v k)) := by
  have hdrop : (List.replicate k 32 ++ v).drop 1 = behind v k := by
    cases k with
    | zero => exact List.drop_one
    | succ k => rfl
  rw [parseUnknownHeader, Header.line, Header.name, findCString_colon aName.colon]
  dsimp only
  rw [hdrop, unknownOf]
  by_cases hnil : List.replicate k 32 ++ v = []
  · rw [if_neg (by rw [hnil]; exact Nat.lt_irrefl 0), if_pos hnil]
    cases asciiText aName.bytes <;> rfl
  · rw [if_pos (List.length_pos_of_ne_nil hnil), if_neg hnil]

lemma unknown_iff : (∀ k, ∃ a, some (unknownOf v 0) = some a ∧ some (unknownOf v k) = some a) ↔ HasHigh v.tail := by
  constructor
  · intro h
    obtain ⟨a, hzero, hone⟩ := h 1
    have heq : unknownOf v 0 = unknownOf v 1 := Option.some.inj (hzero.trans hone.symm)
    rcases v with _ | ⟨c, t⟩
    · cases heq
    change asciiText t = asciiText (c :: t) at heq
    cases htail : asciiText t with
    | none => exact asciiText_none.mp htail
    | some w =>
      have hlength := congrArg List.length (asciiText_some htail (heq.symm.trans htail))
      exact absurd hlength.symm (Nat.succ_ne_self _)
  · rintro ⟨d, hd, hhigh⟩
    have hnone (k : ℕ) : unknownOf v k = none := by
      rw [unknownOf]
      split_ifs
      · rfl
      · refine asciiText_none.mpr ⟨d, ?_, hhigh⟩
        cases k with
        | zero => exact hd
        | succ k => exact List.mem_append_right _ (List.mem_of_mem_tail hd)
    exact fun k => ⟨none, congrArg some (hnone 0), congrArg some (hnone k)⟩

lemma unknown_same (aName : UnknownName) : SameState R (.unknown aName) v ↔ asciiText aName.bytes = none ∨ HasHigh v.tail := by
  cases hname : asciiText aName.bytes with
  | none =>
    refine iff_of_true (fun k m g g' _ => ⟨m, ?_, ?_⟩) (.inl rfl)
    · rw [parseHeader_line, Header.parse, parseUnknownHeader_line, hname]
      rfl
    · rw [parseHeader_line, Header.parse, parseUnknownHeader_line, hname]
      rfl
  | some w =>
    have hparse (g : Garbage) (k : ℕ) (m : Message) : (Header.unknown aName).parse { R with garbage := g }
        ((Header.unknown aName).line v k) m = (some (unknownOf v k)).map (addHeader m (some w)) := by
      rw [Header.parse, parseUnknownHeader_line, hname]
      rfl
    have hfield : ∀ o, (addHeader {} (some w) o).headers w = o := by
      rintro (_ | value)
      · rfl
      · exact Function.update_self _ _ _
    rw [sameState_plain (fun m => addHeader m (some w)) (fun k => some (unknownOf v k)) (fun h => by cases h)
      (fun h => by cases h) (set_injective (fun m => m.headers w) hfield) hparse, or_iff_right (fun h => by cases h)]
    exact unknown_iff

end Headers

/-- When spaces behind the colon make no difference, for each header. -/
def Insensitive (R : Reader) (v : Bytes) : Header → Prop
  | .destination _ => ∃ l, readAddresses R v.tail = some l ∧ readAddresses R v = some l
  | .replyTo => ∃ l, readAddresses R v.tail = some l ∧ readAddresses R v = some l
  | .date => DateKept v
  | .theFrom => AddressKept R v
  | .resentFrom => AddressKept R v
  | .inReplyTo => HasHigh (firstReply v) ∧ (v.tail ≠ [] → HasHigh (firstReply v.tail))
  | .messageID => NotText v
  | .mimeVersion => NotText v
  | .organization => ∃ w, decoded R (dataByTrimmingWhiteSpaces v) = some (some w) ∧ (v.length = 1 → w = [])
  | .references => False
  | .status => NotText v ∧ SameFlags v
  | .xStatus => NotText v ∧ SameFlags v
  | .subject => 2 ≤ v.length ∧ decoded R (dataByTrimmingWhiteSpaces v) ≠ none
  | .unknown aName => asciiText aName.bytes = none ∨ HasHigh v.tail

/-- Latin 1 everywhere. -/
def latinReader : Reader where
  F := latin
  isWhite c := c = 32 || 9 ≤ c && c ≤ 13
  defaultCharset := none
  garbage := zeros

lemma latinReader_spaced : Spaced latinReader where
  white := by decide
  nothing := rfl
  space b := by
    have hliteral (b : Bytes) : literal latinReader.F latinReader.defaultCharset b = asciiUnits b := ite_self _
    rw [hliteral, hliteral]
    rfl

end Xperimentum.Pantomime.MessageState
