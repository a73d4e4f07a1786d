import Mathlib.Tactic
import Xperimentum.Lib.BigEndian

/-! The records of `CWLocalCacheManager` and `CWIMAPCacheManager`: `writeRecord:` behind the end of the file, and
`readMessagesInRange:`. A field that reaches over the end of the bytes read for its record makes reading `none`. -/

namespace Xperimentum.Pantomime.CacheRecords

open Xperimentum.Lib.BigEndian

inductive CacheType
  | mbox | maildir | imap
  deriving DecidableEq

structure CacheRecord where
  date : UInt32
  flags : UInt32
  position : ℤ := 0
  size : UInt32
  imapUid : UInt32 := 0
  filename : List UInt8 := []
  from_ : List UInt8
  inReplyTo : List UInt8
  messageId : List UInt8
  references : List UInt8
  subject : List UInt8
  to_ : List UInt8
  cc : List UInt8

/-- The header strings in the order of the file. -/
def CacheRecord.headers (r : CacheRecord) : List (List UInt8) :=
  [r.from_, r.inReplyTo, r.messageId, r.references, r.subject, r.to_, r.cc]

/-- Version, count, modification date or `UIDVALIDITY`, and for mbox the size of the file. -/
structure CacheHeader where
  version : ℕ
  count : ℕ
  stamp : ℕ
  size : ℕ

def CacheHeader.encoded (kind : CacheType) (h : CacheHeader) : List UInt8 :=
  bytes 2 h.version ++ bytes 4 h.count ++ bytes 4 h.stamp ++
    if kind = .mbox then bytes 4 h.size else []

def headerLength (kind : CacheType) : ℕ := if kind = .mbox then 14 else 10

def recordLength (kind : CacheType) (r : CacheRecord) : ℕ :=
  (r.headers.map fun f => f.length + 2).sum + match kind with
    | .mbox | .imap => 20
    | .maildir => r.filename.length + 2 + 16

/-- What is written behind the length of the record. -/
def recordBytes (kind : CacheType) (r : CacheRecord) : List UInt8 :=
  bytes 4 r.flags.toNat ++ bytes 4 r.date.toNat ++ (match kind with
    | .mbox => bytes 4 (r.position % 2 ^ 32).toNat
    | .maildir => counted r.filename
    | .imap => bytes 4 r.imapUid.toNat) ++ bytes 4 r.size.toNat ++ r.headers.flatMap counted

def writeRecord (kind : CacheType) (r : CacheRecord) : List UInt8 :=
  bytes 4 (recordLength kind r) ++ recordBytes kind r

def cacheFile (kind : CacheType) (h : CacheHeader) (rs : List CacheRecord) : List UInt8 :=
  h.encoded kind ++ rs.flatMap (writeRecord kind)

/-- The `cache_record` that a message is made of, its number and what `setMailFilename:` gave it. -/
structure CachedMessage where
  number : ℕ
  flags : UInt32
  date : UInt32
  position : ℤ
  size : UInt32
  imapUid : UInt32
  mailFilename : Option (List UInt8)
  headers : List (List UInt8)

def word (m : List UInt8) (i : ℕ) : Option UInt32 :=
  if i + 4 ≤ m.length then some (UInt32.ofNat (value ((m.drop i).take 4))) else none

/-- The calls of `read_data_memory`; `tot` is a number of `width` bits. -/
def readHeaders (width : ℕ) (m : List UInt8) : ℕ → ℕ → Option (List (List UInt8))
  | 0, _ => some []
  | k + 1, tot => do
    let f ← countedAt m tot
    let fs ← readHeaders width m k ((tot + f.length + 2) % 2 ^ width)
    pure (f :: fs)

/-- `-[CWPart filename]` of the message just made: no header of the cache sets that parameter. -/
def partFilename : Option (List UInt8) := none

def readRecord (kind : CacheType) (m : List UInt8) (number : ℕ) : Option CachedMessage :=
  match kind with
  | .mbox => do
    let flags ← word m 0
    let date ← word m 4
    let position ← word m 8
    let size ← word m 12
    let headers ← readHeaders 16 m 7 16
    pure ⟨number, flags, date, position.toNat, size, 0, none, headers⟩
  | .maildir => do
    let flags ← word m 0
    let date ← word m 4
    let filename ← countedAt m 8
    let tot := (8 + filename.length + 2) % 2 ^ 16
    let size ← word m tot
    let headers ← readHeaders 16 m 7 ((tot + 4) % 2 ^ 16)
    pure ⟨number, flags, date, 0, size, 0, if partFilename.isSome then some filename else none, headers⟩
  | .imap => do
    let flags ← word m 0
    let date ← word m 4
    let uid ← word m 8
    let size ← word m 12
    let headers ← readHeaders 32 m 7 16
    pure ⟨number, flags, date, 0, size, uid, none, headers⟩

/-- The loop over `i`, with the number of rounds left, on the rest of the file. -/
def readMessages (kind : CacheType) : ℕ → ℕ → List UInt8 → Option (List CachedMessage)
  | 0, _, _ => some []
  | n + 1, i, file =>
    if file = [] then some []
    else do
      let length ← word file 0
      let left := (length - 4).toNat
      let message ← readRecord kind ((file.drop 4).take left) (i + 1)
      let messages ← readMessages kind n (i + 1) ((file.drop 4).drop left)
      pure (message :: messages)

def readMessagesInRange (kind : CacheType) (file : List UInt8) (count location length : ℕ) :
    Option (List CachedMessage) :=
  let stop := if location + length ≤ count then location + length else count
  readMessages kind (stop - location) location (file.drop (headerLength kind))

/-- The message has every field of the record that a cache of this type holds. -/
structure Restores (kind : CacheType) (r : CacheRecord) (message : CachedMessage) : Prop where
  flags : message.flags = r.flags
  date : message.date = r.date
  size : message.size = r.size
  headers : message.headers = r.headers
  position : kind = .mbox → message.position = r.position
  filename : kind = .maildir → message.mailFilename = some r.filename
  imapUid : kind = .imap → message.imapUid = r.imapUid

/-- Reading a range of the cache gives the records of the range. -/
def ReadsBack (kind : CacheType) (h : CacheHeader) (rs : List CacheRecord) (location length : ℕ) : Prop :=
  ∃ messages, readMessagesInRange kind (cacheFile kind h rs) rs.length location length = some messages ∧
    List.Forall₂ (Restores kind) ((rs.drop location).take length) messages

/-- The header strings with the offsets at which they stand in a record, from `start` on. -/
def places : ℕ → List (List UInt8) → List (ℕ × List UInt8)
  | _, [] => []
  | start, f :: fs => (start, f) :: places (start + f.length + 2) fs

/-- A record that is written and read without loss: its counts fit in two bytes and its position in four, and a
header string that stands behind the first 65536 bytes of an mbox record stands there once more, a multiple of
65536 bytes before. -/
structure Readable (kind : CacheType) (r : CacheRecord) : Prop where
  fits : ∀ f ∈ r.headers, f.length < 65536
  position : kind = .mbox → 0 ≤ r.position ∧ r.position < 2 ^ 32
  again : kind = .mbox → ∀ place ∈ places 16 r.headers, 65536 ≤ place.1 →
    counted place.2 <+: (recordBytes kind r).drop (place.1 % 65536)

/-- Two records are the same in the fields that a cache of this type holds. -/
structure Agrees (kind : CacheType) (r s : CacheRecord) : Prop where
  flags : r.flags = s.flags
  date : r.date = s.date
  size : r.size = s.size
  headers : r.headers = s.headers
  position : kind = .mbox → r.position = s.position
  imapUid : kind = .imap → r.imapUid = s.imapUid

/-- Reading starts with the first record whatever the range, and restores no file name of a maildir. -/
def Kept (kind : CacheType) (rs : List CacheRecord) (location length : ℕ) : Prop :=
  length = 0 ∨ kind ≠ .maildir ∧ List.Forall₂ (fun r s => Readable kind r ∧ Agrees kind r s) (rs.take length)
    ((rs.drop location).take length)

section Headers

variable {m pre post : List UInt8} {fs : List (List UInt8)} {width start : ℕ}

lemma readHeaders_iff (width : ℕ) (m : List UInt8) (start : ℕ) (fs : List (List UInt8)) :
    readHeaders width m fs.length (start % 2 ^ width) = some fs ↔
      ∀ place ∈ places start fs, countedAt m (place.1 % 2 ^ width) = some place.2 := by
  induction fs generalizing start with
  | nil => simp [readHeaders, places]
  | cons f fs ih =>
    have hnext : (start % 2 ^ width + f.length + 2) % 2 ^ width = (start + f.length + 2) % 2 ^ width := by
      rw [add_assoc, add_assoc, Nat.mod_add_mod]
    simp only [List.length_cons, readHeaders, places, List.mem_cons, forall_eq_or_imp]
    refine ⟨fun h => ?_, fun ⟨hf, hfs⟩ => ?_⟩
    · obtain ⟨g, hg, h⟩ := Option.bind_eq_some_iff.mp h
      obtain ⟨gs, hgs, h⟩ := Option.bind_eq_some_iff.mp h
      obtain ⟨rfl, rfl⟩ := List.cons.inj (Option.some.inj h)
      rw [hnext] at hgs
      exact ⟨hg, (ih _).mp hgs⟩
    · simp only [hf, Option.bind_eq_bind, Option.bind_some, hnext, (ih _).mpr hfs]
      rfl

lemma counted_place (hfits : ∀ f ∈ fs, f.length < 65536) (hpre : pre.length = start) :
    ∀ place ∈ places start fs, counted place.2 <+: (pre ++ fs.flatMap counted).drop place.1 := by
  induction fs generalizing pre start with
  | nil => exact fun place hp => (List.not_mem_nil hp).elim
  | cons f fs ih =>
    obtain ⟨hf, hfs⟩ := List.forall_mem_cons.mp hfits
    simp only [places, List.flatMap_cons, ← List.append_assoc, List.mem_cons, forall_eq_or_imp]
    refine ⟨⟨fs.flatMap counted, ?_⟩, ih hfs ?_⟩
    · rw [List.append_assoc pre, List.drop_left' hpre]
    · rw [List.length_append, length_counted, Nat.mod_eq_of_lt hf, hpre, add_assoc]

end Headers

section Records

variable {kind : CacheType} {r s : CacheRecord} {message : CachedMessage}

lemma word_append {pre post : List UInt8} {i n : ℕ} (hi : pre.length = i) (hn : n < 2 ^ 32) :
    word (pre ++ (bytes 4 n ++ post)) i = some (UInt32.ofNat n) := by
  have hmod : n % 256 ^ 4 = n := Nat.mod_eq_of_lt (by omega)
  rw [word, if_pos (by simp only [List.length_append, length_bytes]; omega), List.drop_left' hi,
    List.take_left' (length_bytes 4 _), value_bytes, hmod]

/-- The part of a record in front of its header strings. -/
def recordFront (kind : CacheType) (r : CacheRecord) : List UInt8 :=
  bytes 4 r.flags.toNat ++ (bytes 4 r.date.toNat ++ (bytes 4 (match kind with
    | .mbox | .maildir => (r.position % 2 ^ 32).toNat
    | .imap => r.imapUid.toNat) ++ bytes 4 r.size.toNat))

lemma recordBytes_eq (hk : kind ≠ .maildir) (r : CacheRecord) :
    recordBytes kind r = recordFront kind r ++ r.headers.flatMap counted := by
  cases kind with
  | mbox => simp only [recordBytes, recordFront, List.append_assoc]
  | maildir => exact absurd rfl hk
  | imap => simp only [recordBytes, recordFront, List.append_assoc]

lemma length_recordFront (kind : CacheType) (r : CacheRecord) : (recordFront kind r).length = 16 := by
  simp [recordFront]

lemma readRecord_eq (hk : kind ≠ .maildir) (r : CacheRecord) (rest : List UInt8) (number : ℕ) :
    readRecord kind (recordFront kind r ++ rest) number =
      (readHeaders (if kind = .mbox then 16 else 32) (recordFront kind r ++ rest) 7 16).map fun headers =>
        ⟨number, r.flags, r.date, if kind = .mbox then r.position % 2 ^ 32 else 0, r.size,
          if kind = .mbox then 0 else r.imapUid, none, headers⟩ := by
  have hflags : ∀ post, word (bytes 4 r.flags.toNat ++ post) 0 = some r.flags := fun post => by
    have h : word ([] ++ (bytes 4 r.flags.toNat ++ post)) 0 = some (UInt32.ofNat r.flags.toNat) :=
      word_append rfl r.flags.toNat_lt
    rwa [UInt32.ofNat_toNat] at h
  have hdate : ∀ post, word (bytes 4 r.flags.toNat ++ (bytes 4 r.date.toNat ++ post)) 4 = some r.date := fun post => by
    rw [word_append (length_bytes 4 _) r.date.toNat_lt, UInt32.ofNat_toNat]
  have hthird : ∀ (n : ℕ) post, n < 2 ^ 32 →
      word (bytes 4 r.flags.toNat ++ (bytes 4 r.date.toNat ++ (bytes 4 n ++ post))) 8 = some (UInt32.ofNat n) := by
    intro n post hn
    rw [← List.append_assoc, word_append (by simp) hn]
  have hsize : ∀ (n : ℕ) post, word (bytes 4 r.flags.toNat ++ (bytes 4 r.date.toNat ++ (bytes 4 n ++
      (bytes 4 r.size.toNat ++ post)))) 12 = some r.size := by
    intro n post
    rw [← List.append_assoc, ← List.append_assoc, word_append (by simp) r.size.toNat_lt, UInt32.ofNat_toNat]
  cases kind with
  | maildir => exact absurd rfl hk
  | mbox =>
    have hpos : (r.position % 2 ^ 32).toNat < 2 ^ 32 := by omega
    simp only [readRecord, recordFront, List.append_assoc, hflags, hdate, hthird _ _ hpos, hsize, Option.bind_eq_bind,
      Option.bind_some, if_true, UInt32.toNat_ofNat', Nat.mod_eq_of_lt hpos]
    rw [Option.map_eq_bind, Int.toNat_of_nonneg (by omega)]
    rfl
  | imap =>
    simp only [readRecord, recordFront, List.append_assoc, hflags, hdate, hthird _ _ r.imapUid.toNat_lt, hsize,
      Option.bind_eq_bind, Option.bind_some, UInt32.ofNat_toNat]
    rw [Option.map_eq_bind]
    rfl

lemma headers_of_readRecord {m : List UInt8} {number : ℕ} (h : readRecord kind m number = some message) :
    ∃ width start, readHeaders width m 7 start = some message.headers := by
  cases kind with
  | mbox | imap =>
    obtain ⟨_, -, h⟩ := Option.bind_eq_some_iff.mp h
    obtain ⟨_, -, h⟩ := Option.bind_eq_some_iff.mp h
    obtain ⟨_, -, h⟩ := Option.bind_eq_some_iff.mp h
    obtain ⟨_, -, h⟩ := Option.bind_eq_some_iff.mp h
    obtain ⟨headers, hh, h⟩ := Option.bind_eq_some_iff.mp h
    rw [← Option.some.inj h]
    exact ⟨_, _, hh⟩
  | maildir =>
    obtain ⟨_, -, h⟩ := Option.bind_eq_some_iff.mp h
    obtain ⟨_, -, h⟩ := Option.bind_eq_some_iff.mp h
    obtain ⟨_, -, h⟩ := Option.bind_eq_some_iff.mp h
    obtain ⟨_, -, h⟩ := Option.bind_eq_some_iff.mp h
    obtain ⟨headers, hh, h⟩ := Option.bind_eq_some_iff.mp h
    rw [← Option.some.inj h]
    exact ⟨_, _, hh⟩

lemma readHeaders_fits {width start k : ℕ} {m : List UInt8} {fs : List (List UInt8)}
    (h : readHeaders width m k start = some fs) : ∀ f ∈ fs, f.length < 65536 := by
  induction k generalizing start fs with
  | zero =>
    rw [← Option.some.inj h]
    exact fun f hf => (List.not_mem_nil hf).elim
  | succ k ih =>
    obtain ⟨g, hg, h⟩ := Option.bind_eq_some_iff.mp h
    obtain ⟨gs, hgs, h⟩ := Option.bind_eq_some_iff.mp h
    rw [← Option.some.inj h]
    exact List.forall_mem_cons.mpr ⟨(countedAt_iff.mp hg).1, ih hgs⟩

lemma place_le {fs : List (List UInt8)} {start : ℕ} :
    ∀ place ∈ places start fs, place.1 ≤ start + (fs.map fun f => f.length + 2).sum := by
  induction fs generalizing start with
  | nil => exact fun place hp => (List.not_mem_nil hp).elim
  | cons f fs ih =>
    simp only [places, List.map_cons, List.sum_cons, List.mem_cons, forall_eq_or_imp]
    refine ⟨Nat.le_add_right _ _, fun place hp => (ih place hp).trans ?_⟩
    omega

lemma mem_of_place {fs : List (List UInt8)} {start : ℕ} : ∀ place ∈ places start fs, place.2 ∈ fs := by
  induction fs generalizing start with
  | nil => exact fun place hp => (List.not_mem_nil hp).elim
  | cons f fs ih =>
    simp only [places, List.mem_cons, forall_eq_or_imp]
    exact ⟨.inl trivial, fun place hp => .inr (ih place hp)⟩

lemma sum_lt (hfits : ∀ f ∈ r.headers, f.length < 65536) : (r.headers.map fun f => f.length + 2).sum < 7 * 65538 := by
  simp only [CacheRecord.headers, List.mem_cons, List.not_mem_nil, or_false, forall_eq_or_imp, forall_eq] at hfits
  simp only [CacheRecord.headers, List.map_cons, List.map_nil, List.sum_cons, List.sum_nil]
  omega

lemma readHeaders_recordBytes (hk : kind ≠ .maildir) (hfits : ∀ f ∈ r.headers, f.length < 65536) :
    readHeaders (if kind = .mbox then 16 else 32) (recordBytes kind r) 7 16 = some r.headers ↔
      (kind = .mbox → ∀ place ∈ places 16 r.headers, 65536 ≤ place.1 →
        counted place.2 <+: (recordBytes kind r).drop (place.1 % 65536)) := by
  have hstart : 16 % 2 ^ (if kind = .mbox then 16 else 32) = 16 := by split_ifs <;> rfl
  have hiff := readHeaders_iff (if kind = .mbox then 16 else 32) (recordBytes kind r) 16 r.headers
  rw [hstart] at hiff
  refine hiff.trans ?_
  have hplace := counted_place hfits (length_recordFront kind r)
  rw [← recordBytes_eq hk] at hplace
  refine ⟨fun h hm place hp _ => ?_, fun h place hp => countedAt_iff.mpr ⟨hfits _ (mem_of_place place hp), ?_⟩⟩
  · have hc := h place hp
    rw [if_pos hm] at hc
    exact (countedAt_iff.mp hc).2
  · have hle := place_le place hp
    have hsum := sum_lt hfits
    by_cases hm : kind = .mbox
    · rw [if_pos hm]
      by_cases ho : place.1 < 65536
      · rw [Nat.mod_eq_of_lt (by omega)]
        exact hplace place hp
      · exact h hm place hp (by omega)
    · rw [if_neg hm, Nat.mod_eq_of_lt (by omega)]
      exact hplace place hp

lemma length_headers (hfits : ∀ f ∈ r.headers, f.length < 65536) :
    (r.headers.flatMap counted).length = (r.headers.map fun f => f.length + 2).sum := by
  rw [List.length_flatMap]
  congr 1
  refine List.map_congr_left fun f hf => ?_
  rw [length_counted, Nat.mod_eq_of_lt (hfits f hf)]

lemma length_recordBytes (hk : kind ≠ .maildir) (hfits : ∀ f ∈ r.headers, f.length < 65536) :
    (recordBytes kind r).length + 4 = recordLength kind r ∧ recordLength kind r < 2 ^ 32 := by
  have hsum := sum_lt hfits
  have hflat := length_headers hfits
  have hlen : recordLength kind r = (r.headers.map fun f => f.length + 2).sum + 20 := by
    cases kind with
    | mbox | imap => rfl
    | maildir => exact absurd rfl hk
  rw [recordBytes_eq hk, List.length_append, length_recordFront, hflat, hlen]
  omega

lemma left_eq (hk : kind ≠ .maildir) (hfits : ∀ f ∈ r.headers, f.length < 65536) (rest : List UInt8) :
    ∃ length, word (writeRecord kind r ++ rest) 0 = some length ∧ (length - 4).toNat = (recordBytes kind r).length ∧
      (writeRecord kind r ++ rest).drop 4 = recordBytes kind r ++ rest := by
  obtain ⟨hlen, hlt⟩ := length_recordBytes hk hfits
  have hword : word ([] ++ (bytes 4 (recordLength kind r) ++ (recordBytes kind r ++ rest))) 0 =
      some (UInt32.ofNat (recordLength kind r)) := word_append rfl hlt
  rw [List.nil_append, ← List.append_assoc, ← writeRecord] at hword
  refine ⟨_, hword, ?_, ?_⟩
  · rw [UInt32.toNat_sub_of_le, UInt32.toNat_ofNat', Nat.mod_eq_of_lt hlt]
    · exact Nat.sub_eq_of_eq_add hlen.symm
    · rw [UInt32.le_iff_toNat_le, UInt32.toNat_ofNat', Nat.mod_eq_of_lt hlt]
      exact hlen ▸ Nat.le_add_left _ _
  · rw [writeRecord, List.append_assoc, List.drop_left' (length_bytes 4 _)]

lemma readRecord_restores (hk : kind ≠ .maildir) (hfits : ∀ f ∈ r.headers, f.length < 65536) (number : ℕ) :
    (∃ message, readRecord kind (recordBytes kind r) number = some message ∧ Restores kind r message) ↔ Readable kind r := by
  have heq := readRecord_eq hk r (r.headers.flatMap counted) number
  rw [← recordBytes_eq hk] at heq
  have hheaders := readHeaders_recordBytes hk hfits
  rw [heq]
  refine ⟨fun ⟨message, hm, hr⟩ => ?_, fun h => ?_⟩
  · obtain ⟨headers, hh, rfl⟩ := Option.map_eq_some_iff.mp hm
    have hsame : headers = r.headers := hr.headers
    rw [hsame] at hh
    refine ⟨hfits, fun hb => ?_, hheaders.mp hh⟩
    have hpos : (if kind = .mbox then r.position % 2 ^ 32 else 0) = r.position := hr.position hb
    rw [if_pos hb] at hpos
    omega
  · refine ⟨_, Option.map_eq_some_iff.mpr ⟨_, hheaders.mpr h.again, rfl⟩, rfl, rfl, rfl, rfl, fun hb => ?_,
      fun hb => absurd hb hk, fun hb => ?_⟩
    · obtain ⟨h0, hlt⟩ := h.position hb
      exact (if_pos hb).trans (Int.emod_eq_of_lt h0 hlt)
    · have hm : kind ≠ .mbox := by
        rw [hb]
        decide
      exact if_neg hm

end Records

section Files

variable {kind : CacheType} {rs ss : List CacheRecord} {i : ℕ}

lemma readMessages_cons (hk : kind ≠ .maildir) {r : CacheRecord} (hfits : ∀ f ∈ r.headers, f.length < 65536) (n i : ℕ)
    (rest : List UInt8) : readMessages kind (n + 1) i (writeRecord kind r ++ rest) =
      (readRecord kind (recordBytes kind r) (i + 1)).bind fun message =>
        (readMessages kind n (i + 1) rest).bind fun messages => some (message :: messages) := by
  obtain ⟨length, hword, hleft, hdrop⟩ := left_eq hk hfits rest
  have hne : writeRecord kind r ++ rest ≠ [] := by
    simp [writeRecord, bytes]
  rw [readMessages, if_neg hne]
  simp only [hword, Option.bind_eq_bind, Option.bind_some, hleft, hdrop, List.take_left, List.drop_left]
  rfl

lemma readMessages_readable (hk : kind ≠ .maildir) (n i : ℕ) (hn : n ≤ rs.length)
    (h : ∀ r ∈ rs.take n, Readable kind r) :
    ∃ messages, readMessages kind n i (rs.flatMap (writeRecord kind)) = some messages ∧
      List.Forall₂ (Restores kind) (rs.take n) messages := by
  induction n generalizing rs i with
  | zero => exact ⟨[], rfl, by simp⟩
  | succ n ih =>
    cases rs with
    | nil => exact absurd hn (Nat.not_succ_le_zero n)
    | cons r rs =>
      rw [List.take_succ_cons] at h ⊢
      obtain ⟨hr, hrs⟩ := List.forall_mem_cons.mp h
      obtain ⟨message, hm, hres⟩ := (readRecord_restores hk hr.fits (i + 1)).mpr hr
      obtain ⟨messages, hms, hall⟩ := ih (i + 1) (Nat.le_of_succ_le_succ hn) hrs
      rw [List.flatMap_cons, readMessages_cons hk hr.fits, hm, Option.bind_some, hms]
      exact ⟨_, rfl, .cons hres hall⟩

lemma readable_of_readMessages (hk : kind ≠ .maildir) (n i : ℕ) (hn : n ≤ rs.length) {messages : List CachedMessage}
    (hread : readMessages kind n i (rs.flatMap (writeRecord kind)) = some messages)
    (hall : List.Forall₂ (Restores kind) (rs.take n) messages) : ∀ r ∈ rs.take n, Readable kind r := by
  induction n generalizing rs i messages with
  | zero => simp
  | succ n ih =>
    cases rs with
    | nil => exact absurd hn (Nat.not_succ_le_zero n)
    | cons r rs =>
      rw [List.take_succ_cons] at hall ⊢
      rw [List.flatMap_cons] at hread
      cases hall with
      | @cons _ message _ messages hres hall =>
        have hfits : ∀ f ∈ r.headers, f.length < 65536 := by
          have hne : writeRecord kind r ++ rs.flatMap (writeRecord kind) ≠ [] := by
            simp [writeRecord, bytes]
          rw [readMessages, if_neg hne] at hread
          obtain ⟨_, -, hread⟩ := Option.bind_eq_some_iff.mp hread
          obtain ⟨m, hm, hread⟩ := Option.bind_eq_some_iff.mp hread
          obtain ⟨ms, -, hread⟩ := Option.bind_eq_some_iff.mp hread
          obtain ⟨rfl, -⟩ := List.cons.inj (Option.some.inj hread)
          obtain ⟨_, _, hh⟩ := headers_of_readRecord hm
          rw [hres.headers] at hh
          exact readHeaders_fits hh
        rw [readMessages_cons hk hfits] at hread
        obtain ⟨m, hm, hread⟩ := Option.bind_eq_some_iff.mp hread
        obtain ⟨ms, hms, hread⟩ := Option.bind_eq_some_iff.mp hread
        obtain ⟨rfl, rfl⟩ := List.cons.inj (Option.some.inj hread)
        refine List.forall_mem_cons.mpr ⟨(readRecord_restores hk hfits (i + 1)).mp ⟨m, hm, hres⟩, ?_⟩
        exact ih (i + 1) (Nat.le_of_succ_le_succ hn) hms hall

lemma readMessagesInRange_eq (kind : CacheType) (h : CacheHeader) {location length : ℕ}
    (hin : location + length ≤ rs.length) : readMessagesInRange kind (cacheFile kind h rs) rs.length location length =
      readMessages kind length location (rs.flatMap (writeRecord kind)) := by
  have hlen : (h.encoded kind).length = headerLength kind := by
    simp only [CacheHeader.encoded, headerLength, List.length_append, length_bytes]
    split_ifs <;> simp
  simp only [readMessagesInRange, if_pos hin, Nat.add_sub_cancel_left, cacheFile, List.drop_left' hlen]

lemma mailFilename_of_readRecord {m : List UInt8} {number : ℕ} {message : CachedMessage}
    (h : readRecord .maildir m number = some message) : message.mailFilename = none := by
  obtain ⟨_, -, h⟩ := Option.bind_eq_some_iff.mp h
  obtain ⟨_, -, h⟩ := Option.bind_eq_some_iff.mp h
  obtain ⟨_, -, h⟩ := Option.bind_eq_some_iff.mp h
  obtain ⟨_, -, h⟩ := Option.bind_eq_some_iff.mp h
  obtain ⟨_, -, h⟩ := Option.bind_eq_some_iff.mp h
  rw [← Option.some.inj h]
  rfl

lemma not_restores_maildir {n : ℕ} {file : List UInt8} {messages : List CachedMessage} {s : CacheRecord}
    (hread : readMessages .maildir (n + 1) i file = some messages) :
    ¬List.Forall₂ (Restores .maildir) (s :: ss) messages := by
  intro hall
  cases hall with
  | @cons _ message _ messages hres _ =>
    rw [readMessages] at hread
    split_ifs at hread
    · cases Option.some.inj hread
    · obtain ⟨_, -, hread⟩ := Option.bind_eq_some_iff.mp hread
      obtain ⟨m, hm, hread⟩ := Option.bind_eq_some_iff.mp hread
      obtain ⟨_, -, hread⟩ := Option.bind_eq_some_iff.mp hread
      obtain ⟨rfl, -⟩ := List.cons.inj (Option.some.inj hread)
      have hname := hres.filename rfl
      rw [mailFilename_of_readRecord hm] at hname
      cases hname

lemma Restores.agrees {r s : CacheRecord} {message : CachedMessage} (hr : Restores kind r message)
    (hs : Restores kind s message) : Agrees kind r s :=
  ⟨hr.flags.symm.trans hs.flags, hr.date.symm.trans hs.date, hr.size.symm.trans hs.size,
    hr.headers.symm.trans hs.headers, fun h => (hr.position h).symm.trans (hs.position h),
    fun h => (hr.imapUid h).symm.trans (hs.imapUid h)⟩

lemma Restores.of_agrees (hk : kind ≠ .maildir) {r s : CacheRecord} {message : CachedMessage}
    (hr : Restores kind r message) (h : Agrees kind r s) : Restores kind s message :=
  ⟨hr.flags.trans h.flags, hr.date.trans h.date, hr.size.trans h.size, hr.headers.trans h.headers,
    fun hm => (hr.position hm).trans (h.position hm), fun hm => absurd hm hk,
    fun hm => (hr.imapUid hm).trans (h.imapUid hm)⟩

lemma agrees_of_restores {messages : List CachedMessage} (hr : List.Forall₂ (Restores kind) rs messages)
    (hs : List.Forall₂ (Restores kind) ss messages) (h : ∀ r ∈ rs, Readable kind r) :
    List.Forall₂ (fun r s => Readable kind r ∧ Agrees kind r s) rs ss := by
  induction hr generalizing ss with
  | nil =>
    cases hs
    exact .nil
  | cons hr _ ih =>
    cases hs with
    | cons hs hss =>
      obtain ⟨hread, hrest⟩ := List.forall_mem_cons.mp h
      exact .cons ⟨hread, hr.agrees hs⟩ (ih hss hrest)

lemma restores_of_agrees (hk : kind ≠ .maildir) {messages : List CachedMessage}
    (hr : List.Forall₂ (Restores kind) rs messages)
    (h : List.Forall₂ (fun r s => Readable kind r ∧ Agrees kind r s) rs ss) :
    List.Forall₂ (Restores kind) ss messages := by
  induction hr generalizing ss with
  | nil =>
    cases h
    exact .nil
  | cons hr _ ih =>
    cases h with
    | cons hs hss => exact .cons (hr.of_agrees hk hs.2) (ih hss)

lemma readable_of_agrees (h : List.Forall₂ (fun r s => Readable kind r ∧ Agrees kind r s) rs ss) :
    ∀ r ∈ rs, Readable kind r := by
  induction h with
  | nil => exact fun r hr => (List.not_mem_nil hr).elim
  | cons hrs _ ih => exact List.forall_mem_cons.mpr ⟨hrs.1, ih⟩

end Files

/-- The second half leaves out one kind of range: one that does not begin with the first record, over a file
whose first records cannot all be read. -/
theorem readsBack_iff_kept (kind : CacheType) (h : CacheHeader) (rs : List CacheRecord) (location length : ℕ)
    (hin : location + length ≤ rs.length) :
    (Kept kind rs location length → ReadsBack kind h rs location length) ∧
      (location = 0 ∨ (∀ r ∈ rs.take length, Readable kind r) → ReadsBack kind h rs location length →
        Kept kind rs location length) := by
  have hn : length ≤ rs.length := (Nat.le_add_left _ _).trans hin
  simp only [ReadsBack, readMessagesInRange_eq kind h hin]
  refine ⟨fun hkept => ?_, fun hcase ⟨messages, hread, hall⟩ => ?_⟩
  · rcases hkept with rfl | ⟨hk, hagree⟩
    · exact ⟨[], rfl, by simp⟩
    · obtain ⟨messages, hread, hall⟩ := readMessages_readable hk length location hn (readable_of_agrees hagree)
      exact ⟨messages, hread, restores_of_agrees hk hall hagree⟩
  · rcases Nat.eq_zero_or_pos length with rfl | hpos
    · exact .inl rfl
    · have hk : kind ≠ .maildir := by
        rintro rfl
        obtain ⟨n, rfl⟩ := Nat.exists_eq_succ_of_ne_zero hpos.ne'
        cases hd : rs.drop location with
        | nil =>
          have hlen := congrArg List.length hd
          rw [List.length_drop, List.length_nil] at hlen
          omega
        | cons s ss =>
          rw [hd, List.take_succ_cons] at hall
          exact not_restores_maildir hread hall
      refine .inr ⟨hk, ?_⟩
      rcases hcase with rfl | hreadable
      · rw [List.drop_zero] at hall ⊢
        exact agrees_of_restores hall hall (readable_of_readMessages hk length 0 hn hread hall)
      · obtain ⟨ms, hms, hfirst⟩ := readMessages_readable hk length location hn hreadable
        obtain rfl := Option.some.inj (hms.symm.trans hread)
        exact agrees_of_restores hfirst hall hreadable

/-- The record of a message with nothing but a number and a subject. -/
def cached (uid : UInt32) (subject : List UInt8) : CacheRecord where
  date := 0
  flags := 1
  position := uid.toNat
  size := 10
  imapUid := uid
  from_ := []
  inReplyTo := []
  messageId := []
  references := []
  subject := subject
  to_ := []
  cc := []

theorem readsBack_iff_kept_mbox : ReadsBack .mbox ⟨2, 2, 7, 0⟩ [cached 1 [97], cached 2 [98]] 0 2 := by
  have hreadable : ∀ r ∈ [cached 1 [97], cached 2 [98]], Readable .mbox r := by
    simp only [List.mem_cons, List.not_mem_nil, or_false, forall_eq_or_imp, forall_eq]
    exact ⟨⟨by decide, by decide, by decide⟩, ⟨by decide, by decide, by decide⟩⟩
  refine (readsBack_iff_kept .mbox ⟨2, 2, 7, 0⟩ [cached 1 [97], cached 2 [98]] 0 2 (by decide)).1 (.inr ⟨by decide, ?_⟩)
  refine List.forall₂_same.mpr fun r hr => ⟨hreadable r hr, ?_⟩
  exact ⟨rfl, rfl, rfl, rfl, fun _ => rfl, fun _ => rfl⟩

/-- The range of the second message gives the first one again. -/
theorem second_message_not_readsBack : ¬ReadsBack .imap ⟨2, 2, 7, 0⟩ [cached 1 [97], cached 2 [98]] 1 1 := by
  rintro ⟨messages, hread, hall⟩
  have huid : (readMessagesInRange .imap (cacheFile .imap ⟨2, 2, 7, 0⟩ [cached 1 [97], cached 2 [98]]) 2 1 1).map
      (fun messages => messages.map CachedMessage.imapUid) = some [1] := by
    decide
  rw [List.length_cons, List.length_singleton] at hread
  rw [hread] at huid
  cases hall with
  | cons hres _ =>
    have hfirst := (List.cons.inj (Option.some.inj huid)).1
    rw [hres.imapUid rfl] at hfirst
    cases hfirst

end Xperimentum.Pantomime.CacheRecords
