import Xperimentum.Lib.BigEndian
import Xperimentum.Pantomime.Data

/-! `CWIMAPCacheManager`: the compaction of its file, and the flags that are written to the records. -/

namespace Xperimentum.Pantomime.IMAPCache

open Xperimentum.Lib.BigEndian

/-- The UIDs in `_table`, and the flags of the messages of the folder. -/
structure Manager where
  count : ℕ
  uidValidity : UInt32
  table : Finset UInt32
  allMessages : List UInt32

def version : ℕ := 1

def headerBytes (version count uidValidity : ℕ) : Bytes := bytes 2 version ++ (bytes 4 count ++ bytes 4 uidValidity)

section Source

/-- What has not been read of the file, what is in the buffer, and `total_length`. -/
structure Expunging where
  rest : Bytes
  buf : Bytes
  totalLength : ℕ

/-- There is no result where the buffer is too small or bytes are used that have not been read. -/
def expungeRecords (capacity : ℕ) (table : Finset UInt32) : ℕ → Expunging → Option Expunging
  | 0, s => some s
  | n + 1, s =>
    let v := s.rest.take 4
    if v = [] then expungeRecords capacity table n s
    else if v.length < 4 then none
    else
      let len := value v
      let rest := s.rest.drop 4
      if len ≤ 4 then expungeRecords capacity table n { s with rest := rest }
      else
        let buf := s.buf.take s.totalLength ++ (bytes 4 len ++ rest.take (len - 4))
        let uid := (buf.drop (s.totalLength + 12)).take 4
        if buf.length ≤ capacity ∧ uid.length = 4 then
          expungeRecords capacity table n ⟨rest.drop (len - 4), buf,
            if UInt32.ofNat (value uid) ∈ table then (s.totalLength + len) % 2 ^ 32 else s.totalLength⟩
        else none

/-- The file and `_count` afterwards; `total_length` and the size of the file are `unsigned`. -/
def expunge (m : Manager) (file : Bytes) : Option (Bytes × ℕ) :=
  (expungeRecords file.length m.table m.count ⟨file.drop 10, [], 0⟩).map fun s =>
    let count := m.allMessages.length
    let written := headerBytes version count m.uidValidity.toNat ++ s.buf.take s.totalLength
    ((written ++ file.drop written.length).take ((s.totalLength + 10) % 2 ^ 32), count)

/-- A write behind the end of the file leaves zeros in between. -/
def writeAt (file : Bytes) (offset : ℕ) (b : Bytes) : Bytes :=
  (file ++ List.replicate (offset - file.length) 0).take offset ++ (b ++ file.drop (offset + b.length))

/-- At the end of the file, the length is whatever is on the stack. -/
def synchronizeFlags (garbage : ℕ → UInt32) : ℕ → List UInt32 → ℕ → Bytes → Bytes
  | _, [], _, file => file
  | i, flags :: messages, offset, file =>
    let v := (file.drop offset).take 4
    let len := if v.length = 4 then value v else (garbage i).toNat
    let offset := offset + v.length
    let file := writeAt file offset (bytes 4 flags.toNat)
    synchronizeFlags garbage (i + 1) messages (offset + 4 + (len + (2 ^ 32 - 8)) % 2 ^ 32) file

def synchronize (garbage : ℕ → UInt32) (m : Manager) (file : Bytes) : Bytes × ℕ :=
  let count := m.allMessages.length
  let file := writeAt file 0 (headerBytes version count m.uidValidity.toNat)
  (synchronizeFlags garbage 0 m.allMessages 10 file, count)

end Source

section Files

/-- A record as `writeRecord:` writes it, whose length fits in its field. -/
structure Record where
  flags : UInt32
  date : UInt32
  uid : UInt32
  size : UInt32
  headers : Bytes
  fits : 20 + headers.length < 2 ^ 32

def Record.length (r : Record) : ℕ := 20 + r.headers.length

/-- A record behind its length. -/
def Record.body (r : Record) : Bytes :=
  bytes 4 r.flags.toNat ++ (bytes 4 r.date.toNat ++ (bytes 4 r.uid.toNat ++ (bytes 4 r.size.toNat ++ r.headers)))

def Record.encoded (r : Record) : Bytes := bytes 4 r.length ++ r.body

def encodedAll (rs : List Record) : Bytes := rs.flatMap Record.encoded

def cacheFile (version count uidValidity : ℕ) (rs : List Record) : Bytes :=
  headerBytes version count uidValidity ++ encodedAll rs

/-- The records whose UIDs are in the table. -/
def kept (table : Finset UInt32) (rs : List Record) : List Record := rs.filter fun r => r.uid ∈ table

/-- The records with the flags of the messages. -/
def setFlags : List UInt32 → List Record → List Record
  | flags :: messages, r :: rs => { r with flags := flags } :: setFlags messages rs
  | _, rs => rs

end Files

section Records

variable {r : Record} {rs : List Record} {table : Finset UInt32}

lemma length_body (r : Record) : r.body.length = r.length - 4 := by
  simp only [Record.body, Record.length, List.length_append, length_bytes]
  omega

lemma length_encoded (r : Record) : r.encoded.length = r.length := by
  rw [Record.encoded, List.length_append, length_bytes, length_body, Record.length]
  omega

lemma encodedAll_cons (r : Record) (rs : List Record) : encodedAll (r :: rs) = r.encoded ++ encodedAll rs :=
  List.flatMap_cons

lemma encodedAll_append (rs ss : List Record) : encodedAll (rs ++ ss) = encodedAll rs ++ encodedAll ss :=
  List.flatMap_append

lemma length_headerBytes (version count uidValidity : ℕ) : (headerBytes version count uidValidity).length = 10 := by
  simp only [headerBytes, List.length_append, length_bytes]

lemma value_length (r : Record) : value (bytes 4 r.length) = r.length := by
  rw [value_bytes]
  exact Nat.mod_eq_of_lt r.fits

lemma value_uid (r : Record) : UInt32.ofNat (value (bytes 4 r.uid.toNat)) = r.uid := by
  have hlt : r.uid.toNat % 256 ^ 4 = r.uid.toNat := Nat.mod_eq_of_lt r.uid.toNat_lt
  rw [value_bytes, hlt, UInt32.ofNat_toNat]

/-- Where the UID of a record is in the buffer. -/
lemma uid_at (r : Record) (front : Bytes) : ((front ++ r.encoded).drop (front.length + 12)).take 4 = bytes 4 r.uid.toNat := by
  have hsplit : front ++ r.encoded = (front ++ (bytes 4 r.length ++ (bytes 4 r.flags.toNat ++ bytes 4 r.date.toNat))) ++
      (bytes 4 r.uid.toNat ++ (bytes 4 r.size.toNat ++ r.headers)) := by
    simp only [Record.encoded, Record.body, List.append_assoc]
  rw [hsplit, List.drop_left' (by simp only [List.length_append, length_bytes]), List.take_left' (length_bytes 4 _)]

end Records

section Expunging

variable {capacity : ℕ} {table : Finset UInt32} {s : Expunging}

lemma expungeRecords_end (h : s.rest = []) (n : ℕ) : expungeRecords capacity table n s = some s := by
  induction n with
  | zero => rfl
  | succ n ih =>
    rw [expungeRecords, h, List.take_nil, if_pos rfl]
    exact ih

lemma expungeRecords_cons {r : Record} {rest : Bytes} (hrest : s.rest = r.encoded ++ rest)
    (htotal : s.totalLength ≤ s.buf.length) (hcapacity : s.totalLength + r.length ≤ capacity) (n : ℕ) :
    expungeRecords capacity table (n + 1) s = expungeRecords capacity table n ⟨rest, s.buf.take s.totalLength ++ r.encoded,
      if r.uid ∈ table then (s.totalLength + r.length) % 2 ^ 32 else s.totalLength⟩ := by
  have htake : s.rest.take 4 = bytes 4 r.length := by
    rw [hrest, Record.encoded, List.append_assoc, List.take_left' (length_bytes 4 _)]
  have hdrop : s.rest.drop 4 = r.body ++ rest := by
    rw [hrest, Record.encoded, List.append_assoc, List.drop_left' (length_bytes 4 _)]
  have hfront : (s.buf.take s.totalLength).length = s.totalLength := List.length_take_of_le htotal
  have huid := uid_at r (s.buf.take s.totalLength)
  rw [hfront] at huid
  have hfour : ¬r.length ≤ 4 := by
    rw [Record.length]
    omega
  have hfits : (s.buf.take s.totalLength ++ r.encoded).length ≤ capacity ∧ (bytes 4 r.uid.toNat).length = 4 := by
    rw [List.length_append, hfront, length_encoded]
    exact ⟨hcapacity, length_bytes 4 _⟩
  have hne : bytes 4 r.length ≠ [] := List.ne_nil_of_length_pos (by rw [length_bytes]; decide)
  rw [expungeRecords]
  simp only [htake, hdrop, value_length, if_neg hne, if_neg hfour, List.take_left' (length_body r),
    List.drop_left' (length_body r), length_bytes, lt_irrefl, if_false]
  rw [← Record.encoded, huid, if_pos hfits, value_uid]

/-- The records are compacted in the buffer, as long as their lengths can be counted. -/
lemma expungeRecords_eq (table : Finset UInt32) (n : ℕ) (rs : List Record) (hrest : s.rest = encodedAll rs) (htotal : s.totalLength ≤ s.buf.length)
    (hlt : s.totalLength < 2 ^ 32) (hcapacity : s.totalLength + (encodedAll rs).length ≤ capacity) :
    ∃ t, expungeRecords capacity table n s = some t ∧ t.totalLength ≤ t.buf.length ∧
      t.totalLength = (s.totalLength + (encodedAll (kept table (rs.take n))).length) % 2 ^ 32 ∧
      (s.totalLength + (encodedAll (kept table (rs.take n))).length < 2 ^ 32 →
        t.buf.take t.totalLength = s.buf.take s.totalLength ++ encodedAll (kept table (rs.take n))) := by
  induction n generalizing rs s with
  | zero =>
    refine ⟨s, rfl, htotal, (Nat.mod_eq_of_lt hlt).symm, fun _ => ?_⟩
    exact (List.append_nil _).symm
  | succ n ih =>
    cases rs with
    | nil =>
      refine ⟨s, expungeRecords_end hrest (n + 1), htotal, (Nat.mod_eq_of_lt hlt).symm, fun _ => ?_⟩
      exact (List.append_nil _).symm
    | cons r rs =>
      rw [encodedAll_cons] at hrest hcapacity
      rw [List.length_append, length_encoded] at hcapacity
      have hfront : (s.buf.take s.totalLength).length = s.totalLength := List.length_take_of_le htotal
      have hlength : (s.buf.take s.totalLength ++ r.encoded).length = s.totalLength + r.length := by
        rw [List.length_append, hfront, length_encoded]
      rw [expungeRecords_cons hrest htotal (by omega), List.take_succ_cons]
      by_cases hmem : r.uid ∈ table
      · have hkept : kept table (r :: rs.take n) = r :: kept table (rs.take n) :=
          List.filter_cons_of_pos (decide_eq_true hmem)
        have hmod : (s.totalLength + r.length) % 2 ^ 32 ≤ s.totalLength + r.length := Nat.mod_le _ _
        rw [if_pos hmem, hkept, encodedAll_cons, List.length_append, length_encoded]
        obtain ⟨t, ht, hbuf, hcount, htake⟩ := ih rs
          (s := ⟨encodedAll rs, s.buf.take s.totalLength ++ r.encoded, (s.totalLength + r.length) % 2 ^ 32⟩) rfl
          (by rw [hlength]; exact hmod) (Nat.mod_lt _ (by decide)) (by simp only; omega)
        refine ⟨t, ht, hbuf, ?_, fun hsmall => ?_⟩
        · rw [hcount]
          simp only
          omega
        · have hsame : (s.totalLength + r.length) % 2 ^ 32 = s.totalLength + r.length := Nat.mod_eq_of_lt (by omega)
          simp only [hsame] at htake
          rw [htake (by omega), ← hlength, List.take_length, List.append_assoc]
      · have hkept : kept table (r :: rs.take n) = kept table (rs.take n) :=
          List.filter_cons_of_neg (by rw [decide_eq_true_eq]; exact hmem)
        rw [if_neg hmem, hkept]
        obtain ⟨t, ht, hbuf, hcount, htake⟩ := ih rs
          (s := ⟨encodedAll rs, s.buf.take s.totalLength ++ r.encoded, s.totalLength⟩) rfl
          (by rw [hlength]; exact Nat.le_add_right _ _) hlt (by simp only; omega)
        refine ⟨t, ht, hbuf, hcount, fun hsmall => ?_⟩
        rw [htake hsmall, List.take_left' hfront]

end Expunging

section Compaction

variable {m : Manager} {rs : List Record}

lemma kept_split (table : Finset UInt32) (n : ℕ) (rs : List Record) :
    kept table rs = kept table (rs.take n) ++ kept table (rs.drop n) := by
  rw [kept, kept, kept, ← List.filter_append, List.take_append_drop]

lemma encodedAll_eq_nil {rs : List Record} (h : (encodedAll rs).length = 0) : rs = [] := by
  cases rs with
  | nil => rfl
  | cons r rs =>
    rw [encodedAll_cons, List.length_append, length_encoded, Record.length] at h
    omega

lemma length_cacheFile (version count uidValidity : ℕ) (rs : List Record) :
    (cacheFile version count uidValidity rs).length = 10 + (encodedAll rs).length := by
  rw [cacheFile, List.length_append, length_headerBytes]

/-- What the file and the folder have to be for the compaction: the records behind `_count` are not in the table, the
folder has as many messages as there are records left, and the size of the file fits in an `unsigned`. -/
structure Compactable (m : Manager) (rs : List Record) : Prop where
  counted : ∀ r ∈ rs.drop m.count, r.uid ∉ m.table
  messages : m.allMessages.length = (kept m.table rs).length
  fits : 10 + (encodedAll (kept m.table rs)).length < 2 ^ 32

lemma expunge_iff (m : Manager) (oldVersion count uidValidity : ℕ) (rs : List Record) :
    expunge m (cacheFile oldVersion count uidValidity rs) =
        some (cacheFile version (kept m.table rs).length m.uidValidity.toNat (kept m.table rs), (kept m.table rs).length) ↔
      Compactable m rs := by
  have hrest : (cacheFile oldVersion count uidValidity rs).drop 10 = encodedAll rs := List.drop_left' (length_headerBytes _ _ _)
  have hcapacity : 0 + (encodedAll rs).length ≤ (cacheFile oldVersion count uidValidity rs).length := by
    rw [length_cacheFile]
    omega
  obtain ⟨t, ht, hbuf, htotal, htake⟩ := expungeRecords_eq (s := ⟨encodedAll rs, [], 0⟩) m.table m.count rs
    rfl le_rfl (Nat.two_pow_pos 32) hcapacity
  simp only [Nat.zero_add, List.take_nil, List.nil_append] at htotal htake
  have hsplit := kept_split m.table m.count rs
  have hwritten : (headerBytes version m.allMessages.length m.uidValidity.toNat ++ t.buf.take t.totalLength).length =
      t.totalLength + 10 := by
    rw [List.length_append, length_headerBytes, List.length_take_of_le hbuf, Nat.add_comm]
  rw [expunge, hrest, ht, Option.map_some, Option.some_inj, Prod.mk.injEq]
  constructor
  · rintro ⟨hfile, hcount⟩
    have hlength := congrArg List.length hfile
    have hsum := congrArg (fun rs => (encodedAll rs).length) hsplit
    simp only [encodedAll_append, List.length_append] at hsum
    have hsize : (t.totalLength + 10) % 2 ^ 32 ≤ t.totalLength + 10 := Nat.mod_le _ _
    rw [List.length_take, List.length_append, hwritten, length_cacheFile] at hlength
    have hnone : (encodedAll (kept m.table (rs.drop m.count))).length = 0 := by omega
    refine ⟨fun r hr hmem => ?_, hcount, by omega⟩
    have hnil := encodedAll_eq_nil hnone
    have hkept : r ∈ kept m.table (rs.drop m.count) := List.mem_filter.mpr ⟨hr, decide_eq_true hmem⟩
    rw [hnil] at hkept
    exact List.not_mem_nil hkept
  · rintro ⟨hcounted, hmessages, hfits⟩
    have hnone : kept m.table (rs.drop m.count) = [] :=
      List.filter_eq_nil_iff.mpr fun r hr => by
        rw [decide_eq_true_eq]
        exact hcounted r hr
    rw [hnone, List.append_nil] at hsplit
    rw [← hsplit] at htotal htake
    have hsmall : (encodedAll (kept m.table rs)).length < 2 ^ 32 := by omega
    rw [Nat.mod_eq_of_lt hsmall] at htotal
    refine ⟨?_, hmessages⟩
    rw [Nat.mod_eq_of_lt (by omega), ← hwritten, List.take_left, htake hsmall, hmessages]
    rfl

end Compaction

section Synchronizing

variable {garbage : ℕ → UInt32}

lemma length_writeAt (file : Bytes) (offset : ℕ) (b : Bytes) :
    (writeAt file offset b).length = max file.length (offset + b.length) := by
  simp only [writeAt, List.length_append, List.length_take, List.length_replicate, List.length_drop]
  omega

/-- As many bytes are written as were there. -/
lemma writeAt_append {old b : Bytes} (h : old.length = b.length) (front rest : Bytes) :
    writeAt (front ++ (old ++ rest)) front.length b = front ++ (b ++ rest) := by
  have hpast : (front ++ (old ++ rest)).drop (front.length + b.length) = rest := by
    rw [← List.append_assoc, List.drop_left' (by rw [List.length_append, h])]
  rw [writeAt, List.append_assoc, List.take_left, hpast]

lemma synchronizeFlags_cons (i : ℕ) (flags : UInt32) (messages : List UInt32) (front : Bytes) (r : Record)
    (rest : Bytes) : synchronizeFlags garbage i (flags :: messages) front.length (front ++ (r.encoded ++ rest)) =
      synchronizeFlags garbage (i + 1) messages (front ++ Record.encoded { r with flags := flags }).length
        ((front ++ Record.encoded { r with flags := flags }) ++ rest) := by
  have hread : ((front ++ (r.encoded ++ rest)).drop front.length).take 4 = bytes 4 r.length := by
    rw [List.drop_left, Record.encoded, List.append_assoc, List.take_left' (length_bytes 4 _)]
  have hlength : (Record.encoded { r with flags := flags }).length = r.length := length_encoded _
  have hoffset : front.length + 4 + 4 + (r.length + (2 ^ 32 - 8)) % 2 ^ 32 = front.length + r.length := by
    have hfits := r.fits
    rw [Record.length]
    omega
  have hwrite : writeAt (front ++ (r.encoded ++ rest)) (front.length + 4) (bytes 4 flags.toNat) =
      (front ++ Record.encoded { r with flags := flags }) ++ rest := by
    have hsplit : front ++ (r.encoded ++ rest) = (front ++ bytes 4 r.length) ++ (bytes 4 r.flags.toNat ++
        (bytes 4 r.date.toNat ++ (bytes 4 r.uid.toNat ++ (bytes 4 r.size.toNat ++ (r.headers ++ rest))))) := by
      simp only [Record.encoded, Record.body, List.append_assoc]
    have hfront : front.length + 4 = (front ++ bytes 4 r.length).length := by
      rw [List.length_append, length_bytes]
    rw [hsplit, hfront, writeAt_append (by rw [length_bytes, length_bytes])]
    simp only [Record.encoded, Record.body, List.append_assoc]
    rfl
  rw [synchronizeFlags]
  simp only [hread, length_bytes, if_true, value_length, hwrite, hoffset]
  rw [List.length_append, hlength]

lemma synchronizeFlags_records (i : ℕ) {messages : List UInt32} {rs : List Record} (h : messages.length ≤ rs.length)
    (front : Bytes) : synchronizeFlags garbage i messages front.length (front ++ encodedAll rs) =
      front ++ encodedAll (setFlags messages rs) := by
  induction messages generalizing i rs front with
  | nil => cases rs <;> rfl
  | cons flags messages ih =>
    cases rs with
    | nil => exact absurd h (Nat.not_succ_le_zero _)
    | cons r rs =>
      rw [encodedAll_cons, synchronizeFlags_cons, ih (i + 1) (Nat.le_of_succ_le_succ h), setFlags, encodedAll_cons,
        List.append_assoc]

lemma synchronizeFlags_length (i : ℕ) (messages : List UInt32) (offset : ℕ) (file : Bytes) :
    file.length ≤ (synchronizeFlags garbage i messages offset file).length := by
  induction messages generalizing i offset file with
  | nil => exact le_rfl
  | cons flags messages ih =>
    refine le_trans ?_ (ih _ _ _)
    rw [length_writeAt]
    exact le_max_left _ _

/-- With more messages than records, flags are written behind the end of the file. -/
lemma synchronizeFlags_behind (garbage : ℕ → UInt32) (i : ℕ) {messages : List UInt32} {rs : List Record} (h : rs.length < messages.length)
    (front : Bytes) : (front ++ encodedAll rs).length <
      (synchronizeFlags garbage i messages front.length (front ++ encodedAll rs)).length := by
  induction messages generalizing i rs front with
  | nil => exact absurd h (Nat.not_lt_zero _)
  | cons flags messages ih =>
    cases rs with
    | nil =>
      have hread : ((front ++ encodedAll []).drop front.length).take 4 = [] := by
        rw [List.drop_left]
        rfl
      rw [synchronizeFlags]
      refine lt_of_lt_of_le ?_ (synchronizeFlags_length _ _ _ _)
      rw [length_writeAt, hread, length_bytes, List.length_nil]
      have hempty : (front ++ encodedAll []).length = front.length := congrArg List.length (List.append_nil front)
      omega
    | cons r rs =>
      have hnext := ih (i + 1) (Nat.lt_of_succ_lt_succ h) (front ++ Record.encoded { r with flags := flags })
      rw [encodedAll_cons, synchronizeFlags_cons]
      refine lt_of_eq_of_lt ?_ hnext
      have hlength : (Record.encoded { r with flags := flags }).length = r.encoded.length := by
        rw [length_encoded, length_encoded]
        rfl
      simp only [List.length_append, hlength]
      omega

lemma length_setFlags (messages : List UInt32) (rs : List Record) :
    (encodedAll (setFlags messages rs)).length = (encodedAll rs).length := by
  induction messages generalizing rs with
  | nil => cases rs <;> rfl
  | cons flags messages ih =>
    cases rs with
    | nil => rfl
    | cons r rs =>
      rw [setFlags, encodedAll_cons, encodedAll_cons, List.length_append, List.length_append, ih, length_encoded,
        length_encoded]
      rfl

lemma synchronize_iff (garbage : ℕ → UInt32) (m : Manager) (oldVersion count uidValidity : ℕ) (rs : List Record) :
    synchronize garbage m (cacheFile oldVersion count uidValidity rs) =
        (cacheFile version m.allMessages.length m.uidValidity.toNat (setFlags m.allMessages rs), m.allMessages.length) ↔
      m.allMessages.length ≤ rs.length := by
  have hheader : writeAt (cacheFile oldVersion count uidValidity rs) 0
      (headerBytes version m.allMessages.length m.uidValidity.toNat) =
      headerBytes version m.allMessages.length m.uidValidity.toNat ++ encodedAll rs :=
    writeAt_append ((length_headerBytes oldVersion count uidValidity).trans (length_headerBytes _ _ _).symm) []
      (encodedAll rs)
  have hten : (headerBytes version m.allMessages.length m.uidValidity.toNat).length = 10 := length_headerBytes _ _ _
  have hflags : synchronizeFlags garbage 0 m.allMessages 10
      (headerBytes version m.allMessages.length m.uidValidity.toNat ++ encodedAll rs) =
      synchronizeFlags garbage 0 m.allMessages (headerBytes version m.allMessages.length m.uidValidity.toNat).length
        (headerBytes version m.allMessages.length m.uidValidity.toNat ++ encodedAll rs) := by
    rw [hten]
  rw [synchronize, hheader, Prod.mk.injEq, and_iff_left rfl, hflags]
  constructor
  · intro h
    by_contra hlt
    have hbehind := synchronizeFlags_behind garbage 0 (not_le.mp hlt)
      (headerBytes version m.allMessages.length m.uidValidity.toNat)
    rw [h, length_cacheFile, length_setFlags, List.length_append, length_headerBytes] at hbehind
    exact lt_irrefl _ hbehind
  · exact fun h => synchronizeFlags_records 0 h _

end Synchronizing

/-- Compaction keeps the records in the table exactly if the file is compactable, and synchronizing changes the flags of
records only exactly if the folder has no more messages than the file has records. -/
theorem expunge_synchronize_iff (m : Manager) (garbage : ℕ → UInt32) (oldVersion count uidValidity : ℕ) (rs : List Record) :
    (expunge m (cacheFile oldVersion count uidValidity rs) =
        some (cacheFile version (kept m.table rs).length m.uidValidity.toNat (kept m.table rs), (kept m.table rs).length) ↔
      Compactable m rs) ∧
    (synchronize garbage m (cacheFile oldVersion count uidValidity rs) =
        (cacheFile version m.allMessages.length m.uidValidity.toNat (setFlags m.allMessages rs), m.allMessages.length) ↔
      m.allMessages.length ≤ rs.length) :=
  ⟨expunge_iff m oldVersion count uidValidity rs, synchronize_iff garbage m oldVersion count uidValidity rs⟩

/-- A folder with a message of which no record has been written. -/
theorem not_expunge_synchronize : ¬∀ (m : Manager) (garbage : ℕ → UInt32) (oldVersion count uidValidity : ℕ)
    (rs : List Record),
    expunge m (cacheFile oldVersion count uidValidity rs) =
        some (cacheFile version (kept m.table rs).length m.uidValidity.toNat (kept m.table rs), (kept m.table rs).length) ∧
      synchronize garbage m (cacheFile oldVersion count uidValidity rs) =
        (cacheFile version m.allMessages.length m.uidValidity.toNat (setFlags m.allMessages rs), m.allMessages.length) := by
  intro h
  have hboth := h ⟨1, 3, {7}, [0, 0]⟩ (fun _ => 0) 1 1 3 [⟨0, 0, 7, 0, [], by decide⟩]
  exact absurd ((synchronize_iff _ _ _ _ _ _).mp hboth.2) (by decide)

end Xperimentum.Pantomime.IMAPCache
