import Xperimentum.Lib.Buffers
import Xperimentum.Pantomime.CacheRecords
import Xperimentum.Pantomime.Data
import Xperimentum.Pantomime.FolderCache

/-! `expunge` of `CWLocalCacheManager`: the records of the messages that stay are put into one buffer. -/

namespace Xperimentum.Pantomime.LocalCache

open Xperimentum.Lib.BigEndian Lib.Buffers CacheRecords FolderCache

inductive Format
  | mbox | maildir
  deriving DecidableEq

def Format.cacheType : Format → CacheType
  | .mbox => .mbox
  | .maildir => .maildir

/-- The name of a file, whose length fits in a `short`. -/
structure FileName where
  name : Bytes
  short : name.length < 2 ^ 15

/-- The folder with what its messages answer, and the attributes of the file or directory of the folder. -/
structure Manager (M : Type) where
  format : Format
  folder : Folder M
  filePosition : M → ℤ
  size : M → ℕ
  mailFilename : M → Option FileName
  modificationDate : ℕ
  fileSize : ℕ

def version : ℕ := 1

section Source

/-- What has not been read of the file, `buf`, `total_length` and `total_deleted`. -/
structure Expunging where
  rest : Bytes
  buf : Bytes
  totalLength : ℕ
  totalDeleted : ℕ

/-- What has not been read of the file, `buf` and the length of the record. -/
structure Entry where
  rest : Bytes
  buf : Bytes
  len : ℕ

/-- A `char` as an `unsigned short`. -/
def signed (c : UInt8) : ℕ := if 128 ≤ c.toNat then 65280 + c.toNat else c.toNat

def ntohs (v : ℕ) : ℕ := v % 256 * 256 + v / 256 % 256

def oldLength (buf : Bytes) (i : ℕ) : ℕ :=
  let c0 := signed (buf.getD i 0)
  let c1 := signed (buf.getD (i + 1) 0)
  ntohs ((c1 * 256 ||| c0) % 65536)

variable {M : Type} [DecidableEq M]

def expungeMbox (m : Manager M) (aMessage : M) (s : Expunging) (len : ℕ) : Option Entry := do
  let left := (len + (2 ^ 32 - 4)) % 2 ^ 32
  let buf ← put s.buf (s.totalLength + 4) (s.rest.take left)
  let buf ← put buf (s.totalLength + 12) (bytes 4 (m.filePosition aMessage % 2 ^ 32).toNat)
  let buf ← put buf (s.totalLength + 16) (bytes 4 (m.size aMessage))
  pure ⟨s.rest.drop left, buf, len⟩

/-- There is no `strlen` of a file name that is `nil`. -/
def expungeMaildir (m : Manager M) (aMessage : M) (s : Expunging) (len : ℕ) : Option Entry := do
  let buf ← put s.buf (s.totalLength + 4) (s.rest.take 10)
  let rest := s.rest.drop 10
  let oldLen := oldLength buf (s.totalLength + 12)
  let filename ← m.mailFilename aMessage
  let sLen := filename.name.length
  let delta := Int.bmod (sLen - oldLen) (2 ^ 16)
  let buf ← put buf (s.totalLength + 12) (bytes 2 sLen)
  let buf ← put buf (s.totalLength + 14) filename.name
  let rest := rest.drop oldLen
  let left := (len + (2 ^ 32 - oldLen) + (2 ^ 32 - 14)) % 2 ^ 32
  let buf ← put buf (s.totalLength + sLen + 14) (rest.take left)
  pure ⟨rest.drop left, buf, ((len + delta) % 2 ^ 32).toNat⟩

/-- There is no result where a write reaches over the end of the buffer or bytes are used that have not been read. -/
def expungeRecords (m : Manager M) : List M → Expunging → Option Expunging
  | [], s => some s
  | aMessage :: messages, s =>
    let v := s.rest.take 4
    if v = [] then some s
    else if v.length < 4 then none
    else
      let len := value v
      let rest := s.rest.drop 4
      if (m.folder.flags aMessage).deleted then
        expungeRecords m messages
          ⟨rest.drop ((len + (2 ^ 32 - 4)) % 2 ^ 32), s.buf, s.totalLength, (s.totalDeleted + 1) % 2 ^ 32⟩
      else do
        let e ← match m.format with
          | .mbox => expungeMbox m aMessage { s with rest := rest } len
          | .maildir => expungeMaildir m aMessage { s with rest := rest } len
        let buf ← put e.buf s.totalLength (bytes 4 e.len)
        expungeRecords m messages ⟨e.rest, buf, (s.totalLength + e.len) % 2 ^ 32, s.totalDeleted⟩

/-- `malloc` with what is in the memory. -/
def malloc (memory : ℕ → UInt8) (n : ℕ) : Bytes := (List.range n).map memory

def header (m : Manager M) (count : ℕ) : Bytes :=
  CacheHeader.encoded m.format.cacheType ⟨version, count, m.modificationDate, m.fileSize⟩

/-- The file and `_count` afterwards; `[_folder count]` is the number of the visible messages. -/
def expunge (m : Manager M) (memory : ℕ → UInt8) (file : Bytes) : Option (Bytes × ℕ) :=
  let buf := malloc memory (file.length + (visibleMessages m.folder).length * 10)
  let messages := m.folder.allMessages.getD []
  (expungeRecords m messages ⟨file.drop (headerLength m.format.cacheType), buf, 0, 0⟩).map fun s =>
    let count := messages.length - s.totalDeleted
    let written := header m count ++ s.buf.take s.totalLength
    ((written ++ file.drop written.length).take ((s.totalLength + headerLength m.format.cacheType) % 2 ^ 32), count)

end Source

section Files

/-- A record as `writeRecord:` writes it, whose length fits in its field. -/
structure Record where
  flags : UInt32
  date : UInt32
  position : UInt32
  filename : FileName
  size : UInt32
  headers : Bytes
  fits : 20 + filename.name.length + headers.length < 2 ^ 32

/-- The position or the file name. -/
def Record.place (format : Format) (r : Record) : Bytes :=
  match format with
  | .mbox => bytes 4 r.position.toNat
  | .maildir => bytes 2 r.filename.name.length ++ r.filename.name

def Record.front (r : Record) : Bytes := bytes 4 r.flags.toNat ++ bytes 4 r.date.toNat

/-- The record with this place and size. -/
def Record.framed (r : Record) (place : Bytes) (size : ℕ) : Bytes :=
  bytes 4 (16 + place.length + r.headers.length) ++ (r.front ++ (place ++ (bytes 4 size ++ r.headers)))

def Record.encoded (format : Format) (r : Record) : Bytes := r.framed (r.place format) r.size.toNat

def encodedAll (format : Format) (rs : List Record) : Bytes := rs.flatMap (Record.encoded format)

def cacheFile (format : Format) (h : CacheHeader) (rs : List Record) : Bytes :=
  h.encoded format.cacheType ++ encodedAll format rs

variable {M : Type} [DecidableEq M]

/-- The messages that stay with their records. -/
def surviving (m : Manager M) (messages : List M) (rs : List Record) : List (M × Record) :=
  (messages.zip rs).filter fun p => !(m.folder.flags p.1).deleted

def removed (m : Manager M) (messages : List M) (rs : List Record) : List (M × Record) :=
  (messages.zip rs).filter fun p => (m.folder.flags p.1).deleted

/-- The record of a message that stays, with the position and the size of the message or with its file name. -/
structure Updated (m : Manager M) (p : M × Record) (r : Record) : Prop where
  flags : r.flags = p.2.flags
  date : r.date = p.2.date
  headers : r.headers = p.2.headers
  position : m.format = .mbox → (r.position.toNat : ℤ) = m.filePosition p.1
  filename : m.format = .maildir → m.mailFilename p.1 = some r.filename
  size : r.size.toNat = match m.format with
    | .mbox => m.size p.1
    | .maildir => p.2.size.toNat

/-- The result is a file of exactly the records of the messages that stay. -/
def Expunges (m : Manager M) (memory : ℕ → UInt8) (h : CacheHeader) (rs : List Record) : Prop :=
  ∃ rs', List.Forall₂ (Updated m) (surviving m (m.folder.allMessages.getD []) rs) rs' ∧
    expunge m memory (cacheFile m.format h rs) = some
      (cacheFile m.format ⟨version, rs'.length, m.modificationDate, m.fileSize⟩ rs', rs'.length)

/-- The length of the record of a message that stays. -/
def newLength (m : Manager M) (p : M × Record) : ℕ :=
  match m.format with
  | .mbox => 20 + p.2.headers.length
  | .maildir => 18 + ((m.mailFilename p.1).elim 0 fun filename => filename.name.length) + p.2.headers.length

end Files

section Lengths

variable {r : Record}

lemma length_front (r : Record) : r.front.length = 8 := by
  rw [Record.front, List.length_append, length_bytes, length_bytes]

lemma length_framed (r : Record) (place : Bytes) (size : ℕ) :
    (r.framed place size).length = 16 + place.length + r.headers.length := by
  simp only [Record.framed, List.length_append, length_bytes, length_front]
  omega

lemma length_place_mbox (r : Record) : (r.place .mbox).length = 4 := length_bytes 4 _

lemma length_place_maildir (r : Record) : (r.place .maildir).length = 2 + r.filename.name.length := by
  rw [Record.place, List.length_append, length_bytes]

lemma encoded_lt (format : Format) (r : Record) : 16 + (r.place format).length + r.headers.length < 2 ^ 32 := by
  have hfits := r.fits
  cases format with
  | mbox =>
    rw [length_place_mbox]
    omega
  | maildir =>
    rw [length_place_maildir]
    omega

/-- What `writeRecord:` writes is such a record, if its counts fit in two bytes. -/
lemma exists_encoded (c : CacheRecord) (hheaders : ∀ f ∈ c.headers, f.length < 65536) (hname : c.filename.length < 2 ^ 15) :
    ∃ r : Record, ∀ format : Format, r.encoded format = writeRecord format.cacheType c := by
  have hsum := sum_lt hheaders
  have hlength := length_headers hheaders
  have hposition : (UInt32.ofNat (c.position % 2 ^ 32).toNat).toNat = (c.position % 2 ^ 32).toNat := by
    rw [UInt32.toNat_ofNat']
    exact Nat.mod_eq_of_lt (by omega)
  refine ⟨⟨c.flags, c.date, UInt32.ofNat (c.position % 2 ^ 32).toNat, ⟨c.filename, hname⟩, c.size,
    c.headers.flatMap counted, by simp only [hlength]; omega⟩, fun format => ?_⟩
  cases format with
  | mbox =>
    have hrecord : recordLength .mbox c = 16 + 4 + (c.headers.flatMap counted).length := by
      rw [hlength]
      exact Nat.add_comm _ 20
    rw [Record.encoded, Record.framed, Record.front, length_place_mbox, Record.place, hposition, Format.cacheType,
      writeRecord, hrecord, recordBytes]
    simp only [List.append_assoc]
  | maildir =>
    have hrecord : recordLength .maildir c = 16 + (2 + c.filename.length) + (c.headers.flatMap counted).length := by
      rw [hlength]
      simp only [recordLength]
      omega
    rw [Record.encoded, Record.framed, Record.front, length_place_maildir, Record.place, Format.cacheType,
      writeRecord, hrecord, recordBytes, counted_of_lt (by omega)]
    simp only [List.append_assoc]

/-- Both bytes of a length are read as they have been written, as the upper one is below 128. -/
lemma ntohs_signed {n : ℕ} (h : n < 2 ^ 15) :
    ntohs ((signed (UInt8.ofNat n) * 256 ||| signed (UInt8.ofNat (n / 256))) % 65536) = n := by
  have hupper : signed (UInt8.ofNat (n / 256)) = n / 256 := by
    rw [signed, UInt8.toNat_ofNat', if_neg (by omega), Nat.mod_eq_of_lt (by omega)]
  have hlower : signed (UInt8.ofNat n) % 256 = n % 256 := by
    rw [signed, UInt8.toNat_ofNat']
    split_ifs <;> omega
  have hor : signed (UInt8.ofNat n) * 256 ||| n / 256 = 256 * signed (UInt8.ofNat n) + n / 256 := by
    rw [Nat.mul_comm]
    exact (Nat.two_pow_add_eq_or_of_lt (i := 8) (by omega) _).symm
  have hword : (256 * signed (UInt8.ofNat n) + n / 256) % 65536 = 256 * (n % 256) + n / 256 := by
    clear hor
    omega
  have hmod : (256 * (n % 256) + n / 256) % 256 = n / 256 := by
    rw [Nat.mul_add_mod, Nat.mod_eq_of_lt (by omega)]
  have hdiv : (256 * (n % 256) + n / 256) / 256 = n % 256 := by
    rw [Nat.mul_add_div (by decide), Nat.div_eq_of_lt (by omega), Nat.add_zero]
  rw [hupper, hor, hword, ntohs, hmod, hdiv, Nat.mod_mod, Nat.div_add_mod']

lemma oldLength_of_put {buf out a : Bytes} {offset n : ℕ} (hn : n < 2 ^ 15)
    (h : put buf offset (a ++ bytes 2 n) = some out) : oldLength out (offset + a.length) = n := by
  have hat : ∀ i < 2, out.getD (offset + a.length + i) 0 = (bytes 2 n).getD i 0 := fun i hi => by
    rw [List.getD_eq_getElem?_getD, List.getD_eq_getElem?_getD, Nat.add_assoc,
      getElem?_of_put h (by rw [List.length_append, length_bytes]; omega),
      List.getElem?_append_right (Nat.le_add_right _ _), Nat.add_sub_cancel_left]
  have h0 := hat 0 (by decide)
  have h1 := hat 1 (by decide)
  rw [Nat.add_zero] at h0
  rw [oldLength, h0, h1]
  have hupper : (bytes 2 n).getD 0 0 = UInt8.ofNat (n / 256) := by simp [bytes]
  have hlower : (bytes 2 n).getD 1 0 = UInt8.ofNat n := by simp [bytes]
  rw [hupper, hlower]
  exact ntohs_signed hn

end Lengths

section Step

variable {M β : Type}

/-- Where the message is in the mailbox, or its file name, as it is written. -/
def Manager.place (m : Manager M) (aMessage : M) : Option Bytes :=
  match m.format with
  | .mbox => some (bytes 4 (m.filePosition aMessage % 2 ^ 32).toNat)
  | .maildir => (m.mailFilename aMessage).map fun filename => bytes 2 filename.name.length ++ filename.name

def Manager.newSize (m : Manager M) (p : M × Record) : ℕ :=
  match m.format with
  | .mbox => m.size p.1
  | .maildir => p.2.size.toNat

/-- The bytes of the record of a message that stays. -/
def rewritten (m : Manager M) (p : M × Record) : Option Bytes :=
  (m.place p.1).map fun place => p.2.framed place (m.newSize p)

lemma expungeMbox_eq (m : Manager M) (aMessage : M) (r : Record) (rest buf : Bytes) (total deleted : ℕ)
    (next : Expunging → Option β) :
    ((expungeMbox m aMessage ⟨(r.front ++ (r.place .mbox ++ (bytes 4 r.size.toNat ++ r.headers))) ++ rest, buf, total, deleted⟩
        (16 + (r.place .mbox).length + r.headers.length)).bind fun e =>
      (put e.buf total (bytes 4 e.len)).bind fun buf => next ⟨e.rest, buf, (total + e.len) % 2 ^ 32, deleted⟩) =
    (put buf total (r.framed (bytes 4 (m.filePosition aMessage % 2 ^ 32).toNat) (m.size aMessage))).bind fun buf =>
      next ⟨rest, buf, (total + (20 + r.headers.length)) % 2 ^ 32, deleted⟩ := by
  have hlt := encoded_lt .mbox r
  rw [length_place_mbox] at hlt ⊢
  have hleft : (16 + 4 + r.headers.length + (2 ^ 32 - 4)) % 2 ^ 32 =
      (r.front ++ (r.place .mbox ++ (bytes 4 r.size.toNat ++ r.headers))).length := by
    simp only [List.length_append, length_front, length_place_mbox, length_bytes]
    omega
  have hposition : total + 12 = total + 4 + r.front.length := by rw [length_front]
  have hsize : total + 16 = total + 4 + (r.front ++ bytes 4 (m.filePosition aMessage % 2 ^ 32).toNat).length := by
    rw [List.length_append, length_front, length_bytes]
  have hlength : total + 4 = total + (bytes 4 (16 + 4 + r.headers.length)).length := by rw [length_bytes]
  simp only [expungeMbox, Option.bind_eq_bind, Option.pure_def, Option.bind_assoc, Option.bind_some, hleft, List.take_left',
    List.drop_left']
  rw [← Option.bind_assoc, hposition, put_within (by rw [length_place_mbox, length_bytes]), ← List.append_assoc r.front,
    ← Option.bind_assoc, hsize, put_within (by rw [length_bytes, length_bytes]), ← Option.bind_assoc, hlength, put_front]
  rw [Record.framed, length_bytes, List.append_assoc]

lemma expungeMaildir_eq (m : Manager M) (aMessage : M) (r : Record) (rest buf : Bytes) (total deleted : ℕ)
    (next : Expunging → Option β) :
    ((expungeMaildir m aMessage ⟨(r.front ++ (r.place .maildir ++ (bytes 4 r.size.toNat ++ r.headers))) ++ rest, buf, total, deleted⟩
        (16 + (r.place .maildir).length + r.headers.length)).bind fun e =>
      (put e.buf total (bytes 4 e.len)).bind fun buf => next ⟨e.rest, buf, (total + e.len) % 2 ^ 32, deleted⟩) =
    (m.mailFilename aMessage).bind fun filename =>
      (put buf total (r.framed (bytes 2 filename.name.length ++ filename.name) r.size.toNat)).bind fun buf =>
        next ⟨rest, buf, (total + (18 + filename.name.length + r.headers.length)) % 2 ^ 32, deleted⟩ := by
  have hlt := encoded_lt .maildir r
  rw [length_place_maildir] at hlt ⊢
  have hten : (r.front ++ bytes 2 r.filename.name.length).length = 10 := by
    rw [List.length_append, length_front, length_bytes]
  have hsplit : (r.front ++ (r.place .maildir ++ (bytes 4 r.size.toNat ++ r.headers))) ++ rest =
      (r.front ++ bytes 2 r.filename.name.length) ++ (r.filename.name ++ ((bytes 4 r.size.toNat ++ r.headers) ++ rest)) := by
    simp only [Record.place, List.append_assoc]
  rw [hsplit]
  simp only [expungeMaildir, Option.bind_eq_bind, Option.pure_def, Option.bind_assoc, Option.bind_some,
    List.take_left' hten, List.drop_left' hten]
  cases m.mailFilename aMessage with
  | none => exact Option.bind_fun_none _
  | some filename =>
    have hleft : (16 + (2 + r.filename.name.length) + r.headers.length + (2 ^ 32 - r.filename.name.length) + (2 ^ 32 - 14)) %
        2 ^ 32 = (bytes 4 r.size.toNat ++ r.headers).length := by
      rw [List.length_append, length_bytes]
      omega
    have hshort := r.filename.short
    have hname := filename.short
    have hlen : ((((16 + (2 + r.filename.name.length) + r.headers.length : ℕ) : ℤ) +
        Int.bmod (filename.name.length - r.filename.name.length) (2 ^ 16)) % 2 ^ 32).toNat =
        (16 + (bytes 2 filename.name.length ++ filename.name).length + r.headers.length) % 256 ^ 4 := by
      rw [Int.bmod_eq_of_le (by omega) (by omega), List.length_append, length_bytes]
      omega
    have htotal : (total + (16 + (bytes 2 filename.name.length ++ filename.name).length + r.headers.length) % 256 ^ 4) %
        2 ^ 32 = (total + (18 + filename.name.length + r.headers.length)) % 2 ^ 32 := by
      rw [List.length_append, length_bytes]
      omega
    have hold : ∀ out, put buf (total + 4) (r.front ++ bytes 2 r.filename.name.length) = some out →
        oldLength out (total + 12) = r.filename.name.length := fun out hout => by
      have hat : total + 12 = total + 4 + r.front.length := by rw [length_front]
      rw [hat]
      exact oldLength_of_put hshort hout
    simp only [Option.bind_some]
    have htwo : total + 12 = total + 4 + r.front.length := by rw [length_front]
    have hbehind : total + 14 = total + 4 + (r.front ++ bytes 2 filename.name.length).length := by
      rw [List.length_append, length_front, length_bytes]
    have hrest : total + filename.name.length + 14 =
        total + 4 + ((r.front ++ bytes 2 filename.name.length) ++ filename.name).length := by
      rw [List.length_append, List.length_append, length_front, length_bytes]
      omega
    have hlength : total + 4 = total + (bytes 4 (16 + (bytes 2 filename.name.length ++ filename.name).length +
        r.headers.length)).length := by rw [length_bytes]
    have htwice := put_within (b := bytes 2 r.filename.name.length) (c := bytes 2 filename.name.length)
      (by rw [length_bytes, length_bytes]) buf (total + 4) r.front []
    rw [List.append_nil, List.append_nil, ← htwo] at htwice
    calc
      _ = (put buf (total + 4) (r.front ++ bytes 2 r.filename.name.length)).bind fun out =>
            (put out (total + 12) (bytes 2 filename.name.length)).bind fun out =>
              (put out (total + 14) filename.name).bind fun out =>
                (put out (total + filename.name.length + 14) (bytes 4 r.size.toNat ++ r.headers)).bind fun out =>
                  (put out total (bytes 4 (16 + (bytes 2 filename.name.length ++ filename.name).length +
                    r.headers.length))).bind fun out =>
                      next ⟨rest, out, (total + (18 + filename.name.length + r.headers.length)) % 2 ^ 32, deleted⟩ := by
        refine Option.bind_congr fun out hout => ?_
        rw [hold out hout, List.drop_left, hleft, List.take_left, List.drop_left, hlen, bytes_mod, htotal]
      _ = _ := by
        rw [← Option.bind_assoc, htwice, ← Option.bind_assoc, hbehind, put_behind, ← Option.bind_assoc, hrest, put_behind,
          ← Option.bind_assoc, hlength, put_front]
        simp only [Record.framed, List.append_assoc]

/-- The record of a message that stays is put behind those before it, as it is rewritten. -/
lemma expungeRecords_stays (m : Manager M) {aMessage : M} (hflags : (m.folder.flags aMessage).deleted = false)
    (messages : List M) (r : Record) (rest buf : Bytes) (total deleted : ℕ) :
    expungeRecords m (aMessage :: messages) ⟨r.encoded m.format ++ rest, buf, total, deleted⟩ =
      (rewritten m (aMessage, r)).bind fun b => (put buf total b).bind fun buf =>
        expungeRecords m messages ⟨rest, buf, (total + b.length) % 2 ^ 32, deleted⟩ := by
  have htake : (r.encoded m.format ++ rest).take 4 = bytes 4 (16 + (r.place m.format).length + r.headers.length) := by
    rw [Record.encoded, Record.framed, List.append_assoc, List.take_left' (length_bytes 4 _)]
  have hdrop : (r.encoded m.format ++ rest).drop 4 =
      (r.front ++ (r.place m.format ++ (bytes 4 r.size.toNat ++ r.headers))) ++ rest := by
    rw [Record.encoded, Record.framed, List.append_assoc, List.drop_left' (length_bytes 4 _)]
  have hvalue : value (bytes 4 (16 + (r.place m.format).length + r.headers.length)) =
      16 + (r.place m.format).length + r.headers.length := by
    rw [value_bytes]
    exact Nat.mod_eq_of_lt (encoded_lt m.format r)
  have hne : bytes 4 (16 + (r.place m.format).length + r.headers.length) ≠ [] :=
    List.ne_nil_of_length_pos (by rw [length_bytes]; decide)
  rw [expungeRecords]
  simp only [htake, hdrop, hvalue, if_neg hne, length_bytes, lt_irrefl, if_false, hflags, Bool.false_eq_true]
  cases hformat : m.format with
  | mbox =>
    simp only [rewritten, Manager.place, Manager.newSize, hformat, Option.map_some, Option.bind_some, length_framed,
      length_bytes]
    exact expungeMbox_eq m aMessage r rest buf total deleted _
  | maildir =>
    simp only [rewritten, Manager.place, Manager.newSize, hformat, Option.map_map, Option.bind_map]
    refine (expungeMaildir_eq m aMessage r rest buf total deleted _).trans ?_
    refine Option.bind_congr fun filename _ => ?_
    simp only [Function.comp_apply, length_framed, List.length_append, length_bytes, ← Nat.add_assoc]

lemma expungeRecords_deleted (m : Manager M) {aMessage : M} (hflags : (m.folder.flags aMessage).deleted = true)
    (messages : List M) (r : Record) (rest buf : Bytes) (total deleted : ℕ) :
    expungeRecords m (aMessage :: messages) ⟨r.encoded m.format ++ rest, buf, total, deleted⟩ =
      expungeRecords m messages ⟨rest, buf, total, (deleted + 1) % 2 ^ 32⟩ := by
  have hlt := encoded_lt m.format r
  have htake : (r.encoded m.format ++ rest).take 4 = bytes 4 (16 + (r.place m.format).length + r.headers.length) := by
    rw [Record.encoded, Record.framed, List.append_assoc, List.take_left' (length_bytes 4 _)]
  have hvalue : value (bytes 4 (16 + (r.place m.format).length + r.headers.length)) =
      16 + (r.place m.format).length + r.headers.length := by
    rw [value_bytes]
    exact Nat.mod_eq_of_lt hlt
  have hne : bytes 4 (16 + (r.place m.format).length + r.headers.length) ≠ [] :=
    List.ne_nil_of_length_pos (by rw [length_bytes]; decide)
  have hleft : 4 + (16 + (r.place m.format).length + r.headers.length + (2 ^ 32 - 4)) % 2 ^ 32 =
      (r.encoded m.format).length := by
    rw [Record.encoded, length_framed]
    omega
  rw [expungeRecords]
  simp only [htake, hvalue, if_neg hne, length_bytes, lt_irrefl, if_false, hflags, if_true, List.drop_drop]
  rw [hleft, List.drop_left]

end Step

section Run

variable {M : Type} {m : Manager M}

lemma surviving_of_deleted {aMessage : M} (h : (m.folder.flags aMessage).deleted = true) (messages : List M)
    (rs : List Record) (r : Record) :
    surviving m (aMessage :: messages) (r :: rs) = surviving m messages rs ∧
      removed m (aMessage :: messages) (r :: rs) = (aMessage, r) :: removed m messages rs := by
  rw [surviving, removed, List.zip_cons_cons, List.filter_cons_of_neg (by simp only [h]; decide),
    List.filter_cons_of_pos (by simp only [h])]
  exact ⟨rfl, rfl⟩

lemma surviving_of_stays {aMessage : M} (h : (m.folder.flags aMessage).deleted = false) (messages : List M)
    (rs : List Record) (r : Record) :
    surviving m (aMessage :: messages) (r :: rs) = (aMessage, r) :: surviving m messages rs ∧
      removed m (aMessage :: messages) (r :: rs) = removed m messages rs := by
  rw [surviving, removed, List.zip_cons_cons, List.filter_cons_of_pos (by simp only [h]; decide),
    List.filter_cons_of_neg (by simp only [h]; decide)]
  exact ⟨rfl, rfl⟩

/-- The loop puts the rewritten records behind each other. -/
lemma expungeRecords_eq (m : Manager M) (messages : List M) (rs : List Record) (buf : Bytes) (total deleted : ℕ)
    (hdeleted : deleted < 2 ^ 32) :
    expungeRecords m messages ⟨encodedAll m.format rs, buf, total, deleted⟩ =
      ((surviving m messages rs).mapM (rewritten m)).bind fun bs => (putAll (2 ^ 32) bs buf total).map fun result =>
        ⟨encodedAll m.format (rs.drop messages.length), result.1, result.2,
          (deleted + (removed m messages rs).length) % 2 ^ 32⟩ := by
  have hsame : deleted % 2 ^ 32 = deleted := Nat.mod_eq_of_lt hdeleted
  induction messages generalizing rs buf total deleted with
  | nil =>
    simp only [surviving, removed, List.zip_nil_left, List.filter_nil, List.mapM_nil, List.length_nil, Nat.add_zero, hsame]
    rfl
  | cons aMessage messages ih =>
    cases rs with
    | nil =>
      simp only [surviving, removed, List.zip_nil_right, List.filter_nil, List.mapM_nil, List.length_nil, Nat.add_zero, hsame]
      rfl
    | cons r rs =>
      have hcons : encodedAll m.format (r :: rs) = r.encoded m.format ++ encodedAll m.format rs := List.flatMap_cons
      rw [hcons]
      cases hflags : (m.folder.flags aMessage).deleted with
      | true =>
        obtain ⟨hsurviving, hremoved⟩ := surviving_of_deleted hflags messages rs r
        have hlt : (deleted + 1) % 2 ^ 32 < 2 ^ 32 := Nat.mod_lt _ (Nat.two_pow_pos 32)
        rw [expungeRecords_deleted m hflags, ih rs buf total _ hlt (Nat.mod_eq_of_lt hlt), hsurviving, hremoved,
          Nat.mod_add_mod, List.length_cons, Nat.add_assoc, Nat.add_comm 1]
        rfl
      | false =>
        obtain ⟨hsurviving, hremoved⟩ := surviving_of_stays hflags messages rs r
        rw [expungeRecords_stays m hflags, hsurviving, hremoved, List.mapM_cons]
        simp only [Option.bind_eq_bind, Option.pure_def, Option.bind_assoc, Option.bind_some, putAll]
        refine Option.bind_congr fun b _ => ?_
        cases put buf total b with
        | none => exact (Option.bind_fun_none _).symm
        | some out =>
          simp only [Option.bind_some]
          exact ih rs out _ deleted hdeleted hsame

lemma length_of_updated {p : M × Record} {r : Record} (h : Updated m p r) : (r.encoded m.format).length = newLength m p := by
  rw [Record.encoded, length_framed, h.headers, newLength]
  cases hformat : m.format with
  | mbox => rw [length_place_mbox]
  | maildir =>
    rw [length_place_maildir, h.filename hformat, Option.elim_some]
    simp only
    omega

lemma rewritten_of_updated {p : M × Record} {r : Record} (h : Updated m p r) :
    rewritten m p = some (r.encoded m.format) := by
  have hflags : r.front = p.2.front := by rw [Record.front, Record.front, h.flags, h.date]
  have hframed : ∀ place size, p.2.framed place size = r.framed place size := fun place size => by
    rw [Record.framed, Record.framed, hflags, h.headers]
  have hsize := h.size
  simp only [rewritten, Record.encoded, hframed]
  cases hformat : m.format with
  | mbox =>
    have hposition := h.position hformat
    have hlt := r.position.toNat_lt
    rw [hformat] at hsize
    have hmod : (m.filePosition p.1 % 2 ^ 32).toNat = r.position.toNat := by omega
    simp only [Manager.place, Manager.newSize, hformat, Option.map_some, hmod, Record.place, hsize]
  | maildir =>
    rw [hformat] at hsize
    simp only [Manager.place, Manager.newSize, hformat, h.filename hformat, Option.map_some, Record.place, hsize]

lemma mapM_rewritten {ps : List (M × Record)} {rs' : List Record} (h : List.Forall₂ (Updated m) ps rs') :
    ps.mapM (rewritten m) = some (rs'.map (Record.encoded m.format)) ∧
      (encodedAll m.format rs').length = (ps.map (newLength m)).sum ∧ rs'.length = ps.length := by
  induction h with
  | nil => exact ⟨rfl, rfl, rfl⟩
  | cons hp _ ih =>
    obtain ⟨hmap, hsum, hlength⟩ := ih
    rw [List.mapM_cons, rewritten_of_updated hp, hmap, List.map_cons, List.map_cons, List.sum_cons, ← hsum,
      ← length_of_updated hp]
    refine ⟨rfl, List.length_append, ?_⟩
    rw [List.length_cons, List.length_cons, hlength]

/-- The record of a message that stays, where its fields take the new values. -/
lemma exists_updated {p : M × Record} (hname : m.format = .maildir → m.mailFilename p.1 ≠ none)
    (hmbox : m.format = .mbox → 0 ≤ m.filePosition p.1 ∧ m.filePosition p.1 < 2 ^ 32 ∧ m.size p.1 < 2 ^ 32)
    (hlt : 2 + newLength m p < 2 ^ 32) : ∃ r, Updated m p r := by
  rw [newLength] at hlt
  cases hformat : m.format with
  | mbox =>
    obtain ⟨h0, hposition, hsize⟩ := hmbox hformat
    refine ⟨{ p.2 with
      position := UInt32.ofNat (m.filePosition p.1).toNat
      size := UInt32.ofNat (m.size p.1) }, rfl, rfl, rfl, fun _ => ?_, fun h => ?_, ?_⟩
    · rw [UInt32.toNat_ofNat', Nat.mod_eq_of_lt (by omega)]
      omega
    · rw [hformat] at h
      cases h
    · rw [hformat, UInt32.toNat_ofNat']
      exact Nat.mod_eq_of_lt hsize
  | maildir =>
    obtain ⟨filename, hfilename⟩ := Option.ne_none_iff_exists'.mp (hname hformat)
    rw [hformat, hfilename, Option.elim_some] at hlt
    simp only at hlt
    refine ⟨{ p.2 with
      filename := filename
      fits := by omega }, rfl, rfl, rfl, fun h => ?_, fun _ => hfilename, ?_⟩
    · rw [hformat] at h
      cases h
    · rw [hformat]

lemma length_surviving (m : Manager M) (messages : List M) (rs : List Record) :
    (surviving m messages rs).length + (removed m messages rs).length = min messages.length rs.length := by
  rw [← List.length_zip, Nat.add_comm, surviving, removed]
  exact (List.length_eq_length_filter_add _).symm

lemma exists_updated_all {ps : List (M × Record)} (h : ∀ p ∈ ps, ∃ r, Updated m p r) :
    ∃ rs', List.Forall₂ (Updated m) ps rs' := by
  induction ps with
  | nil => exact ⟨[], .nil⟩
  | cons p ps ih =>
    obtain ⟨hp, hps⟩ := List.forall_mem_cons.mp h
    obtain ⟨r, hr⟩ := hp
    obtain ⟨rs', hrs'⟩ := ih hps
    exact ⟨r :: rs', .cons hr hrs'⟩

lemma updated_of_mem {ps : List (M × Record)} {rs' : List Record} (h : List.Forall₂ (Updated m) ps rs') :
    ∀ p ∈ ps, ∃ r, Updated m p r := by
  induction h with
  | nil => exact fun p hp => (List.not_mem_nil hp).elim
  | cons hp _ ih => exact List.forall_mem_cons.mpr ⟨⟨_, hp⟩, ih⟩

end Run

section Main

variable {M : Type} [DecidableEq M] {m : Manager M} {memory : ℕ → UInt8} {h : CacheHeader} {rs : List Record}

/-- What the folder has to be: each message has a record, a message that stays in a maildir has a file name, and its
position and size in an mbox fit in four bytes; there is room for what file names grow by, and the lengths do not wrap. -/
structure Expungeable (m : Manager M) (h : CacheHeader) (rs : List Record) : Prop where
  counted : (m.folder.allMessages.getD []).length ≤ rs.length
  few : (removed m (m.folder.allMessages.getD []) rs).length < 2 ^ 32
  named : m.format = .maildir →
    ∀ p ∈ surviving m (m.folder.allMessages.getD []) rs, m.mailFilename p.1 ≠ none
  addressed : m.format = .mbox → ∀ p ∈ surviving m (m.folder.allMessages.getD []) rs,
    0 ≤ m.filePosition p.1 ∧ m.filePosition p.1 < 2 ^ 32 ∧ m.size p.1 < 2 ^ 32
  room : ((surviving m (m.folder.allMessages.getD []) rs).map (newLength m)).sum ≤
    (cacheFile m.format h rs).length + (visibleMessages m.folder).length * 10
  fits : ((surviving m (m.folder.allMessages.getD []) rs).map (newLength m)).sum + headerLength m.format.cacheType < 2 ^ 32

lemma length_header (format : Format) (h : CacheHeader) : (h.encoded format.cacheType).length = headerLength format.cacheType := by
  cases format <;> simp [CacheHeader.encoded, headerLength, Format.cacheType]

lemma length_malloc (memory : ℕ → UInt8) (n : ℕ) : (malloc memory n).length = n := by
  rw [malloc, List.length_map, List.length_range]

lemma flatten_encoded (format : Format) (rs : List Record) : (rs.map (Record.encoded format)).flatten = encodedAll format rs :=
  rfl

/-- The run on a file, once the records of the messages that stay are known. -/
lemma expunge_eq {rs' : List Record} (h : CacheHeader)
    (hupdated : List.Forall₂ (Updated m) (surviving m (m.folder.allMessages.getD []) rs) rs') :
    expunge m memory (cacheFile m.format h rs) =
      (putAll (2 ^ 32) (rs'.map (Record.encoded m.format)) (malloc memory ((cacheFile m.format h rs).length +
        (visibleMessages m.folder).length * 10)) 0).map fun result =>
          let count := (m.folder.allMessages.getD []).length -
            (removed m (m.folder.allMessages.getD []) rs).length % 2 ^ 32
          let written := header m count ++ result.1.take result.2
          ((written ++ (cacheFile m.format h rs).drop written.length).take
            ((result.2 + headerLength m.format.cacheType) % 2 ^ 32), count) := by
  have hdrop : (cacheFile m.format h rs).drop (headerLength m.format.cacheType) = encodedAll m.format rs :=
    List.drop_left' (length_header m.format h)
  rw [expunge, hdrop, expungeRecords_eq m _ rs _ 0 0 (Nat.two_pow_pos 32), (mapM_rewritten hupdated).1, Option.bind_some,
    Option.map_map]
  simp only [Nat.zero_add]
  rfl

lemma headerLength_cases (format : Format) : headerLength format.cacheType = 14 ∨ headerLength format.cacheType = 10 := by
  cases format with
  | mbox => exact .inl rfl
  | maildir => exact .inr rfl

lemma expungeable_of_expunges (hexpunges : Expunges m memory h rs) : Expungeable m h rs := by
  obtain ⟨rs', hupdated, hrun⟩ := hexpunges
  obtain ⟨-, hsum, hcount⟩ := mapM_rewritten hupdated
  rw [expunge_eq h hupdated] at hrun
  obtain ⟨result, hput, hresult⟩ := Option.map_eq_some_iff.mp hrun
  simp only [Prod.mk.injEq] at hresult
  obtain ⟨hfile, hlength⟩ := hresult
  have hboth := length_surviving m (m.folder.allMessages.getD []) rs
  have hsize : (cacheFile m.format ⟨version, rs'.length, m.modificationDate, m.fileSize⟩ rs').length ≤
      (result.2 + headerLength m.format.cacheType) % 2 ^ 32 := by
    rw [← hfile]
    exact List.length_take_le _ _
  rw [cacheFile, List.length_append, length_header, hsum] at hsize
  have hfits : ((surviving m (m.folder.allMessages.getD []) rs).map (newLength m)).sum +
      headerLength m.format.cacheType < 2 ^ 32 := by
    have hmod := Nat.mod_lt (result.2 + headerLength m.format.cacheType) (Nat.two_pow_pos 32)
    omega
  refine ⟨by omega, by omega, fun hformat p hp => ?_, fun hformat p hp => ?_, ?_, hfits⟩
  · obtain ⟨r, hr⟩ := updated_of_mem hupdated p hp
    rw [hr.filename hformat]
    exact Option.some_ne_none _
  · obtain ⟨r, hr⟩ := updated_of_mem hupdated p hp
    have hposition := hr.position hformat
    have hsize := hr.size
    have hlt := r.position.toNat_lt
    have hsizelt := r.size.toNat_lt
    rw [hformat] at hsize
    simp only at hsize
    omega
  · by_contra hroom
    have hnone := (putAll_eq (2 ^ 32) (rs'.map (Record.encoded m.format)) (malloc memory
      ((cacheFile m.format h rs).length + (visibleMessages m.folder).length * 10)) (Nat.zero_le _)
      (by rw [flatten_encoded, hsum]; omega)).2 (by rw [flatten_encoded, hsum, length_malloc]; omega)
    rw [hnone] at hput
    cases hput

lemma expunges_of_expungeable (hexpungeable : Expungeable m h rs) : Expunges m memory h rs := by
  have hheader := headerLength_cases m.format
  have hfits := hexpungeable.fits
  have hroom := hexpungeable.room
  have hfew := hexpungeable.few
  have hcounted := hexpungeable.counted
  obtain ⟨rs', hupdated⟩ := exists_updated_all fun p hp => by
    have hle : newLength m p ≤ ((surviving m (m.folder.allMessages.getD []) rs).map (newLength m)).sum :=
      List.le_sum_of_mem (List.mem_map_of_mem hp)
    exact exists_updated (fun hformat => hexpungeable.named hformat p hp)
      (fun hformat => hexpungeable.addressed hformat p hp) (by omega)
  obtain ⟨-, hsum, hcount⟩ := mapM_rewritten hupdated
  have hboth := length_surviving m (m.folder.allMessages.getD []) rs
  rw [← hsum] at hfits hroom
  obtain ⟨out, hput, htake, -⟩ := (putAll_eq (2 ^ 32) (rs'.map (Record.encoded m.format)) (malloc memory
    ((cacheFile m.format h rs).length + (visibleMessages m.folder).length * 10)) (Nat.zero_le _)
    (by rw [flatten_encoded]; omega)).1 (by rw [flatten_encoded, length_malloc]; omega)
  rw [flatten_encoded, Nat.zero_add] at hput htake
  refine ⟨rs', hupdated, ?_⟩
  rw [expunge_eq h hupdated, hput, Option.map_some, htake]
  have hmessages : (m.folder.allMessages.getD []).length - (removed m (m.folder.allMessages.getD []) rs).length % 2 ^ 32 =
      rs'.length := by omega
  have hwritten : (header m rs'.length ++ encodedAll m.format rs').length =
      ((encodedAll m.format rs').length + headerLength m.format.cacheType) % 2 ^ 32 := by
    rw [header, List.length_append, length_header, Nat.mod_eq_of_lt hfits, Nat.add_comm]
  simp only [hmessages, List.take_zero, List.nil_append, ← hwritten, List.take_left]
  rfl

end Main

/-- The file is that of the messages that stay exactly if the folder is expungeable. -/
theorem expunges_iff {M : Type} [DecidableEq M] (m : Manager M) (memory : ℕ → UInt8) (h : CacheHeader) (rs : List Record) :
    Expunges m memory h rs ↔ Expungeable m h rs :=
  ⟨expungeable_of_expunges, expunges_of_expungeable⟩


/-- Three read messages of a maildir that are not shown get longer file names. -/
theorem not_expunges : ¬∀ (m : Manager ℕ) (memory : ℕ → UInt8) (h : CacheHeader) (rs : List Record),
    Expunges m memory h rs := by
  intro hall
  have hexpunges := hall ⟨.maildir, ⟨some [0, 1, 2], none, true, false, fun _ => ⟨false, true⟩⟩, fun _ => 0, fun _ => 0,
    fun _ => some ⟨[97, 58, 50, 44, 83], by decide⟩, 0, 0⟩ (fun _ => 0) ⟨1, 3, 0, 0⟩
    (List.replicate 3 ⟨16, 0, 0, ⟨[97], by decide⟩, 0, [], by decide⟩)
  exact absurd (expungeable_of_expunges hexpunges).room (by decide)

end Xperimentum.Pantomime.LocalCache
