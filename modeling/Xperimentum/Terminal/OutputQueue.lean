import Mathlib.Tactic
import Xperimentum.Lib.Int32
import Xperimentum.Lib.Memory

/-! The bytes on their way to the program: what its terminal does not take at once waits in a buffer. -/

namespace Xperimentum.Terminal.OutputQueue

open Lib.Int32 Lib.Memory Lib.Partial

structure Queue where
  masterFd : ℤ
  writeBuf : List UInt8
  writeBufLen : ℤ
  writeBufSize : ℤ
  /-- What the program's terminal has taken so far. -/
  written : List UInt8

def opened (fd : ℤ) : Queue := ⟨fd, [], 0, 0, []⟩

def pending (q : Queue) : List UInt8 := q.writeBuf.take q.writeBufLen.toNat

/-- The bytes that a call gets rid of, or `none` where it fails. -/
def write (result : Option ℕ) (buf : List UInt8) (len : ℤ) (q : Queue) : Option (ℤ × Queue) :=
  if 0 ≤ len ∧ len ≤ buf.length then
    match result with
    | none => some (-1, q)
    | some n => some (min n len, { q with written := q.written ++ buf.take (min n len.toNat) })
  else none

/-- There is no block of a negative size. -/
def realloc (size : ℤ) (q : Queue) : Option Queue :=
  if 0 ≤ size then
    let block := q.writeBuf.take size.toNat
    some { q with writeBuf := block ++ List.replicate (size.toNat - block.length) 0, writeBufSize := size }
  else none

/-- Up to the next multiple of 512 bytes. -/
def roundUp (n : ℤ) : ℤ :=
  let m := wrap32 (n + 511)
  m - m % 512

def grow (total : ℤ) (q : Queue) : Option Queue :=
  if total > q.writeBufSize then realloc (roundUp total) q else pure q

def addDataToWriteBuffer (data : List UInt8) (start len : ℤ) (q : Queue) : Option Queue :=
  if len = 0 then pure q
  else do
    let q ← grow (wrap32 (q.writeBufLen + len)) q
    let block ← move q.writeBuf q.writeBufLen data start len
    pure { q with writeBuf := block, writeBufLen := wrap32 (q.writeBufLen + len) }

def sendCString (msg : List UInt8) (len : ℤ) (result : Option ℕ) (q : Queue) : Option Queue :=
  if q.masterFd = -1 then pure q
  else if q.writeBufLen ≠ 0 then addDataToWriteBuffer msg 0 len q
  else do
    let (l, q) ← write result msg len q
    if l ≠ len then
      let l := if l < 0 then 0 else l
      addDataToWriteBuffer msg l (len - l) q
    else pure q

/-- The buffer is never freed completely. -/
def shrink (q : Queue) : Option Queue :=
  let size := if roundUp q.writeBufLen = 0 then 512 else roundUp q.writeBufLen
  if size ≤ q.writeBufSize / 2 then realloc size q else pure q

def writePendingData (result : Option ℕ) (q : Queue) : Option Queue := do
  let (l, q) ← write result q.writeBuf q.writeBufLen q
  if l < 0 then pure q
  else
    let block ← move q.writeBuf 0 q.writeBuf l (q.writeBufLen - l)
    shrink { q with writeBuf := block, writeBufLen := q.writeBufLen - l }

inductive Event
  /-- The length of the data is handed over as an `int`. -/
  | send (msg : List UInt8) (result : Option ℕ)
  | writable (result : Option ℕ)

def step (q : Queue) : Event → Option Queue
  | .send msg result => sendCString msg (wrap32 msg.length) result q
  | .writable result => writePendingData result q

/-- What is sent while there is a terminal. -/
def sentData (fd : ℤ) : Event → List UInt8
  | .send msg _ => if fd = -1 then [] else msg
  | .writable _ => []

/-- The bytes that the terminal takes of a send at once. -/
def taken (q : Queue) (len : ℕ) (result : Option ℕ) : ℕ :=
  if q.writeBufLen = 0 then min (result.getD 0) len else 0

/-- The length of the data is one of an `int`, and so is the size of the buffer for what is left over. -/
def Fits (q : Queue) : Event → Prop
  | .send msg result =>
    q.masterFd = -1 ∨
      msg.length < 2 ^ 31 ∧
        (taken q msg.length result = msg.length ∨
          q.writeBufLen + (msg.length - taken q msg.length result : ℕ) ≤ 2 ^ 31 - 512)
  | .writable _ => True

structure Sound (q : Queue) : Prop where
  nonneg : 0 ≤ q.writeBufLen
  within : q.writeBufLen ≤ q.writeBufSize
  block : (q.writeBuf.length : ℤ) = q.writeBufSize
  upper : q.writeBufSize ≤ 2 ^ 31 - 512

def contents (q : Queue) : List UInt8 := q.written ++ pending q

variable {q : Queue} {data msg : List UInt8} {result : Option ℕ} {n start len : ℕ}

section Buffer

lemma realloc_eq (hq : Sound q) {size : ℤ} (hsize : q.writeBufLen ≤ size) :
    ∃ block, realloc size q = some { q with writeBuf := block, writeBufSize := size } ∧
      (block.length : ℤ) = size ∧ block.take q.writeBufLen.toNat = pending q := by
  have hlen := hq.nonneg
  have hwithin := hq.within
  have hblock := hq.block
  refine ⟨_, if_pos (hlen.trans hsize), ?_, ?_⟩
  · rw [List.length_append, List.length_replicate, List.length_take]
    omega
  · have hkept : q.writeBufLen.toNat ≤ (q.writeBuf.take size.toNat).length := by
      rw [List.length_take]
      omega
    have hmin : min q.writeBufLen.toNat size.toNat = q.writeBufLen.toNat := by omega
    rw [List.take_append_of_le_length hkept, List.take_take, hmin]
    rfl

lemma roundUp_eq {m : ℤ} (h0 : 0 ≤ m) (h : m ≤ 2 ^ 31 - 512) : roundUp m = m + 511 - (m + 511) % 512 := by
  rw [roundUp, wrap32_of_mem (by omega) (by omega)]

lemma roundUp_of_large {m : ℤ} (hl : 2 ^ 31 - 512 < m) (hu : m < 2 ^ 31) : roundUp m = -2 ^ 31 := by
  have hwrapped : wrap32 (m + 511) = m + 511 - 2 ^ 32 := by
    rw [← wrap32_of_mem (n := m + 511 - 2 ^ 32) (by omega) (by omega)]
    exact wrap32_of_modEq (Int.modEq_iff_dvd.mpr ⟨-1, by ring⟩)
  rw [roundUp, hwrapped]
  omega

lemma addData_placed (hq : Sound q) (hdata : start + n ≤ data.length)
    (hroom : q.writeBufLen + n ≤ q.writeBufSize) :
    Ensures (move q.writeBuf q.writeBufLen data start n) fun block =>
      block.length = q.writeBuf.length ∧
        block.take (q.writeBufLen + n).toNat = pending q ++ (data.drop start).take n := by
  have hlen := hq.nonneg
  have hblock := hq.block
  obtain ⟨p, hp⟩ := Int.eq_ofNat_of_zero_le hlen
  have hplaced : p + n ≤ q.writeBuf.length := by omega
  have htotal : (q.writeBufLen + n).toNat = p + n := by omega
  have hpending : (pending q).length = p := by
    rw [pending, List.length_take]
    omega
  have hdropped : ((data.drop start).take n).length = n := by
    rw [List.length_take, List.length_drop]
    omega
  have hmoved := move_eq q.writeBuf data hplaced hdata
  rw [← hp] at hmoved
  have htake : q.writeBuf.take p = pending q := by
    rw [pending, hp]
    rfl
  rw [htake] at hmoved
  refine ⟨_, hmoved, ?_, ?_⟩
  · rw [List.length_append, List.length_append, hpending, hdropped, List.length_drop]
    omega
  · rw [htotal, ← List.append_assoc]
    refine (List.take_append_of_le_length ?_).trans (List.take_of_length_le ?_)
    all_goals rw [List.length_append, hpending, hdropped]

lemma grow_spec (hq : Sound q) {total : ℤ} (hless : q.writeBufLen ≤ total) (htotal : total ≤ 2 ^ 31 - 512) :
    Ensures (grow total q) fun r => Sound r ∧ total ≤ r.writeBufSize ∧ r.writeBufLen = q.writeBufLen ∧
      contents r = contents q ∧ r.masterFd = q.masterFd := by
  have hlen := hq.nonneg
  rw [grow]
  split_ifs with hgrows
  · have hsize := roundUp_eq (hlen.trans hless) htotal
    have hwithin : q.writeBufLen ≤ roundUp total := by omega
    obtain ⟨block, hrealloc, hlength, hkept⟩ := realloc_eq hq hwithin
    refine ⟨_, hrealloc, ⟨hlen, ?_, hlength, ?_⟩, ?_, rfl, congrArg (q.written ++ ·) hkept, rfl⟩ <;> simp only <;> omega
  · exact ensures_pure ⟨hq, by omega, rfl, rfl, rfl⟩

lemma addData_spec (hq : Sound q) (hdata : start + n ≤ data.length)
    (hn : n = 0 ∨ q.writeBufLen + n ≤ 2 ^ 31 - 512) :
    Ensures (addDataToWriteBuffer data start n q) fun r =>
      Sound r ∧ contents r = contents q ++ (data.drop start).take n ∧ r.masterFd = q.masterFd := by
  rw [addDataToWriteBuffer]
  split_ifs with hzero
  · obtain rfl := Int.natCast_eq_zero.mp hzero
    exact ensures_pure ⟨hq, (List.append_nil _).symm, rfl⟩
  · have hlen := hq.nonneg
    have hsum : q.writeBufLen + n ≤ 2 ^ 31 - 512 := hn.resolve_left fun h => hzero (by omega)
    have htotal : wrap32 (q.writeBufLen + n) = q.writeBufLen + n := wrap32_of_mem (by omega) (by omega)
    rw [htotal]
    refine (grow_spec hq (by omega) hsum).bind fun r ⟨hr, hroom, hsame, hcontents, hfd⟩ => ?_
    rw [← hsame] at hroom htotal
    refine (addData_placed hr hdata hroom).bind fun block ⟨hlength, htaken⟩ => ?_
    rw [htotal]
    have hrlen := hr.nonneg
    refine ensures_pure ⟨⟨by simp only; omega, hroom, ?_, hr.upper⟩, ?_, hfd⟩
    · rw [hlength]
      exact hr.block
    · rw [contents, pending, htaken, ← List.append_assoc]
      exact congrArg (· ++ _) hcontents

lemma addData_negative (hq : Sound q) {len : ℤ} (hlower : -2 ^ 31 ≤ len) (hlen : len < 0)
    (data : List UInt8) (start : ℤ) : addDataToWriteBuffer data start len q = none := by
  have hnonneg := hq.nonneg
  have hwithin := hq.within
  have hmost := hq.upper
  have hkept : grow (wrap32 (q.writeBufLen + len)) q = some q := by
    rw [wrap32_of_mem (by omega) (by omega)]
    exact if_neg (by omega)
  have hmove : move q.writeBuf q.writeBufLen data start len = none := if_neg (by omega)
  rw [addDataToWriteBuffer, if_neg (by omega)]
  simp only [hkept, Option.bind_eq_bind, Option.bind_some, hmove, Option.bind_none]

lemma addData_large (hq : Sound q) {len : ℤ} (hsum : 2 ^ 31 - 512 < q.writeBufLen + len) (hlen : len < 2 ^ 31)
    (data : List UInt8) (start : ℤ) : addDataToWriteBuffer data start len q = none := by
  have hnonneg := hq.nonneg
  have hwithin := hq.within
  have hmost := hq.upper
  have hblock := hq.block
  rw [addDataToWriteBuffer, if_neg (by omega)]
  by_cases hfits : q.writeBufLen + len < 2 ^ 31
  · have hnone : grow (q.writeBufLen + len) q = none := by
      rw [grow, if_pos (by omega), roundUp_of_large hsum hfits]
      exact if_neg (by decide)
    rw [wrap32_of_mem (by omega) (by omega), hnone]
    rfl
  · -- the sum is negative, and the data is copied to a buffer that is too short for it
    have hwrapped : wrap32 (q.writeBufLen + len) = q.writeBufLen + len - 2 ^ 32 := by
      rw [← wrap32_of_mem (n := q.writeBufLen + len - 2 ^ 32) (by omega) (by omega)]
      exact wrap32_of_modEq (Int.modEq_iff_dvd.mpr ⟨-1, by ring⟩)
    have hkept : grow (wrap32 (q.writeBufLen + len)) q = some q := by
      rw [hwrapped]
      exact if_neg (by omega)
    have hmove : move q.writeBuf q.writeBufLen data start len = none := by
      refine if_neg fun h => ?_
      rcases h.2.1 with h | h <;> omega
    simp only [hkept, Option.bind_eq_bind, Option.bind_some, hmove, Option.bind_none]

end Buffer

section Steps

def Queue.taking (q : Queue) (text : List UInt8) : Queue := { q with written := q.written ++ text }

lemma taking_nil (q : Queue) : q.taking [] = q := by rw [Queue.taking, List.append_nil]

lemma taking_sound (hq : Sound q) (text : List UInt8) : Sound (q.taking text) := ⟨hq.1, hq.2, hq.3, hq.4⟩

lemma taken_le (q : Queue) (len : ℕ) (result : Option ℕ) : taken q len result ≤ len := by
  rw [taken]
  split_ifs
  · exact min_le_right _ _
  · exact Nat.zero_le _

lemma pending_eq_nil (h : q.writeBufLen = 0) : pending q = [] := by
  rw [pending, h]
  rfl

lemma write_none (h : len ≤ msg.length) (q : Queue) : write none msg len q = some (-1, q) :=
  if_pos (by omega)

lemma write_some (h : len ≤ msg.length) (n : ℕ) (q : Queue) :
    write (some n) msg len q = some (((min n len : ℕ) : ℤ), q.taking (msg.take (min n len))) := by
  have hmin : (min n len : ℤ) = (min n len : ℕ) := by omega
  refine (if_pos (by omega)).trans ?_
  simp only [hmin, Int.toNat_natCast, Queue.taking]

lemma sendCString_eq (hfd : q.masterFd ≠ -1) (hlen : len ≤ msg.length) :
    sendCString msg len result q = addDataToWriteBuffer msg (taken q len result) (len - taken q len result : ℕ)
      (q.taking (msg.take (taken q len result))) := by
  rw [sendCString, if_neg hfd, taken]
  by_cases hempty : q.writeBufLen = 0
  · rw [if_neg (not_not.mpr hempty), if_pos hempty]
    cases result with
    | none =>
      have hzero : min ((none : Option ℕ).getD 0) len = 0 := Nat.zero_min len
      have hdiffers : (-1 : ℤ) ≠ len := by omega
      simp only [write_none hlen, Option.bind_eq_bind, Option.bind_some, if_pos hdiffers, hzero, List.take_zero,
        taking_nil]
      rfl
    | some n =>
      simp only [write_some hlen, Option.bind_eq_bind, Option.bind_some, Option.getD_some]
      by_cases hall : min n len = len
      · rw [hall, if_neg (not_not.mpr rfl), Nat.sub_self]
        rfl
      · have hless : min n len ≤ len := min_le_right n len
        rw [if_pos (by omega), if_neg (by omega), Nat.cast_sub hless]
  · rw [if_pos hempty, if_neg hempty, List.take_zero, taking_nil]
    rfl

lemma sendCString_spec (hq : Sound q) (hfd : q.masterFd ≠ -1) (hlen : len ≤ msg.length)
    (h : taken q len result = len ∨ q.writeBufLen + (len - taken q len result : ℕ) ≤ 2 ^ 31 - 512) :
    Ensures (sendCString msg len result q) fun r =>
      Sound r ∧ contents r = contents q ++ msg.take len ∧ r.masterFd = q.masterFd := by
  have hless := taken_le q len result
  have hn : len - taken q len result = 0 ∨ q.writeBufLen + (len - taken q len result : ℕ) ≤ 2 ^ 31 - 512 := by
    apply h.imp_left
    omega
  rw [sendCString_eq hfd hlen]
  refine (addData_spec (taking_sound hq _) (by omega) hn).imp fun r ⟨hr, hcontents, hsame⟩ => ⟨hr, ?_, hsame⟩
  have htaken : msg.take len = msg.take (taken q len result) ++ (msg.drop (taken q len result)).take
      (len - taken q len result) := by
    rw [← List.take_add, Nat.add_sub_cancel' hless]
  rw [hcontents, htaken]
  by_cases hempty : q.writeBufLen = 0
  · have hnil : pending (q.taking (msg.take (taken q len result))) = [] := pending_eq_nil hempty
    rw [contents, contents, hnil, pending_eq_nil hempty, List.append_nil, List.append_nil, ← List.append_assoc]
    rfl
  · rw [taken, if_neg hempty, List.take_zero, taking_nil, List.nil_append]

lemma sendCString_none (hq : Sound q) (hfd : q.masterFd ≠ -1) (hlen : len ≤ msg.length) (hint : len < 2 ^ 31)
    (h : 2 ^ 31 - 512 < q.writeBufLen + (len - taken q len result : ℕ)) :
    sendCString msg len result q = none := by
  rw [sendCString_eq hfd hlen]
  exact addData_large (taking_sound hq _) h (by omega) msg _

lemma sendCString_negative (hq : Sound q) (hfd : q.masterFd ≠ -1) {len : ℤ} (hlower : -2 ^ 31 ≤ len)
    (hlen : len < 0) : sendCString msg len result q = none := by
  rw [sendCString, if_neg hfd]
  split_ifs
  · exact addData_negative hq hlower hlen msg 0
  · have hnone : write result msg len q = none := if_neg (by omega)
    rw [hnone]
    rfl

lemma shrink_spec (hq : Sound q) :
    Ensures (shrink q) fun r => Sound r ∧ contents r = contents q ∧ r.masterFd = q.masterFd := by
  have hnonneg := hq.nonneg
  have hwithin := hq.within
  have hmost := hq.upper
  have hsize := roundUp_eq hnonneg (hwithin.trans hmost)
  have hroom (size : ℤ) (hleast : q.writeBufLen ≤ size) (hhalf : size ≤ q.writeBufSize / 2) :
      Ensures (realloc size q) fun r => Sound r ∧ contents r = contents q ∧ r.masterFd = q.masterFd := by
    obtain ⟨block, hrealloc, hlength, hkept⟩ := realloc_eq hq hleast
    exact ⟨_, hrealloc, ⟨hnonneg, hleast, hlength, by simp only; omega⟩, congrArg (q.written ++ ·) hkept, rfl⟩
  rw [shrink]
  split_ifs with hzero hhalf hhalf
  · exact hroom 512 (by omega) hhalf
  · exact ensures_pure ⟨hq, rfl, rfl⟩
  · exact hroom _ (by omega) hhalf
  · exact ensures_pure ⟨hq, rfl, rfl⟩

lemma writePendingData_spec (hq : Sound q) (result : Option ℕ) :
    Ensures (writePendingData result q) fun r => Sound r ∧ contents r = contents q ∧ r.masterFd = q.masterFd := by
  have hnonneg := hq.nonneg
  have hwithin := hq.within
  have hblock := hq.block
  have hmost := hq.upper
  obtain ⟨p, hp⟩ := Int.eq_ofNat_of_zero_le hnonneg
  have hcount : p ≤ q.writeBuf.length := by omega
  cases result with
  | none =>
    simp only [writePendingData, hp, write_none hcount, Option.bind_eq_bind, Option.bind_some]
    exact ensures_pure ⟨hq, rfl, rfl⟩
  | some n =>
    have hless : min n p ≤ p := min_le_right n p
    have hrest : (p : ℤ) - (min n p : ℕ) = (p - min n p : ℕ) := by omega
    have hmoved := move_eq q.writeBuf q.writeBuf (d := 0) (s := min n p) (n := p - min n p) (by omega) (by omega)
    rw [Nat.cast_zero, List.take_zero, List.nil_append, Nat.zero_add] at hmoved
    let rest : Queue :=
      { q.taking (q.writeBuf.take (min n p)) with
        writeBuf := (q.writeBuf.drop (min n p)).take (p - min n p) ++ q.writeBuf.drop (p - min n p)
        writeBufLen := (p - min n p : ℕ) }
    have hwritten : writePendingData (some n) q = shrink rest := by
      simp only [writePendingData, hp, write_some hcount, Option.bind_eq_bind, Option.bind_some, Queue.taking,
        hrest, hmoved]
      exact if_neg (by omega)
    have hkept : ((q.writeBuf.drop (min n p)).take (p - min n p)).length = p - min n p := by
      rw [List.length_take, List.length_drop]
      omega
    have hsound : Sound rest := by
      refine ⟨Int.natCast_nonneg _, ?_, ?_, hmost⟩
      · have hpless : ((p - min n p : ℕ) : ℤ) ≤ p := by omega
        exact (hpless.trans hp.ge).trans hwithin
      · simp only [rest, Queue.taking, List.length_append, hkept, List.length_drop]
        omega
    have hcontents : contents rest = contents q := by
      have htake : q.writeBuf.take p =
          q.writeBuf.take (min n p) ++ (q.writeBuf.drop (min n p)).take (p - min n p) := by
        rw [← List.take_add, Nat.add_sub_cancel' hless]
      simp only [rest, Queue.taking, contents, pending, hp, Int.toNat_natCast]
      rw [htake, ← List.append_assoc, List.take_append_of_le_length hkept.ge, List.take_of_length_le hkept.le]
    rw [hwritten]
    exact (shrink_spec hsound).imp fun r ⟨hr, hsame, hfd⟩ => ⟨hr, hsame.trans hcontents, hfd⟩

lemma step_spec (hq : Sound q) {e : Event} (he : Fits q e) :
    Ensures (step q e) fun r =>
      Sound r ∧ contents r = contents q ++ sentData q.masterFd e ∧ r.masterFd = q.masterFd := by
  cases e with
  | send msg result =>
    rw [step, sentData]
    by_cases hfd : q.masterFd = -1
    · rw [sendCString, if_pos hfd, if_pos hfd]
      exact ensures_pure ⟨hq, (List.append_nil _).symm, rfl⟩
    · obtain ⟨hlen, hfits⟩ := he.resolve_left hfd
      rw [wrap32_of_mem (by omega) (by omega), if_neg hfd]
      have hsent := sendCString_spec hq hfd le_rfl hfits
      rw [List.take_length] at hsent
      exact hsent
  | writable result =>
    refine (writePendingData_spec hq result).imp fun r ⟨hr, hcontents, hfd⟩ => ⟨hr, ?_, hfd⟩
    rw [hcontents, sentData, List.append_nil]

lemma fits_of_step (hq : Sound q) {e : Event}
    (h : Ensures (step q e) fun r => contents r = contents q ++ sentData q.masterFd e) : Fits q e := by
  cases e with
  | writable result => trivial
  | send msg result =>
    refine or_iff_not_imp_left.mpr fun hfd => ?_
    obtain ⟨r, hr, hcontents⟩ := h
    rw [sentData, if_neg hfd] at hcontents
    rw [step] at hr
    have hnonneg : 0 ≤ wrap32 msg.length := by
      refine not_lt.mp fun hneg => ?_
      rw [sendCString_negative hq hfd (wrap32_lower _) hneg] at hr
      cases hr
    obtain ⟨len, hlen⟩ := Int.eq_ofNat_of_zero_le hnonneg
    have hint : len < 2 ^ 31 := by
      have hupper := wrap32_upper msg.length
      omega
    have hless : len ≤ msg.length := by
      by_contra hmore
      have hexact := wrap32_of_mem (n := msg.length) (by omega) (by omega)
      omega
    rw [hlen] at hr
    have hfits : taken q len result = len ∨ q.writeBufLen + (len - taken q len result : ℕ) ≤ 2 ^ 31 - 512 := by
      refine or_iff_not_imp_right.mpr fun hlarge => ?_
      rw [sendCString_none hq hfd hless hint (not_le.mp hlarge)] at hr
      cases hr
    obtain ⟨t, ht, -, hsent, -⟩ := sendCString_spec hq hfd hless hfits
    obtain rfl := Option.some.inj (hr.symm.trans ht)
    -- all of the data has been sent, so that its length is the one handed over
    have hall : (msg.take len).length = msg.length := by
      rw [List.append_cancel_left (hsent.symm.trans hcontents)]
    rw [List.length_take, Nat.min_eq_left hless] at hall
    subst hall
    exact ⟨hint, hfits⟩

end Steps

section Runs

lemma opened_sound (fd : ℤ) : Sound (opened fd) := ⟨le_rfl, le_rfl, rfl, (by decide : (0 : ℤ) ≤ 2 ^ 31 - 512)⟩

def InOrder (fd : ℤ) (past : List Event) (q : Queue) : Prop :=
  q.written ++ pending q = past.flatMap (sentData fd) ∧ q.writeBufLen ≤ q.writeBufSize

structure Kept (fd : ℤ) (past : List Event) (q : Queue) : Prop where
  sound : Sound q
  contents : contents q = past.flatMap (sentData fd)
  masterFd : q.masterFd = fd

lemma Kept.inOrder {fd : ℤ} {past : List Event} (h : Kept fd past q) : InOrder fd past q :=
  ⟨h.contents, h.sound.within⟩

lemma flatMap_sent (fd : ℤ) (past : List Event) (e : Event) :
    (past ++ [e]).flatMap (sentData fd) = past.flatMap (sentData fd) ++ sentData fd e := by
  rw [List.flatMap_append, List.flatMap_singleton]

lemma Kept.step {fd : ℤ} {past : List Event} {e : Event} (h : Kept fd past q) (he : Fits q e) :
    Ensures (step q e) (Kept fd (past ++ [e])) := by
  refine (step_spec h.sound he).imp fun r ⟨hr, hsent, hsame⟩ => ⟨hr, ?_, hsame.trans h.masterFd⟩
  rw [hsent, h.contents, h.masterFd, flatMap_sent]

lemma Kept.fits {fd : ℤ} {past : List Event} {e : Event} (h : Kept fd past q)
    (hstep : Ensures (OutputQueue.step q e) (InOrder fd (past ++ [e]))) : Fits q e := by
  refine fits_of_step h.sound (hstep.imp fun r ⟨hsent, _⟩ => ?_)
  rw [h.contents, h.masterFd, ← flatMap_sent]
  exact hsent

theorem queue_keepsOrder_iff (fd : ℤ) (es : List Event) :
    (∀ n, Ensures (tryRun step (opened fd) (es.take n)) fun q =>
        q.written ++ pending q = (es.take n).flatMap (sentData fd) ∧ q.writeBufLen ≤ q.writeBufSize) ↔
      Admits step Fits (opened fd) es := by
  have hpost (past : List Event) (q : Queue) : Kept fd past q → InOrder fd past q := Kept.inOrder
  have hstart : Kept fd [] (opened fd) := ⟨opened_sound fd, rfl, rfl⟩
  exact tryRun_iff hpost (fun _ _ _ => Kept.step) (fun _ _ _ => Kept.fits) hstart es

/-- The terminal takes nothing, and the size of the buffer for the data is 2 ^ 31 bytes. -/
theorem large_send_overflows :
    ¬∀ n, Ensures (tryRun step (opened 3) ([.send (List.replicate 2147483137 97) none].take n)) fun q =>
      q.written ++ pending q = ([.send (List.replicate 2147483137 97) none].take n).flatMap (sentData 3) ∧
        q.writeBufLen ≤ q.writeBufSize := by
  intro h
  obtain ⟨q, hq, -⟩ := h 1
  rw [List.take_succ_cons, List.take_zero, tryRun, List.foldlM_cons, step, List.length_replicate] at hq
  have hnone : sendCString (List.replicate 2147483137 97) (wrap32 (2147483137 : ℕ)) none (opened 3) = none := by
    rw [wrap32_of_mem (by omega) (by omega)]
    refine sendCString_none (opened_sound 3) (by decide) List.length_replicate.ge (by omega) ?_
    have htaken : taken (opened 3) 2147483137 none = 0 := rfl
    have hempty : (opened 3).writeBufLen = 0 := rfl
    rw [htaken, hempty]
    decide
  rw [hnone] at hq
  cases hq

end Runs

end Xperimentum.Terminal.OutputQueue
