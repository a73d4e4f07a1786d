import Xperimentum.Lib.Runs
import Xperimentum.Pantomime.Data

/-! The output of `CWService`: what is written waits in `_wbuf` for the connection. -/

namespace Xperimentum.Pantomime.ServiceOutput

open Xperimentum.Lib.Runs

/-- `sent` are the bytes the connection has taken, and `sentData` what the delegate was told. -/
structure Service where
  wbuf : Bytes := []
  connected : Bool := false
  runLoopModes : List String := ["NSDefaultRunLoopMode"]
  writeWatchers : Finset String := ∅
  sent : Bytes := []
  sentData : List Bytes := []

/-- Of the bytes a connection is given, it takes as many as it can. -/
inductive WriteResult
  | failed
  | taken (n : ℕ)
  deriving DecidableEq, Repr

def WriteResult.count : WriteResult → ℕ → ℤ
  | .failed, _ => -1
  | .taken n, len => min n len

/-- `memmove` inside a buffer. -/
def memmove (bytes : Bytes) (from_ len : ℕ) : Bytes := (bytes.drop from_).take len ++ bytes.drop len

def addWatchers (s : Service) : Service := { s with writeWatchers := s.writeWatchers ∪ s.runLoopModes.toFinset }

def removeWatchers (s : Service) : Service := { s with writeWatchers := s.writeWatchers \ s.runLoopModes.toFinset }

def writeData (theData : Option Bytes) (s : Service) : Service :=
  match theData with
  | some data =>
    if 0 < data.length then
      let s := { s with wbuf := s.wbuf ++ data }
      if s.connected then addWatchers s else s
    else s
  | none => s

def updateWrite (result : WriteResult) (s : Service) : Service :=
  if 0 < s.wbuf.length then
    let len := s.wbuf.length
    let count := result.count len
    if count ≤ 0 then s
    else
      let taken := s.wbuf.take count.toNat
      let s := { s with sent := s.sent ++ taken, sentData := s.sentData ++ [taken] }
      if count = len then removeWatchers { s with wbuf := [] }
      else { s with wbuf := (memmove s.wbuf count.toNat (len - count.toNat)).take (len - count.toNat) }
  else s

inductive Event
  | writeData (theData : Option Bytes)
  | updateWrite (result : WriteResult)
  deriving DecidableEq, Repr

def step (s : Service) : Event → Service
  | .writeData theData => ServiceOutput.writeData theData s
  | .updateWrite result => ServiceOutput.updateWrite result s

/-- The data passed to `writeData:`. -/
def Event.data : Event → Bytes
  | .writeData theData => theData.getD []
  | .updateWrite _ => []

variable {s : Service}

lemma take_memmove {bytes : Bytes} {n : ℕ} (h : n ≤ bytes.length) :
    (memmove bytes n (bytes.length - n)).take (bytes.length - n) = bytes.drop n := by
  have hlength : (bytes.drop n).length = bytes.length - n := List.length_drop
  rw [memmove, List.take_of_length_le hlength.le, ← hlength, List.take_left]

lemma writeData_pending (theData : Option Bytes) (s : Service) :
    (writeData theData s).sent = s.sent ∧ (writeData theData s).wbuf = s.wbuf ++ theData.getD [] := by
  cases theData with
  | none => exact ⟨rfl, (List.append_nil s.wbuf).symm⟩
  | some data =>
    simp only [writeData]
    split_ifs with hdata hconnected
    · exact ⟨rfl, rfl⟩
    · exact ⟨rfl, rfl⟩
    · have hnil : data = [] := List.length_eq_zero_iff.mp (by omega)
      exact ⟨rfl, by rw [hnil, Option.getD_some, List.append_nil]⟩

/-- What a write can do: nothing, or to hand over bytes from the front of the buffer. -/
lemma updateWrite_cases (result : WriteResult) (s : Service) : updateWrite result s = s ∨
    ∃ n, 0 < n ∧ n ≤ s.wbuf.length ∧ (updateWrite result s).sent = s.sent ++ s.wbuf.take n ∧
      (updateWrite result s).wbuf = s.wbuf.drop n ∧
      (updateWrite result s).sentData = s.sentData ++ [s.wbuf.take n] := by
  cases result with
  | failed =>
    left
    simp [updateWrite, WriteResult.count]
  | taken k =>
    by_cases hlen : 0 < s.wbuf.length
    swap
    · exact .inl (if_neg hlen)
    by_cases hcount : WriteResult.count (.taken k) s.wbuf.length ≤ 0
    · left
      simp only [updateWrite, if_pos hlen, if_pos hcount]
    right
    have hle : (WriteResult.count (.taken k) s.wbuf.length).toNat ≤ s.wbuf.length := by
      simp only [WriteResult.count]
      omega
    refine ⟨(WriteResult.count (.taken k) s.wbuf.length).toNat, by omega, hle, ?_⟩
    by_cases hall : WriteResult.count (.taken k) s.wbuf.length = s.wbuf.length
    · simp only [updateWrite, if_pos hlen, if_neg hcount, if_pos hall]
      refine ⟨rfl, ?_, rfl⟩
      rw [hall, Int.toNat_natCast, List.drop_length]
      rfl
    · simp only [updateWrite, if_pos hlen, if_neg hcount, if_neg hall]
      exact ⟨trivial, take_memmove hle, trivial⟩

lemma step_pending (s : Service) (e : Event) :
    (step s e).sent ++ (step s e).wbuf = s.sent ++ s.wbuf ++ e.data := by
  cases e with
  | writeData theData =>
    obtain ⟨hsent, hwbuf⟩ := writeData_pending theData s
    rw [step, hsent, hwbuf, List.append_assoc]
    rfl
  | updateWrite result =>
    rw [step, Event.data, List.append_nil]
    obtain h | ⟨n, -, -, hsent, hwbuf, -⟩ := updateWrite_cases result s
    · rw [h]
    · rw [hsent, hwbuf, List.append_assoc, List.take_append_drop]

lemma run_pending (s : Service) (es : List Event) :
    (run step s es).sent ++ (run step s es).wbuf = s.sent ++ s.wbuf ++ es.flatMap Event.data := by
  induction es generalizing s with
  | nil => exact (List.append_nil _).symm
  | cons e es ih => rw [run_cons, ih, step_pending, List.flatMap_cons, List.append_assoc]

/-- No byte written is lost, sent twice or moved: what the connection took and what still waits are the data. -/
theorem sent_append_wbuf (connected : Bool) (runLoopModes : List String) (es : List Event) :
    (run step { connected := connected, runLoopModes := runLoopModes } es).sent ++
        (run step { connected := connected, runLoopModes := runLoopModes } es).wbuf =
      es.flatMap Event.data :=
  run_pending _ es

section Watchers

/-- A connected service is called again while there is something to write. -/
def Watched (s : Service) : Prop :=
  s.connected = true → s.wbuf ≠ [] → ∀ mode ∈ s.runLoopModes, mode ∈ s.writeWatchers

lemma step_watched (s : Service) (e : Event) (h : Watched s) : Watched (step s e) := by
  cases e with
  | writeData theData =>
    cases theData with
    | none => exact h
    | some data =>
      simp only [step, writeData]
      split_ifs with hdata hconnected
      · intro _ _ mode hmode
        exact Finset.mem_union_right _ (List.mem_toFinset.mpr hmode)
      · exact fun hc => absurd hc hconnected
      · exact h
  | updateWrite result =>
    simp only [step, updateWrite]
    split_ifs with hlen hcount hall
    · exact h
    · exact fun _ hne => absurd rfl hne
    · exact fun hc _ => h hc (List.ne_nil_of_length_pos hlen)
    · exact h

end Watchers

end Xperimentum.Pantomime.ServiceOutput
