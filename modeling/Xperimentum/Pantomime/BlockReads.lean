import Xperimentum.Pantomime.Data

/-! `read_block`. The results of `read` are a sequence; each call takes the next one, and no more bytes of it than are
asked for. -/

namespace Xperimentum.Pantomime.BlockReads

/-- Without any bytes, the end of the file has been reached. -/
inductive ReadResult
  | bytes (b : Bytes)
  | interrupted
  | failed

/-- The buffer where the block has been read, and nothing inside for `-1`; without fuel, the loop goes on. -/
def readFrom (count : ℕ) (results : ℕ → ReadResult) : ℕ → ℕ → Bytes → Option (Option Bytes)
  | 0, _, buf => if buf.length < count then none else some (some buf)
  | n + 1, i, buf =>
    if buf.length < count then
      match results i with
      | .failed => some none
      | .interrupted => readFrom count results n (i + 1) buf
      | .bytes b => readFrom count results n (i + 1) (buf ++ b.take (count - buf.length))
    else some (some buf)

def readBlock (count : ℕ) (results : ℕ → ReadResult) (n : ℕ) : Option (Option Bytes) := readFrom count results n 0 []

def ReadResult.read : ReadResult → Bytes
  | .bytes b => b
  | _ => []

/-- The bytes of a number of results from a place on. -/
def delivered (results : ℕ → ReadResult) (i : ℕ) : ℕ → Bytes
  | 0 => []
  | n + 1 => (results i).read ++ delivered results (i + 1) n

variable {count : ℕ} {results : ℕ → ReadResult} {buf : Bytes} {i n : ℕ}

lemma readFrom_full (h : count ≤ buf.length) : readFrom count results n i buf = some (some buf) := by
  cases n <;> exact if_neg (not_lt.mpr h)

lemma readFrom_missing (h : buf.length < count) : readFrom count results (n + 1) i buf =
    match results i with
    | .failed => some none
    | .interrupted => readFrom count results n (i + 1) buf
    | .bytes b => readFrom count results n (i + 1) (buf ++ b.take (count - buf.length)) :=
  if_pos h

lemma take_append_missing (hbuf : buf.length ≤ count) (b rest : Bytes) :
    (buf ++ b.take (count - buf.length) ++ rest).take count = (buf ++ (b ++ rest)).take count := by
  rw [List.append_assoc, List.take_append, List.take_append, List.take_append, List.take_append, List.take_take,
    min_self, List.length_take]
  congr 2
  by_cases h : count - buf.length ≤ b.length
  · rw [min_eq_left h, Nat.sub_self, Nat.sub_eq_zero_of_le h, List.take_zero]
  · rw [min_eq_right (by omega)]

/-- The buffer has the first bytes of the results, as many as are asked for. -/
lemma readFrom_bytes (hbuf : buf.length ≤ count) {b : Bytes} (h : readFrom count results n i buf = some (some b)) :
    b = (buf ++ delivered results i n).take count ∧ b.length = count := by
  induction n generalizing i buf with
  | zero =>
    by_cases hlt : buf.length < count
    · rw [readFrom, if_pos hlt] at h
      cases h
    · rw [readFrom_full (not_lt.mp hlt)] at h
      cases h
      have hlength := le_antisymm hbuf (not_lt.mp hlt)
      exact ⟨by rw [← hlength, List.take_left], hlength⟩
  | succ n ih =>
    by_cases hlt : buf.length < count
    swap
    · rw [readFrom_full (not_lt.mp hlt)] at h
      cases h
      have hlength := le_antisymm hbuf (not_lt.mp hlt)
      exact ⟨by rw [← hlength, List.take_left], hlength⟩
    rw [readFrom_missing hlt] at h
    rw [delivered]
    cases hresult : results i with
    | failed =>
      rw [hresult] at h
      cases h
    | interrupted =>
      rw [hresult] at h
      exact ih hbuf h
    | bytes b' =>
      rw [hresult] at h
      have hlength : (buf ++ b'.take (count - buf.length)).length ≤ count := by
        rw [List.length_append, List.length_take]
        omega
      obtain ⟨hb, hcount⟩ := ih hlength h
      rw [take_append_missing hbuf] at hb
      exact ⟨hb, hcount⟩

lemma readFrom_returns (h : results (i + n) = .failed ∨ count ≤ buf.length + (delivered results i n).length) :
    ∃ r, readFrom count results (n + 1) i buf = some r := by
  induction n generalizing i buf with
  | zero =>
    by_cases hlt : buf.length < count
    · rcases h with h | h
      · rw [readFrom_missing hlt, show results i = .failed from h]
        exact ⟨none, rfl⟩
      · exact absurd h (not_le.mpr hlt)
    · exact ⟨some buf, readFrom_full (not_lt.mp hlt)⟩
  | succ n ih =>
    by_cases hlt : buf.length < count
    swap
    · exact ⟨some buf, readFrom_full (not_lt.mp hlt)⟩
    rw [readFrom_missing hlt]
    have hnext : results (i + 1 + n) = results (i + (n + 1)) := by rw [Nat.add_right_comm, Nat.add_assoc]
    rw [← hnext, delivered, List.length_append] at h
    cases hresult : results i with
    | failed => exact ⟨none, rfl⟩
    | interrupted =>
      rw [hresult, ReadResult.read, List.length_nil, Nat.zero_add] at h
      · exact ih h
      · rintro b ⟨⟩
    | bytes b =>
      rw [hresult, ReadResult.read] at h
      refine ih (h.imp_right fun h => ?_)
      rw [List.length_append, List.length_take]
      omega

lemma readFrom_enough {r : Option Bytes} (h : readFrom count results n i buf = some r) :
    ∃ m, results (i + m) = .failed ∨ count ≤ buf.length + (delivered results i m).length := by
  induction n generalizing i buf with
  | zero =>
    by_cases hlt : buf.length < count
    · rw [readFrom, if_pos hlt] at h
      cases h
    · exact ⟨0, .inr (not_lt.mp hlt)⟩
  | succ n ih =>
    by_cases hlt : buf.length < count
    swap
    · exact ⟨0, .inr (not_lt.mp hlt)⟩
    rw [readFrom_missing hlt] at h
    cases hresult : results i with
    | failed => exact ⟨0, .inl hresult⟩
    | interrupted =>
      rw [hresult] at h
      obtain ⟨m, hm⟩ := ih h
      refine ⟨m + 1, ?_⟩
      rw [delivered, hresult, Nat.add_comm m 1, ← Nat.add_assoc]
      exact hm
    | bytes b =>
      rw [hresult] at h
      obtain ⟨m, hm⟩ := ih h
      refine ⟨m + 1, ?_⟩
      rw [delivered, hresult, ReadResult.read, Nat.add_comm m 1, ← Nat.add_assoc, List.length_append]
      refine hm.imp_right fun hm => ?_
      rw [List.length_append, List.length_take] at hm
      omega

/-- A block is returned, or an error, when the results have as many bytes as are asked for, or an error that is not an
interruption. -/
theorem readBlock_returns (count : ℕ) (results : ℕ → ReadResult) :
    (∃ n r, readBlock count results n = some r ∧
        ∀ b, r = some b → b = (delivered results 0 n).take count ∧ b.length = count) ↔
      ∃ m, results m = .failed ∨ count ≤ (delivered results 0 m).length := by
  constructor
  · rintro ⟨n, r, hr, -⟩
    obtain ⟨m, hm⟩ := readFrom_enough hr
    rw [Nat.zero_add, List.length_nil, Nat.zero_add] at hm
    exact ⟨m, hm⟩
  · rintro ⟨m, hm⟩
    have h : results (0 + m) = .failed ∨ count ≤ ([] : Bytes).length + (delivered results 0 m).length := by
      rwa [Nat.zero_add, List.length_nil, Nat.zero_add]
    obtain ⟨r, hr⟩ := readFrom_returns h
    refine ⟨m + 1, r, hr, ?_⟩
    rintro b rfl
    have hbytes := readFrom_bytes (Nat.zero_le count) hr
    exact hbytes

lemma delivered_end (i m : ℕ) : delivered (fun _ => .bytes []) i m = [] := by
  induction m generalizing i with
  | zero => rfl
  | succ m ih => exact ih (i + 1)

/-- The end of the file is in front of the first byte. -/
theorem not_readBlock_returns : ¬∀ (count : ℕ) (results : ℕ → ReadResult),
    ∃ n r, readBlock count results n = some r ∧
      ∀ b, r = some b → b = (delivered results 0 n).take count ∧ b.length = count := by
  intro h
  obtain ⟨n, r, hr, -⟩ := h 1 fun _ => .bytes []
  obtain ⟨m, hm | hm⟩ := readFrom_enough hr
  · cases hm
  · rw [delivered_end] at hm
    exact absurd hm (by decide)

end Xperimentum.Pantomime.BlockReads
