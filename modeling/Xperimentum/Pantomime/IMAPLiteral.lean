import Mathlib.Tactic
import Xperimentum.Pantomime.IMAPReader

/-! Literals: when the octets of a literal and the rest of its response come out of `updateRead` as the server
sent them, however the stream is cut into reads. -/

namespace Xperimentum.Pantomime.IMAPReader

open Xperimentum.Lib.Int32 IMAPStore

section Lines

variable {a b l r : Bytes}

/-- The octets after the last CRLF. -/
def lastPiece : Bytes → Bytes → Bytes
  | piece, a :: b :: rest =>
    if a = 13 ∧ b = 10 then lastPiece [] rest else lastPiece (piece ++ [a]) (b :: rest)
  | piece, rest => piece ++ rest

lemma lastPiece_none (h : splitLines b = none) (piece : Bytes) : lastPiece piece b = piece ++ b := by
  induction b generalizing piece with
  | nil => rfl
  | cons x b ih =>
    cases b with
    | nil => rfl
    | cons y b =>
      simp only [splitLines] at h
      split_ifs at h with hxy
      simp only [lastPiece, if_neg hxy]
      rw [ih (Option.map_eq_none_iff.mp h), List.append_assoc]
      rfl

lemma lastPiece_some (h : splitLines b = some (l, r)) (piece : Bytes) : lastPiece piece b = lastPiece [] r := by
  induction b generalizing piece l with
  | nil => cases h
  | cons x b ih =>
    cases b with
    | nil => cases h
    | cons y b =>
      simp only [splitLines] at h
      split_ifs at h with hxy
      · obtain ⟨-, rfl⟩ := Prod.mk.inj (Option.some.inj h)
        simp only [lastPiece, if_pos hxy]
      · obtain ⟨⟨l', r'⟩, hrest, heq⟩ := Option.map_eq_some_iff.mp h
        obtain ⟨-, rfl⟩ := Prod.mk.inj heq
        simp only [lastPiece, if_neg hxy]
        exact ih hrest _

end Lines

section Reads

variable {p : Kind → Store → Outcome Store} {s t u : Reader}

/-- The reader with other bytes in its buffer. -/
def Reader.withRbuf (s : Reader) (rbuf : Bytes) : Reader := { s with rbuf := rbuf }

lemma Outcome.map_map {S T U : Type} (o : Outcome S) (f : S → T) (g : T → U) :
    (o.map f).map g = o.map fun s => g (f s) := by
  cases o <;> rfl

lemma handleResponse_withRbuf (aData r : Bytes) (s : Reader) :
    handleResponse p aData (s.withRbuf r) = (handleResponse p aData s).map fun t => t.withRbuf r := by
  simp only [handleResponse, Outcome.map_map]
  rfl

lemma finishLiteral_withRbuf (r : Bytes) (s : Reader) :
    finishLiteral p (s.withRbuf r) = (finishLiteral p s).map fun t => t.withRbuf r := by
  cases hr : s.store.responses with
  | nil => simp only [finishLiteral, Reader.withRbuf, hr, Outcome.map]
  | cons aData rest =>
    have h := handleResponse_withRbuf (p := p) aData r s
    simp only [finishLiteral, Reader.withRbuf, hr] at h ⊢
    exact h

lemma receiveLiteral_withRbuf (aData r : Bytes) (s : Reader) :
    receiveLiteral p aData (s.withRbuf r) = (receiveLiteral p aData s).map fun t => t.withRbuf r := by
  have hstore : (s.withRbuf r).store = s.store := rfl
  simp only [receiveLiteral, hstore]
  split_ifs
  · rfl
  · exact finishLiteral_withRbuf r { s with store := cutLine _ aData { s.store with literal := _ } }
  · rfl
  · rfl

lemma receiveLine_withRbuf (aData r : Bytes) (s : Reader) :
    receiveLine p aData (s.withRbuf r) = (receiveLine p aData s).map fun t => t.withRbuf r := by
  have hstore : (s.withRbuf r).store = s.store := rfl
  have hawaiting : (s.withRbuf r).awaiting = s.awaiting := rfl
  simp only [receiveLine, hstore, hawaiting]
  split_ifs
  · exact finishLiteral_withRbuf r { s with awaiting := false, store := addResponse aData s.store }
  · exact receiveLiteral_withRbuf aData r s
  · exact handleResponse_withRbuf aData r { s with store := announce aData (addResponse aData s.store) }

/-- The loop, on whatever is in the buffer. -/
def drain (p : Kind → Store → Outcome Store) (s : Reader) : Reader := readLines p s.rbuf.length s

/-- Where the loop goes after a line, with the bytes behind it in the buffer. -/
def goesOn (p : Kind → Store → Outcome Store) (rest : Bytes) : Outcome Reader → Reader
  | .continues t => drain p (t.withRbuf rest)
  | .leaves t | .outOfRange t => t.withRbuf rest

lemma readLines_none (h : splitLines s.rbuf = none) (n : ℕ) : readLines p n s = s := by
  cases n with
  | zero => rfl
  | succ n => simp only [readLines, h]

lemma readLines_some {l r : Bytes} (h : splitLines s.rbuf = some (l, r)) (n : ℕ) :
    readLines p (n + 1) s =
      match receiveLine p l s with
      | .continues t => readLines p n (t.withRbuf r)
      | .leaves t | .outOfRange t => t.withRbuf r := by
  have hrbuf := receiveLine_withRbuf (p := p) l r s
  simp only [Reader.withRbuf] at hrbuf
  simp only [readLines, h, hrbuf]
  cases receiveLine p l s <;> rfl

lemma readLines_drain (n : ℕ) (s : Reader) (h : s.rbuf.length ≤ n) : readLines p n s = drain p s := by
  induction n using Nat.strong_induction_on generalizing s with
  | _ n ih =>
    cases hs : splitLines s.rbuf with
    | none => rw [drain, readLines_none hs, readLines_none hs]
    | some line =>
      obtain ⟨l, r⟩ := line
      have hlength := congrArg List.length (splitLines_some hs).1
      simp only [List.length_append, List.length_cons] at hlength
      obtain ⟨m, hm⟩ : ∃ m, s.rbuf.length = m + 1 := ⟨l.length + r.length + 1, by omega⟩
      obtain ⟨k, rfl⟩ : ∃ k, n = k + 1 := ⟨n - 1, by omega⟩
      rw [drain, hm, readLines_some hs, readLines_some hs]
      cases receiveLine p l s with
      | continues t =>
        have hr : (t.withRbuf r).rbuf.length ≤ m := by
          show r.length ≤ m
          omega
        exact (ih k (Nat.lt_succ_self k) _ (hr.trans (by omega))).trans (ih m (by omega) _ hr).symm
      | leaves t => rfl
      | outOfRange t => rfl

lemma drain_none (h : splitLines s.rbuf = none) : drain p s = s := readLines_none h _

lemma drain_line {l r : Bytes} (h : splitLines s.rbuf = some (l, r)) :
    drain p s = goesOn p r (receiveLine p l s) := by
  have hlength := congrArg List.length (splitLines_some h).1
  simp only [List.length_append, List.length_cons] at hlength
  obtain ⟨m, hm⟩ : ∃ m, s.rbuf.length = m + 1 := ⟨l.length + r.length + 1, by omega⟩
  rw [drain, hm, readLines_some h]
  cases receiveLine p l s with
  | continues t =>
    refine readLines_drain m _ ?_
    show r.length ≤ m
    omega
  | leaves t => rfl
  | outOfRange t => rfl

lemma updateRead_eq (s : Reader) (bytes : Bytes) :
    updateRead p s bytes = drain p (s.withRbuf (s.rbuf ++ bytes)) := rfl

lemma reads_line {l rest : Bytes} (hl : splitLines l = none) (reads : List Bytes) (s : Reader)
    (h : s.rbuf ++ reads.flatten = l ++ 13 :: 10 :: rest) :
    ∃ (r : Bytes) (reads' : List Bytes), r ++ reads'.flatten = rest ∧
      reads.foldl (updateRead p) (drain p s) =
        reads'.foldl (updateRead p) (goesOn p r (receiveLine p l s)) := by
  induction reads generalizing s with
  | nil =>
    rw [List.flatten_nil, List.append_nil] at h
    refine ⟨rest, [], by simp, ?_⟩
    rw [List.foldl_nil, List.foldl_nil, drain_line]
    rw [h]
    exact splitLines_line hl rest
  | cons bytes reads ih =>
    cases hs : splitLines s.rbuf with
    | none =>
      have hih := ih (s.withRbuf (s.rbuf ++ bytes)) (by simpa [Reader.withRbuf] using h)
      obtain ⟨r, reads', hrest, hfold⟩ := hih
      refine ⟨r, reads', hrest, ?_⟩
      rw [List.foldl_cons, drain_none hs, updateRead_eq, hfold, receiveLine_withRbuf]
      cases receiveLine p l s <;> rfl
    | some line =>
      obtain ⟨l', r⟩ := line
      obtain ⟨hb, hl'⟩ := splitLines_some hs
      have hsplit := splitLines_line hl' (r ++ (bytes :: reads).flatten)
      rw [← List.cons_append, ← List.cons_append, ← List.append_assoc, ← hb, h, splitLines_line hl] at hsplit
      obtain ⟨rfl, rfl⟩ := Prod.mk.inj (Option.some.inj hsplit)
      exact ⟨r, bytes :: reads, rfl, by rw [drain_line hs]⟩

end Reads

section Handled

variable {p : Kind → Store → Outcome Store} {s t u : Reader}

lemma handleResponse_handled (aData : Bytes) (s : Reader) :
    (handleResponse p aData s).state.handled =
      s.handled ++ [⟨aData, s.store.responses, s.store.nsData, !readsLiteral s.store⟩] := by
  simp only [handleResponse]
  cases dispatch p aData s.store <;> rfl

lemma finishLiteral_handled {aData : Bytes} (h : s.store.responses.head? = some aData) :
    (finishLiteral p s).state.handled =
      s.handled ++ [⟨aData, s.store.responses, s.store.nsData, !readsLiteral s.store⟩] := by
  cases hr : s.store.responses with
  | nil =>
    rw [hr] at h
    cases h
  | cons e rest =>
    rw [hr, List.head?_cons] at h
    obtain rfl := Option.some.inj h
    simp only [finishLiteral, hr]
    rw [handleResponse_handled, hr]

lemma finishLiteral_grows (s : Reader) : s.handled <+: (finishLiteral p s).state.handled := by
  cases hr : s.store.responses with
  | nil =>
    simp only [finishLiteral, hr]
    exact List.prefix_rfl
  | cons e rest =>
    rw [finishLiteral_handled (by rw [hr]; rfl)]
    exact List.prefix_append _ _

lemma receiveLine_grows (aData : Bytes) (s : Reader) : s.handled <+: (receiveLine p aData s).state.handled := by
  simp only [receiveLine, receiveLiteral]
  split_ifs
  · exact finishLiteral_grows { s with awaiting := false, store := addResponse aData s.store }
  · exact List.prefix_rfl
  · exact finishLiteral_grows { s with store := cutLine _ aData { s.store with literal := _ } }
  · exact List.prefix_rfl
  · exact List.prefix_rfl
  · rw [handleResponse_handled]
    exact List.prefix_append _ _

lemma readLines_grows (n : ℕ) (s : Reader) : s.handled <+: (readLines p n s).handled := by
  induction n generalizing s with
  | zero => exact List.prefix_rfl
  | succ n ih =>
    cases hs : splitLines s.rbuf with
    | none =>
      rw [readLines_none hs]
    | some line =>
      have hline := receiveLine_grows (p := p) line.1 s
      rw [readLines_some hs]
      cases hr : receiveLine p line.1 s with
      | continues t =>
        rw [hr] at hline
        exact hline.trans (ih (t.withRbuf line.2))
      | leaves t =>
        rw [hr] at hline
        exact hline
      | outOfRange t =>
        rw [hr] at hline
        exact hline

lemma goesOn_grows (r : Bytes) (o : Outcome Reader) : o.state.handled <+: (goesOn p r o).handled := by
  cases o with
  | continues t => exact readLines_grows _ (t.withRbuf r)
  | leaves t => exact List.prefix_rfl
  | outOfRange t => exact List.prefix_rfl

lemma reads_grow (reads : List Bytes) (s : Reader) : s.handled <+: (reads.foldl (updateRead p) s).handled := by
  induction reads generalizing s with
  | nil => exact List.prefix_rfl
  | cons bytes reads ih =>
    have h : s.handled <+: (updateRead p s bytes).handled := readLines_grows _ (s.withRbuf (s.rbuf ++ bytes))
    exact h.trans (ih _)

end Handled

section Octets

variable {p : Kind → Store → Outcome Store} {s t u : Reader} {o d l r R : Bytes}

/-- The octets `o` of a literal are still to come, and `d` has been accumulated. -/
structure Reading (u : Reader) (o d : Bytes) : Prop where
  awaiting : u.awaiting = false
  current : u.store.currentQueueObject.isSome
  literal : u.store.literal = o.length
  nsData : u.store.nsData = some d
  nonempty : 0 < o.length
  bounded : o.length < 2 ^ 31

lemma Reading.readsLiteral (hu : Reading u o d) : readsLiteral u.store = true := by
  have hne : u.store.literal ≠ 0 := by
    rw [hu.literal]
    exact_mod_cast hu.nonempty.ne'
  simp only [IMAPReader.readsLiteral, hu.current, Bool.true_and, decide_eq_true_eq]
  exact hne

lemma Reading.receiveLine_eq (hu : Reading u o d) : receiveLine p l u = receiveLiteral p l u := by
  have hawaiting : ¬u.awaiting = true := ne_true_of_eq_false hu.awaiting
  rw [receiveLine, if_neg hawaiting, if_pos hu.readsLiteral]

lemma Reading.receives_last (hu : Reading u (l ++ 13 :: 10 :: []) d) :
    receiveLine p l u =
      .continues { u with store := appendData l { u.store with literal := 0 }, awaiting := true } := by
  have hw : wrap32 (u.store.literal - (l.length + 2)) = 0 := by
    rw [hu.literal]
    simp only [List.length_append, List.length_cons, List.length_nil]
    push_cast
    rw [sub_self]
    rfl
  rw [hu.receiveLine_eq]
  simp only [receiveLiteral, hw]
  rfl

lemma Reading.receives_more (hu : Reading u (l ++ 13 :: 10 :: r) d) (hr : r ≠ []) :
    ∃ v, receiveLine p l u = .continues v ∧ Reading v r (d ++ l ++ crlf) ∧ v.handled = u.handled ∧
      v.store.responses = u.store.responses := by
  have hb := hu.bounded
  have hpos := List.length_pos_of_ne_nil hr
  simp only [List.length_append, List.length_cons] at hb
  have hw : wrap32 (u.store.literal - (l.length + 2)) = r.length := by
    rw [hu.literal]
    simp only [List.length_append, List.length_cons]
    push_cast
    rw [show (l.length : ℤ) + (r.length + 1 + 1) - (l.length + 2) = r.length by omega]
    exact wrap32_of_mem (by omega) (by omega)
  have hneg : ¬(r.length : ℤ) < 0 := by omega
  have hzero : ¬(r.length : ℤ) = 0 := by omega
  refine ⟨{ u with store := appendData (l ++ crlf) { u.store with literal := r.length } }, ?_, ?_, rfl, rfl⟩
  · rw [hu.receiveLine_eq]
    simp only [receiveLiteral, hw, if_neg hneg, if_neg hzero]
  · refine ⟨hu.awaiting, hu.current, rfl, ?_, hpos, by omega⟩
    simp only [appendData, hu.nsData, Option.map_some, List.append_assoc]

lemma Reading.receives_rest (hu : Reading u o d) (R : Bytes) :
    receiveLine p (o ++ R) u = receiveLiteral p (o ++ R) u ∧
      wrap32 (u.store.literal - ((o ++ R).length + 2)) = wrap32 (-2 - R.length) := by
  refine ⟨hu.receiveLine_eq, ?_⟩
  rw [hu.literal, List.length_append]
  congr 1
  push_cast
  omega

/-- The octets end with CRLF, or the octets behind their last CRLF are as many as the bytes of the response
behind them (both counted in an `int`). -/
def Cut (o R : Bytes) : Prop :=
  lastPiece [] o = [] ∨
    ¬(o.getLast? = some 13 ∧ R.head? = some 10) ∧ wrap32 (-2 - R.length) = -2 - (lastPiece [] o).length

lemma cut_line (hr : r ≠ []) (hl : splitLines l = none) : Cut (l ++ 13 :: 10 :: r) R ↔ Cut r R := by
  have hlast : (l ++ 13 :: 10 :: r).getLast? = r.getLast? := by
    obtain ⟨a, r, rfl⟩ := List.exists_cons_of_ne_nil hr
    rw [List.getLast?_append_of_ne_nil l (List.cons_ne_nil _ _), List.getLast?_cons_cons, List.getLast?_cons_cons]
  rw [Cut, Cut, lastPiece_some (splitLines_line hl r), hlast]

lemma cut_piece (ho : splitLines o = none) (hne : o ≠ []) :
    Cut o R ↔ ¬(o.getLast? = some 13 ∧ R.head? = some 10) ∧ wrap32 (-2 - R.length) = -2 - o.length := by
  rw [Cut, lastPiece_none ho, List.nil_append]
  exact or_iff_right hne

/-- The response is handed on with the remainder `R` and the data `data`. -/
def Completes (u t : Reader) (R data : Bytes) : Prop :=
  ∃ e more, (u.store.responses ++ [R]).head? = some e ∧
    t.handled = u.handled ++ ⟨e, u.store.responses ++ [R], some data, true⟩ :: more

lemma head_of_append (responses : List Bytes) (R : Bytes) : ∃ e, (responses ++ [R]).head? = some e := by
  cases responses with
  | nil => exact ⟨R, rfl⟩
  | cons e rest => exact ⟨e, rfl⟩

lemma finishLiteral_completes {data : Bytes} (hr : s.store.responses = u.store.responses ++ [R])
    (hd : s.store.nsData = some data) (hl : s.store.literal = 0) (hh : s.handled = u.handled)
    (ht : (finishLiteral p s).state.handled <+: t.handled) : Completes u t R data := by
  obtain ⟨e, he⟩ := head_of_append u.store.responses R
  have hcomplete : readsLiteral s.store = false := by
    simp only [IMAPReader.readsLiteral, hl, ne_eq, not_true_eq_false, decide_false, Bool.and_false]
  obtain ⟨more, hmore⟩ := ht
  refine ⟨e, more, he, ?_⟩
  rw [← hmore, finishLiteral_handled (by rw [hr]; exact he), hr, hd, hcomplete, hh, List.append_assoc]
  rfl

lemma Reading.receives_cut (hu : Reading u o d) (hw : wrap32 (-2 - R.length) = -2 - o.length) :
    ∃ v, receiveLine p (o ++ R) u = finishLiteral p v ∧ v.store.responses = u.store.responses ++ [R] ∧
      v.store.nsData = some (d ++ o) ∧ v.store.literal = 0 ∧ v.handled = u.handled := by
  obtain ⟨hline, hliteral⟩ := hu.receives_rest (p := p) R
  have hneg : (-2 - o.length : ℤ) < 0 := by omega
  have hx : ((-2 - (-2 - o.length : ℤ)) % 2 ^ 64).toNat = o.length := by
    have hb := hu.bounded
    rw [sub_sub_cancel, Int.emod_eq_of_lt (by omega) (by omega), Int.toNat_natCast]
  have hfits : ¬(o ++ R).length < o.length := by
    rw [List.length_append]
    omega
  refine ⟨{ u with store := cutLine o.length (o ++ R) { u.store with literal := -2 - o.length } }, ?_, ?_, ?_, rfl, rfl⟩
  · rw [hline]
    simp only [receiveLiteral, hliteral, hw, if_pos hneg, hx, if_neg hfits]
  · simp [cutLine, addResponse, appendData]
  · simp [cutLine, addResponse, appendData, hu.nsData]

lemma Reading.withRbuf (hu : Reading u o d) (r : Bytes) : Reading (u.withRbuf r) o d :=
  ⟨hu.awaiting, hu.current, hu.literal, hu.nsData, hu.nonempty, hu.bounded⟩

lemma Reading.completes_piece (hu : Reading u o d) (ho : splitLines o = none) (hR : splitLines R = none)
    (hcut : Cut o R) (reads : List Bytes) (rest : Bytes)
    (h : u.rbuf ++ reads.flatten = o ++ R ++ 13 :: 10 :: rest) :
    Completes u (reads.foldl (updateRead p) (drain p u)) R (d ++ o) := by
  obtain ⟨hjoint, hw⟩ := (cut_piece ho (List.ne_nil_of_length_pos hu.nonempty)).mp hcut
  obtain ⟨r, reads', -, hfold⟩ := reads_line (p := p) (splitLines_append ho hR hjoint) reads u h
  obtain ⟨v, hv, hresponses, hdata, hliteral, hhandled⟩ := hu.receives_cut (p := p) hw
  refine finishLiteral_completes (p := p) hresponses hdata hliteral hhandled ?_
  rw [hfold, hv]
  exact (goesOn_grows r _).trans (reads_grow reads' _)

lemma Reading.completes_last (hu : Reading u (l ++ 13 :: 10 :: []) d) (hl : splitLines l = none)
    (hR : splitLines R = none) (reads : List Bytes) (rest : Bytes)
    (h : u.rbuf ++ reads.flatten = l ++ 13 :: 10 :: (R ++ 13 :: 10 :: rest)) :
    Completes u (reads.foldl (updateRead p) (drain p u)) R (d ++ l) := by
  obtain ⟨r, reads', hrest, hfold⟩ := reads_line (p := p) hl reads u h
  let v : Reader := { u with store := appendData l { u.store with literal := 0 }, awaiting := true }
  have hgo : goesOn p r (receiveLine p l u) = drain p (v.withRbuf r) := by
    rw [hu.receives_last]
    rfl
  obtain ⟨r', reads'', -, hfold'⟩ := reads_line (p := p) hR reads' (v.withRbuf r) hrest
  have hline : receiveLine p R (v.withRbuf r) =
      finishLiteral p { v.withRbuf r with awaiting := false, store := addResponse R v.store } := by
    rw [receiveLine, if_pos]
    · rfl
    · rfl
  refine finishLiteral_completes (p := p)
    (s := { v.withRbuf r with awaiting := false, store := addResponse R v.store }) rfl ?_ rfl rfl ?_
  · show u.store.nsData.map (· ++ l) = some (d ++ l)
    rw [hu.nsData]
    rfl
  · rw [hfold, hgo, hfold', hline]
    exact (goesOn_grows r' _).trans (reads_grow reads'' _)

lemma Reading.completes_of_cut (n : ℕ) (ho : o.length ≤ n) (hu : Reading u o d) (hR : splitLines R = none)
    (hcut : Cut o R) (reads : List Bytes) (rest : Bytes)
    (h : u.rbuf ++ reads.flatten = o ++ R ++ 13 :: 10 :: rest) :
    ∃ data, Completes u (reads.foldl (updateRead p) (drain p u)) R data ∧
      (data = d ++ o ∨ data ++ crlf = d ++ o) := by
  induction n generalizing u o d reads with
  | zero => exact absurd hu.nonempty (Nat.not_lt.mpr ho)
  | succ n ih =>
    cases hs : splitLines o with
    | none => exact ⟨d ++ o, hu.completes_piece hs hR hcut reads rest h, .inl rfl⟩
    | some line =>
      obtain ⟨l, r⟩ := line
      obtain ⟨rfl, hl⟩ := splitLines_some hs
      have hstream : u.rbuf ++ reads.flatten = l ++ 13 :: 10 :: (r ++ R ++ 13 :: 10 :: rest) := by
        rw [h]
        simp
      by_cases hr : r = []
      · subst hr
        refine ⟨d ++ l, hu.completes_last hl hR reads rest hstream, .inr ?_⟩
        rw [List.append_assoc]
        rfl
      · obtain ⟨v, hv, hreading, hhandled, hresponses⟩ := hu.receives_more (p := p) hr
        obtain ⟨r', reads', hrest, hfold⟩ := reads_line (p := p) hl reads u hstream
        have hshort : r.length ≤ n := by
          simp only [List.length_append, List.length_cons] at ho
          omega
        obtain ⟨data, ⟨e, more, he, hcomplete⟩, hdata⟩ :=
          ih hshort (hreading.withRbuf r') ((cut_line hr hl).mp hcut) reads' hrest
        refine ⟨data, ⟨e, more, ?_, ?_⟩, ?_⟩
        · rw [← hresponses]
          exact he
        · rw [hfold, hv]
          rw [← hhandled, ← hresponses]
          exact hcomplete
        · simpa [crlf] using hdata

/-- No response is handed on next with the remainder `R`. -/
def Misses (u t : Reader) (R : Bytes) : Prop :=
  ∀ e responses data more, t.handled ≠ u.handled ++ ⟨e, responses ++ [R], data, true⟩ :: more

lemma misses_of_eq (h : t.handled = u.handled) : Misses u t R := by
  intro e responses data more heq
  rw [h] at heq
  have hlength := congrArg List.length heq
  simp only [List.length_append, List.length_cons] at hlength
  omega

lemma goesOn_nil (o : Outcome Reader) : (goesOn p [] o).handled = o.state.handled := by
  cases o with
  | continues t =>
    rw [goesOn, drain_none rfl]
    rfl
  | leaves t => rfl
  | outOfRange t => rfl

lemma Reading.misses_finish {x : ℕ} (hx : x ≤ (o ++ R).length) (hne : x ≠ o.length)
    (hr : s.store.responses = u.store.responses ++ [(o ++ R).drop x]) (hh : s.handled = u.handled) :
    Misses u (goesOn p [] (finishLiteral p s)) R := by
  obtain ⟨e, he⟩ := head_of_append u.store.responses ((o ++ R).drop x)
  intro e' responses data more heq
  rw [goesOn_nil, finishLiteral_handled (by rw [hr]; exact he), hh] at heq
  have hentry := (List.cons.inj (List.append_cancel_left heq)).1
  have hresponses := (Handled.mk.inj hentry).2.1
  rw [hr] at hresponses
  have hlast := congrArg List.getLast? hresponses
  rw [List.getLast?_concat, List.getLast?_concat] at hlast
  have hlength := congrArg List.length (Option.some.inj hlast)
  rw [List.length_drop] at hlength
  rw [List.length_append] at hx hlength
  omega

lemma Reading.misses_joint (hu : Reading u (o ++ [13]) d) (ho : splitLines (o ++ [13]) = none)
    (hrbuf : u.rbuf = o ++ 13 :: 10 :: r) : Misses u (drain p u) R := by
  have hb := hu.bounded
  have hw : wrap32 (u.store.literal - (o.length + 2)) = -1 := by
    rw [hu.literal, List.length_append, List.length_singleton]
    push_cast
    rw [show (o.length : ℤ) + 1 - (o.length + 2) = -1 by omega]
    rfl
  have hfits : o.length < ((-2 - (-1 : ℤ)) % 2 ^ 64).toNat := by
    rw [List.length_append, List.length_singleton] at hb
    have hx : ((-2 - (-1 : ℤ)) % 2 ^ 64).toNat = 2 ^ 64 - 1 := by decide
    omega
  have hneg : (-1 : ℤ) < 0 := by decide
  have hline : splitLines u.rbuf = some (o, r) := by
    rw [hrbuf]
    exact splitLines_line (splitLines_left ho) r
  apply misses_of_eq
  rw [drain_line hline, hu.receiveLine_eq]
  simp only [receiveLiteral, hw, if_pos hneg, if_pos hfits]
  rfl

lemma Reading.misses_piece (hu : Reading u o d) (ho : splitLines (o ++ R) = none)
    (hw : wrap32 (-2 - R.length) ≠ -2 - o.length) (hrbuf : u.rbuf = o ++ R ++ crlf) :
    Misses u (drain p u) R := by
  have hb := hu.bounded
  have hlower := wrap32_lower (-2 - R.length)
  have hupper := wrap32_upper (-2 - R.length)
  obtain ⟨hline, hliteral⟩ := hu.receives_rest (p := p) R
  have hsplit : splitLines u.rbuf = some (o ++ R, []) := by
    rw [hrbuf]
    exact splitLines_line ho []
  rw [drain_line hsplit, hline]
  simp only [receiveLiteral, hliteral]
  split_ifs with hneg hfits hzero
  · exact misses_of_eq (goesOn_nil _)
  · refine Reading.misses_finish (Nat.not_lt.mp hfits) ?_ rfl rfl
    intro hx
    have hmod : (-2 - wrap32 (-2 - R.length)) % 2 ^ 64 = o.length := by
      have hnonneg := Int.emod_nonneg (-2 - wrap32 (-2 - R.length)) (show (2 : ℤ) ^ 64 ≠ 0 by decide)
      omega
    omega
  · exact misses_of_eq (goesOn_nil _)
  · exact misses_of_eq (goesOn_nil _)

lemma Reading.misses_of_not_cut (n : ℕ) (ho : o.length ≤ n) (hu : Reading u o d) (hR : splitLines R = none)
    (hcut : ¬Cut o R) (hrbuf : u.rbuf = o ++ R ++ crlf) : Misses u (drain p u) R := by
  induction n generalizing u o d with
  | zero => exact absurd hu.nonempty (Nat.not_lt.mpr ho)
  | succ n ih =>
    cases hs : splitLines o with
    | none =>
      by_cases hjoint : o.getLast? = some 13 ∧ R.head? = some 10
      · obtain ⟨q, rfl⟩ := List.getLast?_eq_some_iff.mp hjoint.1
        obtain ⟨r, rfl⟩ := List.head?_eq_some_iff.mp hjoint.2
        refine hu.misses_joint hs (r := r ++ crlf) ?_
        rw [hrbuf]
        simp
      · rw [cut_piece hs (List.ne_nil_of_length_pos hu.nonempty)] at hcut
        exact hu.misses_piece (splitLines_append hs hR hjoint) (fun hw => hcut ⟨hjoint, hw⟩) hrbuf
    | some line =>
      obtain ⟨l, r⟩ := line
      obtain ⟨rfl, hl⟩ := splitLines_some hs
      have hr : r ≠ [] := by
        rintro rfl
        refine hcut (.inl ?_)
        rw [lastPiece_some hs]
        rfl
      obtain ⟨v, hv, hreading, hhandled, -⟩ := hu.receives_more (p := p) hr
      have hshort : r.length ≤ n := by
        simp only [List.length_append, List.length_cons] at ho
        omega
      have hline : splitLines u.rbuf = some (l, r ++ R ++ crlf) := by
        rw [hrbuf]
        have h := splitLines_line hl (r ++ R ++ crlf)
        simpa using h
      have hrest := ih hshort (hreading.withRbuf (r ++ R ++ crlf)) (fun h => hcut ((cut_line hr hl).mpr h)) rfl
      rw [drain_line hline, hv]
      intro e responses data more heq
      rw [← hhandled] at heq
      exact hrest e responses data more heq

end Octets

section Announced

lemma literalValue_digits (digits s : Bytes) (hdigits : ∀ c ∈ digits, isDigit c) (value d : ℤ)
    (hlower : -2 ^ 31 ≤ value) (hupper : value < 2 ^ 31) :
    wrap32 (literalValue (digits ++ 123 :: s) value d) = literalValue (digits ++ 123 :: s) value d ∧
      wrap32 (literalValue (digits ++ 123 :: s) value d) = wrap32 (value + d * decimal digits.reverse) := by
  induction digits generalizing value d with
  | nil =>
    have hbrace : isDigit 123 = false := by decide
    simp only [List.nil_append, literalValue, hbrace, List.reverse_nil, decimal, List.foldl_nil]
    simp [wrap32_of_mem hlower hupper]
  | cons c digits ih =>
    have hc : isDigit c = true := hdigits c List.mem_cons_self
    have hrest := ih (fun x hx => hdigits x (List.mem_cons_of_mem c hx))
      (wrap32 (value + wrap32 ((c.toNat - 48) * d))) (wrap32 (d * 10)) (wrap32_lower _) (wrap32_upper _)
    simp only [List.cons_append, literalValue, hc, if_true]
    refine ⟨hrest.1, hrest.2.trans ?_⟩
    have hge : 48 ≤ c.toNat := by
      simp only [isDigit, Bool.and_eq_true, decide_eq_true_eq] at hc
      exact hc.1
    have hdecimal : (decimal (c :: digits).reverse : ℤ) = 10 * decimal digits.reverse + (c.toNat - 48) := by
      rw [List.reverse_cons, decimal, List.foldl_append, ← decimal]
      simp only [List.foldl_cons, List.foldl_nil]
      push_cast [Nat.cast_sub hge]
      rfl
    have hvalue := (wrap32_modEq (value + wrap32 ((c.toNat - 48) * d))).trans
      ((Int.ModEq.refl value).add (wrap32_modEq ((c.toNat - 48) * d)))
    have hrest' := (wrap32_modEq (d * 10)).mul_right (decimal digits.reverse : ℤ)
    rw [wrap32_of_modEq (hvalue.add hrest'), hdecimal]
    congr 1
    ring

/-- A response line that ends with `{n}`. -/
def header (response digits : Bytes) : Bytes := 42 :: 32 :: response ++ 123 :: digits ++ [125]

lemma hasLiteral_header {response digits : Bytes} (hdigits : ∀ c ∈ digits, isDigit c)
    (hn : decimal digits < 2 ^ 31) : hasLiteral (header response digits) = decimal digits := by
  have hreverse : (header response digits).reverse = 125 :: (digits.reverse ++ 123 :: (42 :: 32 :: response).reverse) := by
    simp [header]
  have hvalue := literalValue_digits digits.reverse (42 :: 32 :: response).reverse
    (fun c hc => hdigits c (List.mem_reverse.mp hc)) 0 1 (by decide) (by decide)
  have hstart : ¬(header response digits).head? ≠ some 42 := fun h => h rfl
  rw [hasLiteral, if_neg hstart, hreverse]
  show literalValue (digits.reverse ++ 123 :: (42 :: 32 :: response).reverse) 0 1 = decimal digits
  rw [← hvalue.1, hvalue.2, List.reverse_reverse, zero_add, one_mul]
  exact wrap32_of_mem (by omega) (by omega)

end Announced

section Framing

variable {p : Kind → Store → Outcome Store} {s t : Reader} {o R response digits : Bytes}

/-- Between two responses: no complete line is in the buffer, and no literal is being read. -/
structure Ready (s : Reader) : Prop where
  rbuf : splitLines s.rbuf = none
  awaiting : s.awaiting = false
  literal : readsLiteral s.store = false

/-- The octets are the data of the literal, up to one final CRLF, and what follows them is handed on as the
rest of the response. -/
def Framed (s : Reader) (header o R : Bytes) (t : Reader) : Prop :=
  ∃ first data more, t.handled = s.handled ++ first :: ⟨header, [header, R], some data, true⟩ :: more ∧
    first.complete = false ∧ (data = o ∨ data ++ crlf = o)

/-- The responses left when the header of a literal has been looked at. -/
def kept (aData : Bytes) (s : Store) : List Bytes :=
  match kindOf aData s with
  | .existing | .recent => s.responses
  | _ => s.responses ++ [aData]

/-- The store when the header of a literal of `n` octets is handed to its `_parse` method. -/
def announced (aData : Bytes) (n : ℕ) (s : Store) : Store :=
  { addResponse aData s with literal := n, nsData := some [] }

/-- A `_parse` method leaves alone what the reader needs for the literal. -/
structure Undisturbed (s t : Store) : Prop where
  responses : t.responses = s.responses
  current : t.currentQueueObject.isSome = s.currentQueueObject.isSome
  literal : t.literal = s.literal
  nsData : t.nsData = s.nsData

structure Recognized (s : Reader) (header o R : Bytes) : Prop where
  current : s.store.currentQueueObject.isSome
  nonempty : 0 < o.length
  alone : kept header s.store = [header]
  cut : Cut o R

lemma readsLiteral_announced (hc : s.store.currentQueueObject.isSome) {n : ℕ} (hn : 0 < n) (aData : Bytes) :
    readsLiteral (announced aData n s.store) = true := by
  have hne : (n : ℤ) ≠ 0 := by exact_mod_cast hn.ne'
  simp only [readsLiteral, announced, addResponse, hc, Bool.true_and]
  exact decide_eq_true hne

lemma announce_eq (hc : s.store.currentQueueObject.isSome) {aData : Bytes} {n : ℕ} (hn : 0 < n)
    (hl : hasLiteral aData = n) : announce aData (addResponse aData s.store) = announced aData n s.store := by
  have hsome : ¬(addResponse aData s.store).currentQueueObject.isNone = true := by
    simpa [addResponse, Option.isSome_iff_ne_none] using hc
  have hne : ¬(n : ℤ) = 0 := by exact_mod_cast hn.ne'
  rw [announce, if_neg hsome, hl, if_neg hne]
  rfl

lemma dispatch_header {aData : Bytes} {n : ℕ} (hc : s.store.currentQueueObject.isSome) (hn : 0 < n)
    (hkeep : (∀ m, kindOf aData s.store ≠ .fetch m) →
      ∃ v, p (kindOf aData s.store) (announced aData n s.store) = .continues v ∧
        Undisturbed (announced aData n s.store) v) :
    ∃ v, dispatch p aData (announced aData n s.store) = .continues v ∧ v.responses = kept aData s.store ∧
      v.currentQueueObject.isSome ∧ v.literal = n ∧ v.nsData = some [] := by
  have hkind : kindOf aData (announced aData n s.store) = kindOf aData s.store := rfl
  have hremove : ∀ v, Undisturbed (announced aData n s.store) v →
      removeLastResponse v = .continues { v with responses := s.store.responses } := by
    intro v hv
    have hresponses : v.responses = s.store.responses ++ [aData] := hv.responses
    simp [removeLastResponse, hresponses]
  cases hk : kindOf aData s.store with
  | fetch m =>
    refine ⟨announced aData n s.store, ?_, ?_, hc, rfl, rfl⟩
    · simp only [dispatch, hkind, hk, readsLiteral_announced hc hn, if_true]
    · simp only [kept, hk]
      rfl
  | existing =>
    obtain ⟨v, hv, hsame⟩ := hkeep (by simp [hk])
    rw [hk] at hv
    refine ⟨{ v with responses := s.store.responses }, ?_, ?_, hsame.current.trans hc, hsame.literal, hsame.nsData⟩
    · simp only [dispatch, hkind, hk, hv, Outcome.andThen, hremove v hsame]
    · simp only [kept, hk]
  | recent =>
    obtain ⟨v, hv, hsame⟩ := hkeep (by simp [hk])
    rw [hk] at hv
    refine ⟨{ v with responses := s.store.responses }, ?_, ?_, hsame.current.trans hc, hsame.literal, hsame.nsData⟩
    · simp only [dispatch, hkind, hk, hv, Outcome.andThen, hremove v hsame]
    · simp only [kept, hk]
  | _ =>
    obtain ⟨v, hv, hsame⟩ := hkeep (by simp [hk])
    rw [hk] at hv
    refine ⟨v, ?_, ?_, hsame.current.trans hc, hsame.literal, hsame.nsData⟩
    · simp only [dispatch, hkind, hk, hv]
    · simp only [kept, hk]
      exact hsame.responses

lemma Ready.receives_header (hs : Ready s) {aData : Bytes} (hc : s.store.currentQueueObject.isSome)
    (hn : 0 < o.length) (hint : o.length < 2 ^ 31) (hl : hasLiteral aData = o.length)
    (hkeep : (∀ m, kindOf aData s.store ≠ .fetch m) →
      ∃ v, p (kindOf aData s.store) (announced aData o.length s.store) = .continues v ∧
        Undisturbed (announced aData o.length s.store) v) :
    ∃ u, receiveLine p aData s = .continues u ∧ Reading u o [] ∧ u.store.responses = kept aData s.store ∧
      u.handled = s.handled ++ [⟨aData, s.store.responses ++ [aData], some [], false⟩] := by
  obtain ⟨v, hv, hresponses, hcurrent, hliteral, hdata⟩ := dispatch_header hc hn hkeep
  have hawaiting : ¬s.awaiting = true := ne_true_of_eq_false hs.awaiting
  have hidle : ¬readsLiteral s.store = true := ne_true_of_eq_false hs.literal
  refine ⟨{ s with store := v, handled := s.handled ++ [⟨aData, s.store.responses ++ [aData], some [], false⟩] },
    ?_, ⟨hs.awaiting, hcurrent, hliteral, hdata, hn, hint⟩, hresponses, rfl⟩
  rw [receiveLine, if_neg hawaiting, if_neg hidle, announce_eq hc hn hl]
  simp only [handleResponse, hv, readsLiteral_announced hc hn]
  rfl

lemma Ready.header_complete (hs : Ready s) {aData : Bytes}
    (h : s.store.currentQueueObject.isSome = false ∨ hasLiteral aData = 0) :
    ∃ entry : Handled, entry.complete = true ∧
      (receiveLine p aData s).state.handled = s.handled ++ [entry] := by
  have hawaiting : ¬s.awaiting = true := ne_true_of_eq_false hs.awaiting
  have hidle : ¬readsLiteral s.store = true := ne_true_of_eq_false hs.literal
  rw [receiveLine, if_neg hawaiting, if_neg hidle, handleResponse_handled]
  refine ⟨_, ?_, rfl⟩
  have hnone : readsLiteral (announce aData (addResponse aData s.store)) = false := by
    rcases h with h | h
    · have hcurrent : (addResponse aData s.store).currentQueueObject = none := Option.isSome_eq_false_iff.mp h |> Option.isNone_iff_eq_none.mp
      simp [announce, readsLiteral, hcurrent]
    · simp only [announce, h]
      split_ifs with hc
      · simp [readsLiteral, Option.isNone_iff_eq_none.mp hc]
      · simp [readsLiteral]
  simp only [hnone, Bool.not_false]

lemma Ready.withRbuf (hs : Ready s) {r : Bytes} (hr : splitLines r = none) : Ready (s.withRbuf r) :=
  ⟨hr, hs.awaiting, hs.literal⟩

/-- What the header of a literal must be: a line that ends with the number of octets that follow, whose `_parse`
method does not disturb the reader. -/
structure Announces (p : Kind → Store → Outcome Store) (s : Reader) (response digits o : Bytes) : Prop where
  line : splitLines (header response digits) = none
  allDigits : ∀ c ∈ digits, isDigit c
  length : decimal digits = o.length
  bounded : o.length < 2 ^ 31
  undisturbed : (∀ m, kindOf (header response digits) s.store ≠ .fetch m) →
    ∃ v, p (kindOf (header response digits) s.store) (announced (header response digits) o.length s.store) =
        .continues v ∧
      Undisturbed (announced (header response digits) o.length s.store) v

lemma Announces.hasLiteral_eq (ha : Announces p s response digits o) :
    hasLiteral (header response digits) = o.length := by
  rw [hasLiteral_header ha.allDigits, ha.length]
  rw [ha.length]
  exact ha.bounded

lemma Announces.framed (ha : Announces p s response digits o) (hs : Ready s) (hR : splitLines R = none)
    (h : Recognized s (header response digits) o R) (reads : List Bytes) (rest : Bytes)
    (hreads : s.rbuf ++ reads.flatten = header response digits ++ crlf ++ o ++ R ++ crlf ++ rest) :
    Framed s (header response digits) o R (reads.foldl (updateRead p) s) := by
  obtain ⟨u, hu, hreading, hresponses, hhandled⟩ :=
    hs.receives_header (p := p) h.current h.nonempty ha.bounded ha.hasLiteral_eq ha.undisturbed
  have hstream : s.rbuf ++ reads.flatten = header response digits ++ 13 :: 10 :: (o ++ R ++ 13 :: 10 :: rest) := by
    rw [hreads]
    simp [crlf]
  obtain ⟨r, reads', hrest, hfold⟩ := reads_line (p := p) ha.line reads s hstream
  obtain ⟨data, ⟨e, more, he, hcomplete⟩, hdata⟩ :=
    (hreading.withRbuf r).completes_of_cut (p := p) o.length le_rfl hR h.cut reads' rest hrest
  have hkept : u.store.responses = [header response digits] := hresponses.trans h.alone
  have hhead : (u.withRbuf r).store.responses = [header response digits] := hkept
  rw [hhead] at he hcomplete
  obtain rfl := Option.some.inj he
  refine ⟨⟨header response digits, s.store.responses ++ [header response digits], some [], false⟩, data, more, ?_,
    rfl, by simpa using hdata⟩
  rw [drain_none hs.rbuf, hu] at hfold
  rw [hfold]
  refine hcomplete.trans ?_
  show u.handled ++ _ = _
  rw [hhandled, List.append_assoc]
  rfl

lemma Announces.recognized (ha : Announces p s response digits o) (hs : Ready s) (hR : splitLines R = none)
    {bytes : Bytes} (hbytes : s.rbuf ++ bytes = header response digits ++ 13 :: 10 :: (o ++ R ++ crlf))
    (h : Framed s (header response digits) o R (updateRead p s bytes)) :
    Recognized s (header response digits) o R := by
  obtain ⟨first, data, more, hhandled, hfirst, -⟩ := h
  have hgo : updateRead p s bytes =
      goesOn p (o ++ R ++ crlf) (receiveLine p (header response digits) (s.withRbuf (s.rbuf ++ bytes))) := by
    rw [updateRead_eq]
    refine drain_line ?_
    show splitLines (s.rbuf ++ bytes) = _
    rw [hbytes]
    exact splitLines_line ha.line _
  rw [receiveLine_withRbuf] at hgo
  have hrecognized : s.store.currentQueueObject.isSome ∧ 0 < o.length := by
    by_contra hnot
    have hcomplete : s.store.currentQueueObject.isSome = false ∨ hasLiteral (header response digits) = 0 := by
      rw [ha.hasLiteral_eq]
      rcases not_and_or.mp hnot with hc | hn
      · exact .inl (Bool.not_eq_true _ ▸ hc)
      · exact .inr (by omega)
    obtain ⟨entry, hentry, hline⟩ := hs.header_complete (p := p) hcomplete
    obtain ⟨after, hafter⟩ := goesOn_grows (p := p) (o ++ R ++ crlf)
      ((receiveLine p (header response digits) s).map fun t => t.withRbuf (s.rbuf ++ bytes))
    have hstate : ((receiveLine p (header response digits) s).map fun t : Reader =>
        t.withRbuf (s.rbuf ++ bytes)).state.handled = s.handled ++ [entry] := by
      rw [← hline]
      cases receiveLine p (header response digits) s <;> rfl
    rw [← hgo, hhandled, hstate, List.append_assoc] at hafter
    obtain ⟨rfl, -⟩ := List.cons.inj (List.append_cancel_left hafter)
    rw [hentry] at hfirst
    cases hfirst
  obtain ⟨hc, hn⟩ := hrecognized
  obtain ⟨u, hu, hreading, hresponses, huhandled⟩ :=
    hs.receives_header (p := p) hc hn ha.bounded ha.hasLiteral_eq ha.undisturbed
  have hdrain : updateRead p s bytes = drain p (u.withRbuf (o ++ R ++ crlf)) := by
    rw [hgo, hu]
    rfl
  have hgrows : u.handled <+: (updateRead p s bytes).handled := by
    rw [hdrain]
    exact readLines_grows _ (u.withRbuf (o ++ R ++ crlf))
  have hsplit : (updateRead p s bytes).handled =
      u.handled ++ ⟨header response digits, [header response digits] ++ [R], some data, true⟩ :: more := by
    obtain ⟨after, hafter⟩ := hgrows
    rw [hhandled, huhandled, List.append_assoc] at hafter
    obtain ⟨rfl, -⟩ := List.cons.inj (List.append_cancel_left hafter)
    rw [hhandled, huhandled, List.append_assoc]
    rfl
  have hcut : Cut o R := by
    by_contra hcut
    have hmisses := (hreading.withRbuf (o ++ R ++ crlf)).misses_of_not_cut (p := p) o.length le_rfl hR hcut rfl
    rw [← hdrain] at hmisses
    exact hmisses _ _ _ _ hsplit
  obtain ⟨data', ⟨e, more', -, hcomplete⟩, -⟩ :=
    (hreading.withRbuf (o ++ R ++ crlf)).completes_of_cut (p := p) o.length le_rfl hR hcut [] []
      (by simp [Reader.withRbuf, crlf])
  rw [List.foldl_nil, ← hdrain, hsplit] at hcomplete
  obtain ⟨hentry, -⟩ := List.cons.inj (List.append_cancel_left hcomplete)
  have hkept := List.append_cancel_right (Handled.mk.inj hentry).2.1
  exact ⟨hc, hn, (hkept.trans hresponses).symm, hcut⟩

theorem framed_iff (p : Kind → Store → Outcome Store) (s : Reader) (response digits o R : Bytes) (hs : Ready s)
    (ha : Announces p s response digits o) (hR : splitLines R = none)
    (hpart : s.rbuf <+: header response digits ++ crlf) :
    (∀ (reads : List Bytes) (rest : Bytes),
        s.rbuf ++ reads.flatten = header response digits ++ crlf ++ o ++ R ++ crlf ++ rest →
        Framed s (header response digits) o R (reads.foldl (updateRead p) s)) ↔
      Recognized s (header response digits) o R := by
  refine ⟨fun h => ?_, fun h reads rest hreads => ha.framed hs hR h reads rest hreads⟩
  obtain ⟨more, hmore⟩ := hpart
  have hbytes : s.rbuf ++ (more ++ o ++ R ++ crlf) = header response digits ++ 13 :: 10 :: (o ++ R ++ crlf) := by
    rw [← List.append_assoc, ← List.append_assoc, ← List.append_assoc, hmore]
    simp [crlf]
  refine ha.recognized hs hR hbytes (h [more ++ o ++ R ++ crlf] [] ?_)
  rw [List.flatten_singleton, hbytes]
  simp [crlf]

end Framing

/-- A store with `UID FETCH` in flight. -/
def fetching : Store := { currentQueueObject := some ⟨.uidFetchBodyText, "", 2⟩, lastCommand := .uidFetchBodyText }

/-- The octets `abcde` end inside a line: `subdataToIndex:` takes the one byte behind them as their number. -/
theorem cut_octets_not_framed :
    ¬∀ (reads : List Bytes) (rest : Bytes),
      reads.flatten = header (ascii "1 FETCH (BODY[TEXT] ") (ascii "5") ++ crlf ++ ascii "abcde" ++ ascii ")" ++
          crlf ++ rest →
        Framed { store := fetching } (header (ascii "1 FETCH (BODY[TEXT] ") (ascii "5")) (ascii "abcde") (ascii ")")
          (reads.foldl (updateRead fun _ s => .continues s) { store := fetching }) := by
  intro h
  obtain ⟨first, data, more, hhandled, -, hdata⟩ := h [ascii "* 1 FETCH (BODY[TEXT] {5}\r\nabcde)\r\n"] [] (by decide)
  have hsecond := congrArg (fun l : List Handled => (l.drop 1).head?.map Handled.nsData) hhandled
  have hone : some (some [97]) = some (some data) := hsecond
  obtain rfl := Option.some.inj (Option.some.inj hone)
  revert hdata
  decide

theorem framed_iff_exchange :
    Framed { store := fetching } (header (ascii "549 FETCH (BODY[TEXT] ") (ascii "7")) (ascii "Hi.\r\n\r\n")
      (ascii " UID 29905)")
      ([ascii "* 549 FETCH (BODY[TEXT] {7}\r", ascii "\nHi.\r\n\r", ascii "\n UID 29905)\r\n"].foldl
        (updateRead fun _ s => .continues s) { store := fetching }) := by
  refine (framed_iff (fun _ s => .continues s) { store := fetching } _ _ _ _ ⟨rfl, rfl, rfl⟩ ?_ rfl ?_).mpr ?_ _ [] ?_
  · refine ⟨by decide, by decide +kernel, by decide, by decide, fun _ => ⟨_, rfl, rfl, rfl, rfl, rfl⟩⟩
  · exact List.nil_prefix
  · exact ⟨rfl, by decide, by decide, .inl (by decide)⟩
  · decide

end Xperimentum.Pantomime.IMAPReader
