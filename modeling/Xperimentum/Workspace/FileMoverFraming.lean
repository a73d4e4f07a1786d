import Xperimentum.Workspace.FileMover

/-! Every line of the pipe is processed once and whole exactly where each piece ends behind a line feed, or is a
line of one character whose line feed comes next. -/

namespace Xperimentum.Workspace.FileMover

open Xperimentum.Lib.Lines Xperimentum.Lib.Utf8

/-! Characters with the place of their first byte in the stream. -/

@[grind =] def placed : ℕ → Text → List (ℕ × Char)
  | _, [] => []
  | p, c :: t => (p, c) :: placed (p + c.utf8Size) t

def isNewlineAt (c : ℕ × Char) : Bool := isNewline c.2

def unitsAt (c : ℕ × Char) : ℕ := units c.2

def initWithDataAt (p : ℕ) (data : Bytes) : Option (List (ℕ × Char)) :=
  (decode (fixBOM (fixBOM data))).map (placed (p + (data.length - (fixBOM (fixBOM data)).length)))

/-- The lines that the calls for the pieces process, with the places of their characters. -/
@[grind =] def processed : ℕ → List (ℕ × Char) → List Bytes → List (List (ℕ × Char))
  | _, _, [] => []
  | p, truncatedLine, data :: chunks =>
    match initWithDataAt p data with
    | none => processed (p + data.length) truncatedLine chunks
    | some input =>
      received isNewlineAt truncatedLine input ++
        processed (p + data.length) (remembered isNewlineAt unitsAt truncatedLine input) chunks

def Framed (text : Text) (chunks : List Bytes) : Prop :=
  processed 0 [] chunks = lines isNewlineAt (placed 0 text) ∧
    ∀ m : FileMover, (chunks.foldlM readInput (m, [])).map Prod.fst =
      (readInput (m, []) (encode text)).map Prod.fst

/-- The pieces from a place that is at the start of a line or not. -/
def WellCut : Bool → List Bytes → Prop
  | _, [] => True
  | atStart, data :: chunks =>
    data = [] ∧ WellCut atStart chunks ∨ data.getLast? = some 10 ∧ WellCut true chunks ∨
      atStart ∧ data.length = 1 ∧ chunks.flatten.head? = some 10 ∧ WellCut false chunks

variable {p : ℕ} {t u : Text} {c : Char} {data : Bytes} {chunks : List Bytes}

lemma placed_append (p : ℕ) (t u : Text) : placed p (t ++ u) = placed p t ++ placed (p + (encode t).length) u := by
  induction t generalizing p with
  | nil => simp [placed]
  | cons c t ih => simp [placed, encode_cons, ih, add_assoc]

lemma placed_map (p : ℕ) (t : Text) : (placed p t).map Prod.snd = t := by
  induction t generalizing p with
  | nil => rfl
  | cons c t ih => simp [placed, ih]

lemma le_of_mem_placed {x : ℕ × Char} (h : x ∈ placed p t) : p ≤ x.1 := by
  induction t generalizing p with
  | nil => cases h
  | cons c t ih =>
    rcases List.mem_cons.mp h with rfl | h
    · exact le_rfl
    · exact (Nat.le_add_right _ _).trans (ih h)

lemma lt_of_mem_placed {x : ℕ × Char} (h : x ∈ placed p t) : x.1 < p + (encode t).length := by
  induction t generalizing p with
  | nil => cases h
  | cons c t ih =>
    have hsize := c.utf8Size_pos
    rw [encode_cons, List.length_append, String.length_utf8EncodeChar]
    rcases List.mem_cons.mp h with rfl | h
    · change p < _
      omega
    · have := ih h
      omega

@[simp] lemma placed_eq_nil : placed p t = [] ↔ t = [] := by cases t <;> simp [placed]

/-! The state is that of handling the processed lines. -/

lemma initWithData_eq (p : ℕ) (data : Bytes) : initWithData data = (initWithDataAt p data).map (List.map Prod.snd) := by
  rw [initWithData, initWithDataAt, Option.map_map]
  cases decode (fixBOM (fixBOM data)) with
  | none => rfl
  | some t => simp [placed_map]

lemma assembled_map (truncatedLine input : List (ℕ × Char)) :
    assembled isNewline (truncatedLine.map Prod.snd) (input.map Prod.snd) =
      (assembled isNewlineAt truncatedLine input).map (List.map Prod.snd) := by
  have hparts : parts isNewline (input.map Prod.snd) = (parts isNewlineAt input).map (List.map Prod.snd) :=
    parts_map Prod.snd input
  rw [assembled, assembled, hparts]
  cases parts isNewlineAt input <;> simp

lemma received_map (truncatedLine input : List (ℕ × Char)) :
    received isNewline (truncatedLine.map Prod.snd) (input.map Prod.snd) =
      (received isNewlineAt truncatedLine input).map (List.map Prod.snd) := by
  rw [received, received, assembled_map, List.filter_map]
  congr 1
  apply List.filter_congr
  intro line _
  simp

lemma remembered_map (truncatedLine input : List (ℕ × Char)) :
    remembered isNewline units (truncatedLine.map Prod.snd) (input.map Prod.snd) =
      (remembered isNewlineAt unitsAt truncatedLine input).map Prod.snd := by
  have htruncated : isTruncated isNewline units (input.map Prod.snd) = isTruncated isNewlineAt unitsAt input := by
    simp only [isTruncated, List.map_map, List.getLast?_map, Option.any_map]
    rfl
  rw [remembered, remembered, htruncated, assembled_map]
  split
  · rw [List.getLast?_map]
    cases (assembled isNewlineAt truncatedLine input).getLast? <;> rfl
  · rfl

lemma readInput_processed (p : ℕ) (truncatedLine : List (ℕ × Char)) (m : FileMover) (chunks : List Bytes) :
    (chunks.foldlM readInput (m, truncatedLine.map Prod.snd)).map Prod.fst =
      ((processed p truncatedLine chunks).map (List.map Prod.snd)).foldlM handle m := by
  induction chunks generalizing p truncatedLine m with
  | nil => rfl
  | cons data chunks ih =>
    rw [List.foldlM_cons, readInput, initWithData_eq p, processed]
    cases initWithDataAt p data with
    | none => exact ih (p + data.length) truncatedLine m
    | some input =>
      simp only [Option.map_some, received_map, remembered_map, List.map_append, List.foldlM_append]
      cases ((received isNewlineAt truncatedLine input).map (List.map Prod.snd)).foldlM handle m with
      | none => rfl
      | some m' => exact ih _ _ m'

/-! Characters of the processed lines. -/

lemma mem_assembled {truncatedLine input line : List (ℕ × Char)} (h : line ∈ assembled isNewlineAt truncatedLine input)
    {x : ℕ × Char} (hx : x ∈ line) : x ∈ truncatedLine ∨ x ∈ input := by
  have hparts : ∀ part ∈ parts isNewlineAt input, x ∈ part → x ∈ input := fun part hp hm =>
    ((mem_parts input x).mp ⟨part, hp, hm⟩).1
  rw [assembled] at h
  obtain ⟨part, rest, hinput⟩ := List.exists_cons_of_ne_nil (parts_ne_nil isNewlineAt input)
  rw [hinput] at h hparts
  rcases List.mem_cons.mp h with rfl | h
  · rcases List.mem_append.mp hx with hx | hx
    · exact .inl hx
    · exact .inr (hparts part List.mem_cons_self hx)
  · exact .inr (hparts line (List.mem_cons_of_mem _ h) hx)

lemma mem_remembered {truncatedLine input : List (ℕ × Char)} {x : ℕ × Char}
    (h : x ∈ remembered isNewlineAt unitsAt truncatedLine input) : x ∈ truncatedLine ∨ x ∈ input := by
  rw [remembered] at h
  split at h
  · cases hlast : (assembled isNewlineAt truncatedLine input).getLast? with
    | none => simp [hlast] at h
    | some line =>
      rw [hlast] at h
      exact mem_assembled (List.mem_of_getLast? hlast) h
  · cases h

lemma le_of_mem_input {input : List (ℕ × Char)} (hinput : initWithDataAt p data = some input) {x : ℕ × Char}
    (hx : x ∈ input) : p + (data.length - (fixBOM (fixBOM data)).length) ≤ x.1 := by
  obtain ⟨t, -, rfl⟩ := Option.map_eq_some_iff.mp hinput
  exact le_of_mem_placed hx

lemma mem_processed {truncatedLine line : List (ℕ × Char)} (h : line ∈ processed p truncatedLine chunks)
    {x : ℕ × Char} (hx : x ∈ line) : x ∈ truncatedLine ∨ p ≤ x.1 := by
  induction chunks generalizing p truncatedLine with
  | nil => cases h
  | cons data chunks ih =>
    rw [processed] at h
    cases hinput : initWithDataAt p data with
    | none =>
      rw [hinput] at h
      exact (ih h).imp_right (le_trans (Nat.le_add_right _ _))
    | some input =>
      simp only [hinput, List.mem_append] at h
      have hle : x ∈ input → p ≤ x.1 := fun hm => (Nat.le_add_right _ _).trans (le_of_mem_input hinput hm)
      rcases h with h | h
      · exact (mem_assembled (List.mem_filter.mp h).1 hx).imp_right hle
      · rcases ih h with hm | hp
        · exact (mem_remembered hm).imp_right hle
        · exact .inr ((Nat.le_add_right _ _).trans hp)

lemma mem_of_processed {truncatedLine : List (ℕ × Char)}
    (h : processed p truncatedLine chunks = lines isNewlineAt (placed p t)) {x : ℕ × Char} (hx : x ∈ placed p t)
    (hn : ¬ isNewlineAt x) : ∃ line ∈ processed p truncatedLine chunks, x ∈ line := by
  rw [h]
  exact (mem_lines _ _).mpr ⟨hx, hn⟩

/-! Pieces that begin between two characters. -/

lemma fixBOM_cases (data : Bytes) : fixBOM data = data ∨ ∃ rest, data = 0xef :: 0xbb :: 0xbf :: rest := by
  unfold fixBOM
  split
  · exact .inr ⟨_, rfl⟩
  · exact .inl rfl

lemma fixBOM_mark (rest : Bytes) : fixBOM (0xef :: 0xbb :: 0xbf :: rest) = rest := rfl

lemma length_fixBOM_le (data : Bytes) : (fixBOM data).length ≤ data.length := by
  unfold fixBOM
  split
  · simp only [List.length_cons]
    omega
  · exact le_rfl

lemma initWithDataAt_of_fixBOM (h : fixBOM data = data) (p : ℕ) : initWithDataAt p data = (decode data).map (placed p) := by
  simp [initWithDataAt, h]

lemma exists_lost (hpre : data <+: encode t) (hnone : decode data = none) (p : ℕ) :
    ∃ x ∈ placed p t, ¬ isNewlineAt x ∧ x.1 < p + data.length := by
  induction t generalizing data p with
  | nil =>
    rw [encode_nil, List.prefix_nil] at hpre
    simp [hpre] at hnone
  | cons c t ih =>
    have hne : data ≠ [] := by
      rintro rfl
      simp at hnone
    by_cases hc : c = '\n'
    · subst hc
      rw [encode_cons, encode_newline, List.singleton_append] at hpre
      cases data with
      | nil => exact absurd rfl hne
      | cons a data =>
        obtain ⟨ha, htail⟩ := List.cons_prefix_cons.mp hpre
        subst ha
        have hdata : decode data = none := by
          have := decode_cons '\n' data
          rw [encode_newline, List.singleton_append, hnone] at this
          simpa using this.symm
        obtain ⟨x, hx, hn, hlt⟩ := ih htail hdata (p + 1)
        refine ⟨x, List.mem_cons_of_mem _ hx, hn, ?_⟩
        simp only [List.length_cons]
        omega
    · refine ⟨(p, c), List.mem_cons_self, by simpa [isNewlineAt, isNewline] using hc, ?_⟩
      have := List.length_pos_of_ne_nil hne
      change p < _
      omega

lemma first_ne_newline {rest : Bytes} (hpre : 0xef :: rest <+: encode t) : ∃ c u, t = c :: u ∧ c ≠ '\n' := by
  cases t with
  | nil => simp at hpre
  | cons c u =>
    refine ⟨c, u, rfl, ?_⟩
    rintro rfl
    rw [encode_cons, encode_newline, List.singleton_append] at hpre
    exact absurd (List.cons_prefix_cons.mp hpre).1 (by decide)

lemma not_isNewlineAt (h : c ≠ '\n') (p : ℕ) : ¬ isNewlineAt (p, c) := by simpa [isNewlineAt, isNewline] using h

lemma exists_lost_of_none (hpre : data <+: encode t) (hnone : initWithDataAt p data = none) :
    ∃ x ∈ placed p t, ¬ isNewlineAt x ∧ x.1 < p + data.length := by
  rcases fixBOM_cases data with hsame | ⟨rest, rfl⟩
  · rw [initWithDataAt_of_fixBOM hsame, Option.map_eq_none_iff] at hnone
    exact exists_lost hpre hnone p
  · obtain ⟨c, u, rfl, hc⟩ := first_ne_newline hpre
    exact ⟨(p, c), List.mem_cons_self, not_isNewlineAt hc p, Nat.lt_add_of_pos_right (by simp)⟩

lemma processed_ne {truncatedLine : List (ℕ × Char)} (hne : truncatedLine ≠ []) (hlt : ∀ x ∈ truncatedLine, x.1 < p)
    (ht : t ≠ []) (hcut : chunks.flatten = encode t) :
    processed p truncatedLine chunks ≠ lines isNewlineAt (placed p t) := by
  intro h
  cases chunks with
  | nil => exact ht (encode_eq_nil.mp hcut.symm)
  | cons data chunks =>
    have hpre : data <+: encode t := ⟨chunks.flatten, hcut⟩
    cases hinput : initWithDataAt p data with
    | some input =>
      obtain ⟨part, rest, hparts⟩ := List.exists_cons_of_ne_nil (parts_ne_nil isNewlineAt input)
      obtain ⟨x, hx⟩ := List.exists_mem_of_ne_nil _ hne
      have hline : truncatedLine ++ part ∈ processed p truncatedLine (data :: chunks) := by
        simp [processed, hinput, received, assembled, hparts, hne]
      rw [h] at hline
      have hmem := (mem_lines (placed p t) x).mp ⟨_, hline, List.mem_append_left _ hx⟩
      exact (hlt x hx).not_ge (le_of_mem_placed hmem.1)
    | none =>
      obtain ⟨x, hx, hn, hlost⟩ := exists_lost_of_none hpre hinput
      obtain ⟨line, hline, hm⟩ := mem_of_processed h hx hn
      rw [processed, hinput] at hline
      rcases mem_processed hline hm with hm | hle
      · exact (hlt x hm).not_ge (le_of_mem_placed hx)
      · exact hlost.not_ge hle

lemma exists_text (hpre : data <+: encode t) (h : processed p [] (data :: chunks) = lines isNewlineAt (placed p t)) :
    ∃ u, data = encode u ∧ fixBOM data = data := by
  cases hinput : initWithDataAt p data with
  | none =>
    obtain ⟨x, hx, hn, hlost⟩ := exists_lost_of_none hpre hinput
    obtain ⟨line, hline, hm⟩ := mem_of_processed h hx hn
    rw [processed, hinput] at hline
    rcases mem_processed hline hm with hm | hle
    · cases hm
    · exact absurd hle hlost.not_ge
  | some input =>
    rcases fixBOM_cases data with hsame | ⟨rest, rfl⟩
    · rw [initWithDataAt_of_fixBOM hsame] at hinput
      obtain ⟨u, hu, -⟩ := Option.map_eq_some_iff.mp hinput
      exact ⟨u, eq_encode hu, hsame⟩
    · exfalso
      obtain ⟨c, u, rfl, hc⟩ := first_ne_newline hpre
      obtain ⟨line, hline, hm⟩ := mem_of_processed h List.mem_cons_self (not_isNewlineAt hc p)
      have hshort := length_fixBOM_le rest
      have hlater : ∀ x ∈ input, p < x.1 := by
        intro x hx
        have hle := le_of_mem_input hinput hx
        rw [fixBOM_mark] at hle
        simp only [List.length_cons] at hle
        omega
      simp only [processed, hinput, List.mem_append] at hline
      rcases hline with hline | hline
      · rcases mem_assembled (List.mem_filter.mp hline).1 hm with hm | hm
        · cases hm
        · exact lt_irrefl p (hlater _ hm)
      · rcases mem_processed hline hm with hm | hle
        · rcases mem_remembered hm with hm | hm
          · cases hm
          · exact lt_irrefl p (hlater _ hm)
        · simp only [List.length_cons] at hle
          omega

/-! One piece. -/

lemma assembled_nil (input : List (ℕ × Char)) : assembled isNewlineAt [] input = parts isNewlineAt input := by
  rw [assembled]
  cases parts isNewlineAt input <;> simp

lemma processed_text (hsame : fixBOM (encode u) = encode u) (p : ℕ) (chunks : List Bytes) :
    processed p [] (encode u :: chunks) = lines isNewlineAt (placed p u) ++
      processed (p + (encode u).length) (remembered isNewlineAt unitsAt [] (placed p u)) chunks := by
  have hinput : initWithDataAt p (encode u) = some (placed p u) := by
    rw [initWithDataAt_of_fixBOM hsame, decode_encode, Option.map_some]
  rw [processed, hinput]
  simp only [received, assembled_nil, lines]

lemma remembered_of_newline (p : ℕ) (truncatedLine : List (ℕ × Char)) (t : Text) :
    remembered isNewlineAt unitsAt truncatedLine (placed p (t ++ ['\n'])) = [] := by
  rw [remembered, if_neg]
  simp [isTruncated, placed_append, placed, isNewlineAt, isNewline]

lemma lines_of_newline (p : ℕ) (t u : Text) :
    lines isNewlineAt (placed p (t ++ ['\n'] ++ u)) = lines isNewlineAt (placed p (t ++ ['\n'])) ++
      lines isNewlineAt (placed (p + (encode (t ++ ['\n'])).length) u) := by
  rw [placed_append, placed_append p t]
  exact lines_append_of_end rfl

lemma lines_in_front_of_newline (p : ℕ) (t u : Text) :
    lines isNewlineAt (placed p (t ++ '\n' :: u)) = lines isNewlineAt (placed p t) ++
      lines isNewlineAt (placed (p + (encode t).length) ('\n' :: u)) := by
  rw [placed_append]
  exact lines_append_of_start rfl

lemma processed_nil (p : ℕ) (chunks : List Bytes) : processed p [] ([] :: chunks) = processed p [] chunks := by
  have h := processed_text (u := []) (by rfl) p chunks
  simpa [placed, remembered, isTruncated] using h

lemma lined_split (h : Lined b (t ++ u)) (ht : t ≠ []) :
    (∃ front, t = front ++ ['\n']) ∧ Lined true u ∨
      (∃ front c, t = front ++ [c] ∧ c ≠ '\n') ∧ Lined false u := by
  obtain ⟨front, c, rfl⟩ := List.eq_nil_or_concat' t |>.resolve_left ht
  rw [List.append_assoc, List.singleton_append] at h
  have hu := h.behind
  by_cases hc : c = '\n'
  · rw [decide_eq_true hc] at hu
    exact .inl ⟨⟨front, by rw [hc]⟩, hu⟩
  · rw [decide_eq_false hc] at hu
    exact .inr ⟨⟨front, c, rfl, hc⟩, hu⟩

lemma encode_getLast (front : Text) : (encode (front ++ ['\n'])).getLast? = some 10 := by
  rw [encode_append, encode_cons, encode_newline]
  simp

lemma starts_with_newline {v : Text} (hfront : ∃ front c, u = front ++ [c] ∧ c ≠ '\n') (hv : Lined false v)
    {later : List (List (ℕ × Char))}
    (h : lines isNewlineAt (placed p u) ++ later = lines isNewlineAt (placed p (u ++ v))) :
    (∃ w, v = '\n' :: w) ∧ later = lines isNewlineAt (placed (p + (encode u).length) v) ∧
      ∃ init last, parts isNewlineAt (placed p u) = init ++ [last] ∧ last ≠ [] := by
  obtain ⟨init, last, hparts, hend, happ⟩ := parts_append isNewlineAt (placed p u)
  obtain ⟨front, c, rfl, hc⟩ := hfront
  have hlast : last ≠ [] := by
    intro hnil
    obtain ⟨before, x, hx, hnew⟩ := hend hnil (by simp)
    rw [placed_append, placed, placed] at hx
    have hxc := (List.append_inj' hx rfl).2
    rw [List.cons.injEq] at hxc
    rw [← hxc.1] at hnew
    exact not_isNewlineAt hc _ hnew
  obtain ⟨part, rest, hrest⟩ := List.exists_cons_of_ne_nil
    (parts_ne_nil isNewlineAt (placed (p + (encode (front ++ [c])).length) v))
  have hall := happ _ part rest hrest
  rw [← placed_append] at hall
  have hu : lines isNewlineAt (placed p (front ++ [c])) = init.filter (· ≠ []) ++ [last] := by
    simp [lines, hparts, hlast]
  have huv : lines isNewlineAt (placed p (front ++ [c] ++ v)) =
      init.filter (· ≠ []) ++ (last ++ part) :: rest.filter (· ≠ []) := by
    rw [lines, hall]
    simp [hlast]
  rw [hu, huv, List.append_assoc, List.append_cancel_left_eq, List.singleton_append, List.cons.injEq] at h
  obtain ⟨hpart, hlater⟩ := h
  have hnil : part = [] := by simpa using hpart
  subst hnil
  obtain ⟨x, w, hx, hnew⟩ := parts_eq_nil_cons hrest (by simpa using hv.ne_nil)
  refine ⟨?_, by rw [hlater, lines, hrest]; simp, init, last, hparts, hlast⟩
  cases v with
  | nil => exact absurd rfl hv.ne_nil
  | cons d w =>
    rw [placed, List.cons.injEq] at hx
    rw [← hx.1] at hnew
    have hd : d = '\n' := by simpa [isNewlineAt, isNewline] using hnew
    exact ⟨w, by rw [hd]⟩

lemma remembered_cases {init : List (List (ℕ × Char))} {last : List (ℕ × Char)}
    (hparts : parts isNewlineAt (placed p u) = init ++ [last]) (hfront : ∃ front c, u = front ++ [c] ∧ c ≠ '\n') :
    remembered isNewlineAt unitsAt [] (placed p u) = last ∨
      remembered isNewlineAt unitsAt [] (placed p u) = [] ∧ ∃ c, u = [c] ∧ c ≠ '\n' := by
  rw [remembered, assembled_nil, hparts]
  split
  next => exact .inl (by simp)
  next hshort =>
    refine .inr ⟨rfl, ?_⟩
    obtain ⟨front, c, rfl, hc⟩ := hfront
    have hunits : ∀ d, 1 ≤ units d := fun d => by unfold units; split <;> omega
    have hend : (placed p (front ++ [c])).getLast?.any (fun x => !isNewlineAt x) = true := by
      rw [placed_append, placed, placed]
      simp [isNewlineAt, isNewline, hc]
    rw [isTruncated, hend, Bool.and_true, decide_eq_true_eq, not_lt] at hshort
    cases front with
    | nil => exact ⟨c, rfl, hc⟩
    | cons d front =>
      have hd := hunits d
      have hcu := hunits c
      simp only [List.cons_append, placed, placed_append, List.map_cons, List.map_append, List.sum_cons, List.sum_append,
        List.map_nil, List.sum_nil, unitsAt] at hshort
      omega

theorem wellCut_of_processed {b : Bool} (ht : Lined b t) (hb : b = false → ∃ u, t = '\n' :: u)
    (hcut : chunks.flatten = encode t) (h : processed p [] chunks = lines isNewlineAt (placed p t)) :
    WellCut b chunks := by
  induction chunks generalizing p b t with
  | nil => trivial
  | cons data chunks ih =>
    by_cases hdata : data = []
    · subst hdata
      rw [processed_nil] at h
      exact .inl ⟨rfl, ih ht hb hcut h⟩
    rw [List.flatten_cons] at hcut
    obtain ⟨u, rfl, hsame⟩ := exists_text ⟨_, hcut⟩ h
    obtain ⟨v, rfl⟩ := exists_rest ⟨_, hcut⟩
    rw [encode_append, List.append_cancel_left_eq] at hcut
    rw [processed_text hsame] at h
    have hu : u ≠ [] := fun hu => hdata (by rw [hu, encode_nil])
    rcases lined_split ht hu with ⟨⟨front, rfl⟩, hv⟩ | ⟨hfront, hv⟩
    · rw [remembered_of_newline, lines_of_newline, List.append_cancel_left_eq] at h
      exact .inr (.inl ⟨encode_getLast front, ih hv (by simp) hcut h⟩)
    · obtain ⟨⟨w, rfl⟩, hlater, init, last, hparts, hlast⟩ := starts_with_newline hfront hv h
      have hlt : ∀ x ∈ last, x.1 < p + (encode u).length := fun x hx =>
        lt_of_mem_placed ((mem_parts _ _).mp ⟨last, by rw [hparts]; simp, hx⟩).1
      rcases remembered_cases hparts hfront with hrem | ⟨hrem, c, rfl, hc⟩
      · rw [hrem] at hlater
        exact absurd hlater (processed_ne hlast hlt (by simp) hcut)
      · rw [hrem] at hlater
        cases b with
        | false =>
          obtain ⟨w', hw⟩ := hb rfl
          exact absurd (List.cons.inj hw).1 hc
        | true =>
          have hsize := (ht.1 rfl).1
          refine .inr (.inr ⟨rfl, ?_, ?_, ih hv (fun _ => ⟨w, rfl⟩) hcut hlater⟩)
          · simpa [encode_cons] using hsize
          · rw [hcut, encode_cons, encode_newline]
            rfl

lemma no_mark (ht : Lined true t) (hpre : data <+: encode t) : fixBOM data = data := by
  rcases fixBOM_cases data with hsame | ⟨rest, rfl⟩
  · exact hsame
  · obtain ⟨c, u, rfl, hc⟩ := first_ne_newline hpre
    have hsize := (ht.1 rfl).1
    rw [encode_cons, encode_of_size hsize] at hpre
    have hbyte := (List.cons_prefix_cons.mp hpre).1
    rw [Char.utf8Size_eq_one_iff, UInt32.le_iff_toNat_le] at hsize
    have hn := congrArg UInt8.toNat hbyte
    simp only [UInt32.toNat_toUInt8] at hn
    change (239 : ℕ) = c.val.toNat % 2 ^ 8 at hn
    have hs : c.val.toNat ≤ 127 := hsize
    omega

lemma no_mark_newline (hpre : data <+: encode ('\n' :: t)) : fixBOM data = data := by
  rcases fixBOM_cases data with hsame | ⟨rest, rfl⟩
  · exact hsame
  · obtain ⟨c, u, htc, hc⟩ := first_ne_newline hpre
    exact absurd (List.cons.inj htc).1.symm hc

lemma no_mark_at {b : Bool} (ht : Lined b t) (hb : b = false → ∃ u, t = '\n' :: u) (hpre : data <+: encode t) :
    fixBOM data = data := by
  cases b with
  | true => exact no_mark ht hpre
  | false =>
    obtain ⟨u, rfl⟩ := hb rfl
    exact no_mark_newline hpre

lemma newline_of_head (h : (encode t).head? = some 10) : ∃ u, t = '\n' :: u := by
  cases t with
  | nil => simp at h
  | cons c u =>
    rw [encode_cons, List.head?_append_of_ne_nil _ String.utf8EncodeChar_ne_nil] at h
    exact ⟨u, by rw [eq_newline (List.mem_of_head? h)]⟩

lemma remembered_single (h : c.utf8Size = 1) : remembered isNewlineAt unitsAt [] (placed p [c]) = [] := by
  have hunits : units c = 1 := by
    rw [Char.utf8Size_eq_one_iff, UInt32.le_iff_toNat_le] at h
    have hn : c.toNat ≤ 127 := h
    exact if_pos (by omega)
  simp [remembered, isTruncated, placed, unitsAt, hunits]

theorem processed_of_wellCut {b : Bool} (ht : Lined b t) (hb : b = false → ∃ u, t = '\n' :: u)
    (hcut : chunks.flatten = encode t) (h : WellCut b chunks) :
    processed p [] chunks = lines isNewlineAt (placed p t) := by
  induction chunks generalizing p b t with
  | nil =>
    obtain rfl : t = [] := encode_eq_nil.mp hcut.symm
    simp [processed, placed]
  | cons data chunks ih =>
    rcases h with ⟨rfl, h⟩ | ⟨hlast, h⟩ | ⟨hb', hlength, hhead, h⟩
    · rw [processed_nil]
      exact ih ht hb hcut h
    · rw [List.flatten_cons] at hcut
      have hsame := no_mark_at ht hb ⟨_, hcut⟩
      obtain ⟨front, rfl⟩ := List.getLast?_eq_some_iff.mp hlast
      obtain ⟨u, v, rfl, rfl⟩ := exists_text_of_newline ⟨_, hcut⟩
      have hdata : encode u ++ [10] = encode (u ++ ['\n']) := by
        rw [encode_append, encode_cons, encode_newline, encode_nil]
        rfl
      have hv := ht.behind
      have hsplit : u ++ '\n' :: v = u ++ ['\n'] ++ v := by simp
      rw [hdata] at hcut hsame ⊢
      rw [hsplit, encode_append (t := u ++ ['\n']), List.append_cancel_left_eq] at hcut
      rw [hsplit, processed_text hsame, remembered_of_newline, lines_of_newline, ih hv (by simp) hcut h]
    · subst hb'
      obtain ⟨x, rfl⟩ := List.length_eq_one_iff.mp hlength
      cases t with
      | nil => simp at hcut
      | cons c v =>
        have hsize := (ht.1 rfl).1
        have hc := (ht.1 rfl).2
        have hv := ht.2
        have hsame := no_mark ht ⟨_, hcut⟩
        have hdata : encode [c] = [c.val.toUInt8] := by simp [encode_cons, encode_of_size hsize]
        rw [encode_cons, encode_of_size hsize, List.flatten_cons, List.singleton_append, List.singleton_append,
          List.cons.injEq] at hcut
        obtain ⟨rfl, hcut⟩ := hcut
        rw [← hdata] at hsame ⊢
        rw [hcut] at hhead
        obtain ⟨w, rfl⟩ := newline_of_head hhead
        rw [decide_eq_false hc] at hv
        rw [processed_text hsame, remembered_single hsize, ih hv (fun _ => ⟨w, rfl⟩) hcut h]
        exact (lines_in_front_of_newline p [c] w).symm

lemma framed_of_processed (ht : Lined true t) (h : processed 0 [] chunks = lines isNewlineAt (placed 0 t)) :
    Framed t chunks := by
  refine ⟨h, fun m => ?_⟩
  have hwhole : processed 0 [] [encode t] = lines isNewlineAt (placed 0 t) := by
    rw [processed_text (no_mark ht List.prefix_rfl), processed, List.append_nil]
  have hpieces := readInput_processed 0 [] m chunks
  have honce := readInput_processed 0 [] m [encode t]
  rw [List.map_nil] at hpieces honce
  rw [hpieces, h, ← hwhole, ← honce, List.foldlM_cons]
  simp

/-- For what the tool's communicator prints, the calls process each line of the stream once and whole, with the
state that processing it at once gives, if and only if the stream is well cut. -/
theorem framed_iff_wellCut (comm : Communicator) (calls : List Communicator.Call)
    (hclean : ∀ call ∈ calls, ∀ field ∈ call.fields, Communicator.Clean field) (chunks : List Bytes)
    (hcut : chunks.flatten = encode (comm.printed calls)) :
    Framed (comm.printed calls) chunks ↔ WellCut true chunks := by
  have ht := Communicator.lined_printed comm hclean
  constructor
  · intro h
    exact wellCut_of_processed ht (by simp) hcut h.1
  · intro h
    exact framed_of_processed ht (processed_of_wellCut ht (by simp) hcut h)

theorem whole_line_framed : Framed (Communicator.init.printed [.howToHandleProblem .readError [] ['s']]) [[82], [10]] ↔
    WellCut true [[82], [10]] :=
  framed_iff_wellCut Communicator.init _ (by simp [Communicator.Call.fields, Communicator.Clean]) _ (by decide)

/-- The bytes of a count of 1234 that are cut after 12 are counted as 12 and as 1234. -/
theorem cut_count_not_framed : [[66, 9, 49, 50], [51, 52, 10]].flatten =
      encode (Communicator.init.printed [.showProcessingFilename [] [] [] 1234 .copyOp]) ∧
    ¬ Framed (Communicator.init.printed [.showProcessingFilename [] [] [] 1234 .copyOp])
      [[66, 9, 49, 50], [51, 52, 10]] := by
  refine ⟨by decide, fun h => ?_⟩
  have hfirst : ([66, 9, 49, 50] : Bytes) = encode ['B', '\t', '1', '2'] := by decide
  have hlines := h.1
  have hpiece : lines isNewlineAt (placed 0 ['B', '\t', '1', '2']) = [[(0, 'B'), (1, '\t'), (2, '1'), (3, '2')]] := by
    decide
  have hwhole : lines isNewlineAt
      (placed 0 (Communicator.init.printed [.showProcessingFilename [] [] [] 1234 .copyOp])) =
        [[(0, 'B'), (1, '\t'), (2, '1'), (3, '2'), (4, '3'), (5, '4')]] := by decide
  rw [hfirst, processed_text (by decide), hpiece, hwhole] at hlines
  simp at hlines

end Xperimentum.Workspace.FileMover
