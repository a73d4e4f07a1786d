import Xperimentum.Pantomime.FormatFlowed

/-! The texts without quotes that unwrapping gives back from their wrapped form. -/

namespace Xperimentum.Pantomime.FormatFlowed

section Breaks

variable {limit depth : ℕ} {r w : Bytes}

lemma lastBlank_concat (w : Bytes) (c : UInt8) :
    lastBlank (w ++ [c]) = if c = 32 then w.length else lastBlank w := by
  rw [lastBlank, List.zipIdx_append, List.foldl_append]
  simp [lastBlank]

lemma lastBlank_eq (h : lastBlank w ≠ 0) : w[lastBlank w]? = some 32 := by
  induction w using List.reverseRecOn with
  | nil => exact absurd rfl h
  | append_singleton w c ih =>
    rw [lastBlank_concat] at h ⊢
    split at h
    · next hc =>
      rw [if_pos hc, List.getElem?_append_right le_rfl, hc]
      simp
    · next hc =>
      rw [if_neg hc]
      have hw := ih h
      rwa [List.getElem?_append_left (List.getElem?_eq_some_iff.mp hw).1]

lemma getLast?_take {n : ℕ} {c : UInt8} (h : r[n]? = some c) : (r.take (n + 1)).getLast? = some c := by
  rw [List.take_add_one, h]
  simp

lemma getElem?_takeWhile (h : (r.takeWhile (· ≠ 32)).length < r.length) :
    r[(r.takeWhile (· ≠ 32)).length]? = some 32 := by
  induction r with
  | nil => cases h
  | cons c r ih =>
    by_cases hc : c = 32
    · simp [hc]
    · rw [List.takeWhile_cons_of_pos (by simpa using hc), List.length_cons] at h ⊢
      exact ih (by simpa using h)

lemma breakAt_spec (hr : r ≠ []) : 0 < breakAt limit depth r ∧
    (breakAt limit depth r < r.length → (r.take (breakAt limit depth r)).getLast? = some 32) := by
  have hpos := List.length_pos_of_ne_nil hr
  simp only [breakAt]
  split
  · exact ⟨hpos, fun h => absurd h (lt_irrefl _)⟩
  · by_cases hblank : lastBlank (r.take (min r.length (limit - 1 - depth))) = 0
    · rw [if_pos hblank]
      generalize min r.length (limit - 1 - depth) = reach
      split
      · next hlt =>
        refine ⟨Nat.succ_pos _, fun _ => getLast?_take ?_⟩
        rw [← List.getElem?_drop]
        refine getElem?_takeWhile ?_
        rw [List.length_drop]
        omega
      · next hlt => exact ⟨by omega, fun h => absurd h hlt⟩
    · have hget := lastBlank_eq hblank
      rw [if_neg hblank]
      generalize lastBlank (r.take (min r.length (limit - 1 - depth))) = blank at hget ⊢
      rw [List.getElem?_take] at hget
      split at hget
      · split
        · exact ⟨Nat.succ_pos _, fun _ => getLast?_take hget⟩
        · next hlt => exact absurd (List.getElem?_eq_some_iff.mp hget).1 hlt
      · cases hget

/-- The parts of a line that does not end in a blank: all but the last one end in one. -/
structure Cut (line : Bytes) (ps : List Bytes) (init : List Bytes) (last : Bytes) : Prop where
  parts : ps = init ++ [last]
  joined : init.flatten ++ last = line
  blank : ∀ p ∈ init, p.getLast? = some 32
  fixed : last.getLast? ≠ some 32
  nonempty : line ≠ [] → last ≠ []

lemma splitParts_cut {n : ℕ} (hn : r.length ≤ n) (hr : r ≠ []) (hlast : r.getLast? ≠ some 32) :
    ∃ init last, Cut r (splitParts limit depth n r) init last := by
  induction n generalizing r with
  | zero => exact absurd (List.eq_nil_of_length_eq_zero (Nat.le_zero.mp hn)) hr
  | succ n ih =>
    obtain ⟨hpos, hblank⟩ := @breakAt_spec limit depth r hr
    rw [splitParts, if_neg hr]
    by_cases hlt : breakAt limit depth r < r.length
    · have hrest : r.drop (breakAt limit depth r) ≠ [] := by simpa using hlt
      have hsame : (r.drop (breakAt limit depth r)).getLast? = r.getLast? := by
        rw [List.getLast?_drop, if_neg (not_le.mpr hlt)]
      obtain ⟨init, last, hc⟩ := ih (by rw [List.length_drop]; omega) hrest (by rwa [hsame])
      refine ⟨r.take (breakAt limit depth r) :: init, last, ?_, ?_, ?_, hc.fixed, fun _ => hc.nonempty hrest⟩
      · rw [hc.parts, List.cons_append]
      · rw [List.flatten_cons, List.append_assoc, hc.joined, List.take_append_drop]
      · rw [List.forall_mem_cons]
        exact ⟨hblank hlt, hc.blank⟩
    · have hall : r.take (breakAt limit depth r) = r := List.take_of_length_le (by omega)
      have hnone : r.drop (breakAt limit depth r) = [] := List.drop_of_length_le (by omega)
      rw [hall, hnone]
      refine ⟨[], r, ?_, rfl, by simp, hlast, fun h => h⟩
      cases n <;> simp [splitParts]

lemma parts_cut {line : Bytes} (hlimit : 0 < limit) (hlast : line.getLast? ≠ some 32) :
    ∃ init last, Cut line (parts limit 0 line) init last := by
  rw [parts]
  split
  · exact ⟨[], line, rfl, rfl, by simp, hlast, fun h => h⟩
  · next hlong =>
    have hnil : line ≠ [] := by
      rintro rfl
      exact hlong (.inr hlimit)
    exact splitParts_cut le_rfl hnil hlast

end Breaks

/-- Every part of the line is taken for flowed, but for the last. -/
def Reflows (limit : ℕ) (line : Bytes) : Prop :=
  ∀ part ∈ parts limit 0 line, part ≠ [] → ¬(∀ c ∈ part, c = 32) ∧ part ≠ signature

/-- What comes out for the parts of a text without quotes, behind what the paragraph has so far. -/
def reflow : Bytes → List Bytes → Bytes
  | acc, [] => if acc = [] then [] else acc ++ [10]
  | acc, p :: ps => if isFlowed p then reflow (acc ++ p) ps else acc ++ p ++ 10 :: reflow [] ps

section Reflow

variable {limit : ℕ} {line acc : Bytes} {init rest : List Bytes} {last : Bytes} {ls : List Bytes}

lemma isFlowed_iff {p : Bytes} (h : p.getLast? = some 32) :
    isFlowed p = true ↔ ¬(∀ c ∈ p, c = 32) ∧ p ≠ signature := by
  obtain ⟨q, rfl⟩ : ∃ q, p = q ++ [32] := List.getLast?_eq_some_iff.mp h
  rw [isFlowed]
  simp

lemma not_isFlowed {p : Bytes} (h : p.getLast? ≠ some 32) : isFlowed p = false := by
  rw [isFlowed]
  simp [h]

lemma reflow_flowed (h : ∀ p ∈ init, isFlowed p = true) : reflow acc (init ++ rest) = reflow (acc ++ init.flatten) rest := by
  induction init generalizing acc with
  | nil => simp
  | cons p init ih =>
    rw [List.forall_mem_cons] at h
    rw [List.cons_append, reflow, if_pos h.1, ih h.2, List.flatten_cons, List.append_assoc]

lemma Cut.reflows_iff {ps : List Bytes} (hc : Cut line ps init last) :
    (∀ part ∈ ps, part ≠ [] → ¬(∀ c ∈ part, c = 32) ∧ part ≠ signature) ↔ ∀ p ∈ init, isFlowed p = true := by
  rw [hc.parts]
  refine ⟨fun h p hp => ?_, fun h p hp hne => ?_⟩
  · have hlast := hc.blank p hp
    refine (isFlowed_iff hlast).mpr (h p (by simp [hp]) ?_)
    rintro rfl
    cases hlast
  · rcases List.mem_append.mp hp with hp | hp
    · exact (isFlowed_iff (hc.blank p hp)).mp (h p hp)
    · rw [List.mem_singleton.mp hp] at hne ⊢
      obtain ⟨q, c, rfl⟩ := (List.eq_nil_or_concat' last).resolve_left hne
      have hfixed := hc.fixed
      rw [List.getLast?_concat] at hfixed
      refine ⟨fun hall => hfixed ?_, fun hsame => hfixed ?_⟩
      · rw [hall c (by simp)]
      · rw [← List.getLast?_concat, hsame]
        rfl

lemma reflow_line (hlimit : 0 < limit) (hlast : line.getLast? ≠ some 32) (h : Reflows limit line) :
    reflow [] (parts limit 0 line ++ rest) = line ++ 10 :: reflow [] rest := by
  obtain ⟨init, last, hc⟩ := parts_cut hlimit hlast
  have hflowed := hc.reflows_iff.mp h
  rw [hc.parts, List.append_assoc, reflow_flowed hflowed, List.singleton_append, reflow, not_isFlowed hc.fixed,
    if_neg Bool.false_ne_true, List.nil_append, hc.joined]

lemma reflow_broken (hlimit : 0 < limit) (hlast : line.getLast? ≠ some 32) (hfree : 10 ∉ line) (h : ¬Reflows limit line) :
    ∃ a c x y, c ≠ 10 ∧ line = a ++ c :: y ∧ reflow [] (parts limit 0 line ++ rest) = a ++ 10 :: x := by
  obtain ⟨init, last, hc⟩ := parts_cut hlimit hlast
  have hbad : ¬∀ p ∈ init, isFlowed p = true := fun hall => h (hc.reflows_iff.mpr hall)
  obtain ⟨front, p, back, rfl, hfront, hp⟩ : ∃ front p back, init = front ++ p :: back ∧
      (∀ q ∈ front, isFlowed q = true) ∧ isFlowed p = false := by
    clear hc
    induction init with
    | nil => exact absurd (fun p hp => absurd hp List.not_mem_nil) hbad
    | cons q init ih =>
      cases hq : isFlowed q with
      | false => exact ⟨[], q, init, rfl, by simp, hq⟩
      | true =>
        obtain ⟨front, p, back, rfl, hfront, hp⟩ := ih fun hall => hbad (by simpa [hq] using hall)
        exact ⟨q :: front, p, back, rfl, by simpa [hq] using hfront, hp⟩
  have hjoined := hc.joined
  rw [List.flatten_append, List.flatten_cons, List.append_assoc, List.append_assoc] at hjoined
  have hne : last ≠ [] := by
    refine hc.nonempty fun hnil => ?_
    have hblank := hc.blank p (by simp)
    rw [hnil] at hjoined
    rw [(List.append_eq_nil_iff.mp (List.append_eq_nil_iff.mp hjoined).2).1] at hblank
    cases hblank
  obtain ⟨c, y, hcy⟩ := List.exists_cons_of_ne_nil (l := back.flatten ++ last) (by simp [hne])
  refine ⟨front.flatten ++ p, c, reflow [] (back ++ [last] ++ rest), y, ?_, ?_, ?_⟩
  · rintro rfl
    refine hfree ?_
    rw [← hjoined, hcy]
    simp
  · rw [← hjoined, hcy, List.append_assoc]
  · rw [hc.parts, List.append_assoc, List.append_assoc, reflow_flowed hfront, List.cons_append, reflow, hp,
      if_neg Bool.false_ne_true]
    simp

def joined (ls : List Bytes) : Bytes := ls.flatMap (· ++ [10])

def pieces (limit : ℕ) (ls : List Bytes) : List Bytes := ls.flatMap (parts limit 0)

lemma reflow_pieces (hlimit : 0 < limit) (hlast : ∀ l ∈ ls, l.getLast? ≠ some 32) (h : ∀ l ∈ ls, Reflows limit l) :
    reflow [] (pieces limit ls) = joined ls := by
  induction ls with
  | nil => rfl
  | cons l ls ih =>
    rw [List.forall_mem_cons] at hlast h
    rw [pieces, List.flatMap_cons, reflow_line hlimit hlast.1 h.1, ← pieces, ih hlast.2 h.2, joined, joined,
      List.flatMap_cons, List.append_assoc, List.singleton_append]

lemma reflow_pieces_broken (hlimit : 0 < limit) (hlast : ∀ l ∈ ls, l.getLast? ≠ some 32) (hfree : ∀ l ∈ ls, 10 ∉ l)
    (h : ¬∀ l ∈ ls, Reflows limit l) : ∃ a c x y, c ≠ 10 ∧ joined ls = a ++ c :: (y ++ [10]) ∧
      reflow [] (pieces limit ls) = a ++ 10 :: x := by
  induction ls with
  | nil => exact absurd (fun l hl => absurd hl List.not_mem_nil) h
  | cons l ls ih =>
    rw [List.forall_mem_cons] at hlast hfree h
    rw [pieces, joined, List.flatMap_cons, List.flatMap_cons, ← pieces, ← joined]
    by_cases hl : Reflows limit l
    · obtain ⟨a, c, x, y, hc, hj, hr⟩ := ih hlast.2 hfree.2 fun hall => h ⟨hl, hall⟩
      refine ⟨l ++ 10 :: a, c, x, y, hc, by rw [hj]; simp, ?_⟩
      rw [reflow_line hlimit hlast.1 hl, hr]
      simp
    · obtain ⟨a, c, x, y, hc, rfl, hr⟩ := @reflow_broken limit l (pieces limit ls) hlimit hlast.1 hfree.1 hl
      have hend : ∃ z, y ++ [10] ++ joined ls = z ++ [10] := by
        rcases List.eq_nil_or_concat' ls with rfl | ⟨front, m, rfl⟩
        · exact ⟨y, by simp [joined]⟩
        · exact ⟨y ++ [10] ++ (joined front ++ m), by simp [joined]⟩
      obtain ⟨z, hz⟩ := hend
      refine ⟨a, c, x, z, hc, ?_, hr⟩
      rw [← hz]
      simp

end Reflow

section Unwrapping

variable {limit theQuoteLimit : ℕ} {u : Unwrapping} {ls : List Bytes} {p line : Bytes}

lemma quoteDepth_eq (h : p.head? ≠ some 62) : quoteDepth p = 0 := by
  cases p with
  | nil => rfl
  | cons c p =>
    have hc : c ≠ 62 := fun hc => h (by rw [hc]; rfl)
    simp [quoteDepth, hc]

lemma spaceStuffed_cases (p : Bytes) :
    spaceStuffed 0 p = 32 :: p ∨ (spaceStuffed 0 p = p ∧ p.head? ≠ some 62 ∧ p.head? ≠ some 32) := by
  rw [spaceStuffed]
  split
  · exact .inl rfl
  · next h =>
    simp only [not_or] at h
    exact .inr ⟨rfl, h.2.1, h.2.2.1⟩

lemma unwrapLine_part (hu : u.depth.getD 0 = 0) (p : Bytes) : unwrapLine theQuoteLimit u (spaceStuffed 0 p) =
    some (if isFlowed p then { u with lines := u.lines ++ p, depth := some 0 } else { text := u.text ++ (u.lines ++ p) ++ [10] }) := by
  have hdepth : quoteDepth (spaceStuffed 0 p) = 0 := by
    rcases spaceStuffed_cases p with h | ⟨h, hquote, -⟩
    · rw [h]
      rfl
    · rw [h]
      exact quoteDepth_eq hquote
  have hline : (if (spaceStuffed 0 p).head? = some 32 then (spaceStuffed 0 p).tail else spaceStuffed 0 p) = p := by
    rcases spaceStuffed_cases p with h | ⟨h, -, hblank⟩
    · rw [h]
      rfl
    · rw [h, if_neg hblank]
  simp only [unwrapLine, hdepth, List.drop_zero, hline, hu, if_true]
  split <;> rfl

lemma foldlM_parts (hu : u.depth.getD 0 = 0) (ps : List Bytes) :
    ((ps.map (spaceStuffed 0)).foldlM (unwrapLine theQuoteLimit) u).bind (finish theQuoteLimit) =
      some (u.text ++ reflow u.lines ps) := by
  induction ps generalizing u with
  | nil =>
    simp only [List.map_nil, List.foldlM_nil, Option.pure_def, Option.bind_some, finish, requote, hu, if_true, reflow]
    split
    · simp
    · simp
  | cons p ps ih =>
    rw [List.map_cons, List.foldlM_cons, unwrapLine_part hu]
    simp only [Option.bind_eq_bind, Option.bind_some]
    cases hp : isFlowed p with
    | true =>
      simp only [if_true]
      rw [ih rfl, reflow, if_pos hp]
    | false =>
      simp only [Bool.false_eq_true, if_false]
      rw [ih rfl, reflow, hp, if_neg Bool.false_ne_true]
      simp

lemma trimmed_eq (h : line.getLast? ≠ some 32) : trimmed 0 line = line := by
  rw [trimmed]
  split
  · rfl
  · have hsame : line.rdropWhile (· = 32) = line := by
      rcases List.eq_nil_or_concat' line with rfl | ⟨front, c, rfl⟩
      · rfl
      · rw [List.getLast?_concat] at h
        exact List.rdropWhile_concat_neg _ _ _ (by simpa using h)
    simp [hsame]

lemma wrapLine_eq (hquote : line.head? ≠ some 62) (hblank : line.getLast? ≠ some 32) :
    wrapLine limit line = joined ((parts limit 0 line).map (spaceStuffed 0)) := by
  rw [joined, List.flatMap_map, wrapLine]
  simp only [quoteDepth_eq hquote, List.drop_zero, ne_eq, not_true, false_and, if_false, trimmed_eq hblank,
    List.replicate_zero, List.nil_append]

lemma joined_append (xs ys : List Bytes) : joined (xs ++ ys) = joined xs ++ joined ys := List.flatMap_append

lemma joined_eq (h : ls ≠ []) : joined ls = [10].intercalate ls ++ [10] := by
  induction ls with
  | nil => exact absurd rfl h
  | cons l ls ih =>
    cases ls with
    | nil => simp [joined]
    | cons m ls =>
      have hrest := ih (List.cons_ne_nil _ _)
      rw [joined, List.flatMap_cons, ← joined, hrest]
      simp [List.intercalate, List.intersperse]

lemma pieces_cons (l : Bytes) (ls : List Bytes) : pieces limit (l :: ls) = parts limit 0 l ++ pieces limit ls := rfl

lemma wrapText_eq (hquote : ∀ l ∈ ls, l.head? ≠ some 62) (hblank : ∀ l ∈ ls, l.getLast? ≠ some 32) :
    ls.flatMap (wrapLine limit) = joined ((pieces limit ls).map (spaceStuffed 0)) := by
  induction ls with
  | nil => rfl
  | cons l ls ih =>
    rw [List.forall_mem_cons] at hquote hblank
    rw [List.flatMap_cons, wrapLine_eq hquote.1 hblank.1, ih hquote.2 hblank.2, pieces_cons, List.map_append,
      joined_append]

lemma splitOn_free (text : Bytes) : ∀ l ∈ text.splitOn 10, 10 ∉ l := by
  induction text with
  | nil => simp
  | cons c text ih =>
    rw [List.splitOn_cons_eq_if_modifyHead]
    split
    · simpa using ih
    · next hc =>
      obtain ⟨l, ls, hls⟩ := List.exists_cons_of_ne_nil (List.splitOn_ne_nil 10 text)
      rw [hls, List.forall_mem_cons] at ih
      rw [hls, List.modifyHead_cons, List.forall_mem_cons]
      refine ⟨?_, ih.2⟩
      rw [List.mem_cons, not_or]
      exact ⟨fun h => hc (by simp [h]), ih.1⟩

lemma spaceStuffed_free (h : 10 ∉ p) : 10 ∉ spaceStuffed 0 p := by
  rcases spaceStuffed_cases p with hs | ⟨hs, -⟩
  · rw [hs, List.mem_cons, not_or]
    exact ⟨by decide, h⟩
  · rwa [hs]

lemma pieces_free (hlimit : 0 < limit) (hfree : ∀ l ∈ ls, 10 ∉ l) (hblank : ∀ l ∈ ls, l.getLast? ≠ some 32) :
    ∀ l ∈ (pieces limit ls).map (spaceStuffed 0), 10 ∉ l := by
  rw [List.forall_mem_map]
  intro part hpart
  obtain ⟨l, hl, hmem⟩ := List.mem_flatMap.mp hpart
  obtain ⟨init, last, hc⟩ := parts_cut hlimit (hblank l hl)
  refine spaceStuffed_free fun h10 => hfree l hl ?_
  rw [← hc.joined]
  rw [hc.parts] at hmem
  rcases List.mem_append.mp hmem with hmem | hmem
  · exact List.mem_append_left _ (List.mem_flatten.mpr ⟨part, hmem, h10⟩)
  · rw [List.mem_singleton.mp hmem] at h10
    exact List.mem_append_right _ h10

lemma pieces_ne_nil (hlimit : 0 < limit) (hls : ls ≠ []) (hblank : ∀ l ∈ ls, l.getLast? ≠ some 32) : pieces limit ls ≠ [] := by
  cases ls with
  | nil => exact absurd rfl hls
  | cons l ls =>
    obtain ⟨init, last, hc⟩ := parts_cut hlimit (hblank l List.mem_cons_self)
    rw [pieces_cons, hc.parts]
    simp

/-- The last line, without a break behind it, is left out if it is empty. -/
def endedLines (ls : List Bytes) : List Bytes := if ls.getLast? = some [] then ls.dropLast else ls

lemma endedLines_pieces (hlimit : 0 < limit) (hblank : ∀ l ∈ ls, l.getLast? ≠ some 32) :
    endedLines ((pieces limit ls).map (spaceStuffed 0)) = (pieces limit (endedLines ls)).map (spaceStuffed 0) := by
  rcases List.eq_nil_or_concat' ls with rfl | ⟨front, l, rfl⟩
  · rfl
  · obtain ⟨init, last, hc⟩ := parts_cut hlimit (hblank l (by simp))
    have hpieces : (pieces limit (front ++ [l])).map (spaceStuffed 0) =
        (pieces limit front ++ init).map (spaceStuffed 0) ++ [spaceStuffed 0 last] := by
      rw [pieces, List.flatMap_append, ← pieces, List.flatMap_singleton, hc.parts]
      simp
    rw [hpieces, endedLines, endedLines, List.getLast?_concat, List.getLast?_concat, List.dropLast_concat,
      List.dropLast_concat]
    by_cases hl : l = []
    · subst hl
      have hone : parts limit 0 [] = [[]] := if_pos (.inr hlimit)
      have hinit := hc.parts
      rw [hone] at hinit
      obtain ⟨rfl, hlast⟩ := @List.append_inj' _ [] _ _ _ hinit rfl
      cases hlast
      have hs : spaceStuffed 0 [] = [] := rfl
      rw [hs, if_pos rfl, if_pos rfl, List.append_nil]
    · have hlast : spaceStuffed 0 last ≠ [] := by
        rcases spaceStuffed_cases last with hs | ⟨hs, -⟩
        · rw [hs]
          exact List.cons_ne_nil _ _
        · rw [hs]
          exact hc.nonempty hl
      rw [if_neg fun h => hlast (Option.some.inj h), if_neg fun h => hl (Option.some.inj h), ← hpieces]

lemma effectiveLimit_pos (theLimit : ℕ) : 0 < effectiveLimit theLimit := by
  rw [effectiveLimit]
  split <;> omega

lemma unwrap_wrap (theLimit : ℕ) {text : Bytes} (hquote : ∀ l ∈ text.splitOn 10, l.head? ≠ some 62)
    (hblank : ∀ l ∈ text.splitOn 10, l.getLast? ≠ some 32) :
    (wrapWithLimit theLimit text).bind (unwrapWithLimit theQuoteLimit) =
      some (reflow [] (pieces (effectiveLimit theLimit) (endedLines (text.splitOn 10)))) := by
  have hlimit := effectiveLimit_pos theLimit
  by_cases htext : text = []
  · subst htext
    rfl
  · have hne := pieces_ne_nil hlimit (List.splitOn_ne_nil 10 text) hblank
    have hmap : (pieces (effectiveLimit theLimit) (text.splitOn 10)).map (spaceStuffed 0) ≠ [] := by simpa using hne
    rw [wrapWithLimit, if_neg htext]
    simp only [wrapText_eq hquote hblank, joined_eq hmap, List.append_eq_nil_iff, List.cons_ne_nil, and_false, if_false,
      List.dropLast_concat, Option.bind_some]
    have hfree := pieces_free hlimit (splitOn_free text) hblank
    have hinput : inputLines ([10].intercalate ((pieces (effectiveLimit theLimit) (text.splitOn 10)).map (spaceStuffed 0))) =
        (pieces (effectiveLimit theLimit) (endedLines (text.splitOn 10))).map (spaceStuffed 0) := by
      rw [← endedLines_pieces hlimit hblank, inputLines, List.splitOn_intercalate 10 hfree hmap]
      rfl
    rw [unwrapWithLimit, hinput, foldlM_parts rfl]
    rfl

lemma joined_endedLines (text : Bytes) :
    joined (endedLines (text.splitOn 10)) = text ∨ joined (endedLines (text.splitOn 10)) = text ++ [10] := by
  have htext : [10].intercalate (text.splitOn 10) = text := List.intercalate_splitOn 10
  have hjoined := joined_eq (List.splitOn_ne_nil 10 text)
  rw [htext] at hjoined
  rw [endedLines]
  split
  · next h =>
    obtain ⟨front, hfront⟩ := List.getLast?_eq_some_iff.mp h
    rw [hfront, joined_append] at hjoined
    rw [hfront, List.dropLast_concat]
    exact .inl (List.append_cancel_right hjoined)
  · exact .inr hjoined

/-- A text without quoted lines and lines that end in a blank comes back, up to a final newline, exactly if no part of
its lines consists of blanks or is the separator of a signature. -/
theorem unwrapWithLimit_wrapWithLimit_iff (theLimit theQuoteLimit : ℕ) (text : Bytes)
    (hquote : ∀ l ∈ text.splitOn 10, l.head? ≠ some 62) (hblank : ∀ l ∈ text.splitOn 10, l.getLast? ≠ some 32) :
    (∃ u ∈ (wrapWithLimit theLimit text).bind (unwrapWithLimit theQuoteLimit), u = text ∨ u = text ++ [10]) ↔
      ∀ l ∈ text.splitOn 10, Reflows (effectiveLimit theLimit) l := by
  have hlimit := effectiveLimit_pos theLimit
  have hsub : ∀ l ∈ endedLines (text.splitOn 10), l ∈ text.splitOn 10 := by
    intro l hl
    rw [endedLines] at hl
    split at hl
    · exact List.mem_of_mem_dropLast hl
    · exact hl
  have hempty : Reflows (effectiveLimit theLimit) [] := by
    have hone : parts (effectiveLimit theLimit) 0 [] = [[]] := if_pos (.inr hlimit)
    rw [Reflows, hone]
    simp
  have hall : (∀ l ∈ text.splitOn 10, Reflows (effectiveLimit theLimit) l) ↔
      ∀ l ∈ endedLines (text.splitOn 10), Reflows (effectiveLimit theLimit) l := by
    refine ⟨fun h l hl => h l (hsub l hl), fun h l hl => ?_⟩
    rw [endedLines] at h
    split at h
    · next hlast =>
      obtain ⟨front, hfront⟩ := List.getLast?_eq_some_iff.mp hlast
      rw [hfront, List.dropLast_concat] at h
      rw [hfront] at hl
      rcases List.mem_append.mp hl with hl | hl
      · exact h l hl
      · rw [List.mem_singleton.mp hl]
        exact hempty
    · exact h l hl
  rw [unwrap_wrap theLimit hquote hblank, hall]
  refine ⟨fun ⟨u, hu, hsame⟩ => ?_, fun h => ⟨_, rfl, ?_⟩⟩
  · by_contra hbad
    obtain rfl := Option.some.inj hu
    obtain ⟨a, c, x, y, hc, hj, hr⟩ := reflow_pieces_broken hlimit (fun l hl => hblank l (hsub l hl))
      (fun l hl => splitOn_free text l (hsub l hl)) hbad
    rw [hr] at hsame
    have hcut : ∀ {z z' : Bytes}, a ++ 10 :: z ≠ a ++ c :: z' :=
      fun h => hc (List.cons.inj (List.append_cancel_left h)).1.symm
    rcases joined_endedLines text with hjoined | hjoined
    · rw [hj] at hjoined
      rcases hsame with h | h
      · rw [← hjoined] at h
        exact hcut h
      · rw [← hjoined, List.append_assoc] at h
        exact hcut h
    · rw [hj] at hjoined
      rcases hsame with h | h
      · have hcons : a ++ c :: y = text := by
          rw [← List.cons_append, ← List.append_assoc] at hjoined
          exact List.append_cancel_right hjoined
        rw [← hcons] at h
        exact hcut h
      · rw [← hjoined] at h
        exact hcut h
  · rw [reflow_pieces hlimit (fun l hl => hblank l (hsub l hl)) h]
    exact joined_endedLines text

/-- `hello world` and ` From me`, wrapped at 10 -/
theorem unwrapWithLimit_wrapWithLimit_sample :
    ∃ u ∈ (wrapWithLimit 10 (ascii "hello world\n From me")).bind (unwrapWithLimit 78),
      u = ascii "hello world\n From me" ∨ u = ascii "hello world\n From me" ++ [10] :=
  (unwrapWithLimit_wrapWithLimit_iff 10 78 (ascii "hello world\n From me") (by decide) (by decide)).mpr
    (by unfold Reflows; decide)

/-- The first part of the line is taken for the separator of a signature. -/
theorem signature_not_reflowed :
    ¬∃ u ∈ (wrapWithLimit 10 (ascii "-- abcdefghi")).bind (unwrapWithLimit 78),
      u = ascii "-- abcdefghi" ∨ u = ascii "-- abcdefghi" ++ [10] := by
  have h : (wrapWithLimit 10 (ascii "-- abcdefghi")).bind (unwrapWithLimit 78) = some (ascii "-- \nabcdefghi\n") := by
    decide
  rw [h]
  rintro ⟨u, hu, hsame⟩
  cases hu
  revert hsame
  decide

end Unwrapping

end Xperimentum.Pantomime.FormatFlowed
