import Mathlib.Tactic
import Xperimentum.Pantomime.SMTPData

/-! Dot stuffing: what a server reads back from the data sent, and where it sees the end of it. -/

namespace Xperimentum.Pantomime.SMTPData

/-- A line as it is sent. -/
def dotted (x : Bytes) : Bytes := if x.head? = some 46 then 46 :: x else x

def withoutDot (x : Bytes) : Bytes := if x.head? = some 46 then x.tail else x

/-- The data without one leading dot of every line that starts with one. -/
def unstuff (m : Bytes) : Bytes := joinLines (withoutDot (lines m).1) ((lines m).2.map withoutDot)

def endMark : Bytes := 13 :: 10 :: 46 :: crlf

/-- The mark that is written behind the data is the first one. -/
def EndsOnce (m : Bytes) : Prop := ∀ before after, m ++ endMark = before ++ endMark ++ after → before = m

/-- The header has one to seven bytes, so that the length of the search for the `Bcc` header wraps around. -/
def ShortHeader (m : Bytes) : Prop :=
  ∃ header ∈ (findCString (crlf ++ crlf) m).map Prod.fst, header ≠ [] ∧ header.length ≤ 7

/-- The header of the message holds no `Bcc` field that the search finds. -/
def NoBcc (m : Bytes) : Prop := ∀ x ∈ searched (lines m).1 (lines m).2, ¬bcc.isPrefixOf x

/-- A server that takes away the doubled dots reads the data with CRLF line ends. -/
def Transparent (data : Bytes) : Prop :=
  ∃ m ∈ dataToSend data, unstuff m = replaceLFWithCRLF data ∧ EndsOnce m

section Lines

variable {l x v : Bytes} {ls a b c : List Bytes}

lemma withoutDot_dotted (x : Bytes) : withoutDot (dotted x) = x := by
  simp only [withoutDot, dotted]
  split_ifs with h
  · rfl
  · simp_all
  · rfl

lemma dotted_ne_dot (x : Bytes) : dotted x ≠ [46] := by
  simp only [dotted]
  split_ifs with h
  · rintro hx
    rw [(List.cons.inj hx).2] at h
    cases h
  · rintro rfl
    exact h rfl

lemma dotted_eq_nil : dotted x = [] ↔ x = [] := by
  simp only [dotted]
  split_ifs with h
  · simp only [List.cons_ne_nil, false_iff]
    rintro rfl
    cases h
  · rfl

lemma length_le_dotted (x : Bytes) : x.length ≤ (dotted x).length := by
  simp only [dotted]
  split_ifs
  · exact Nat.le_succ _
  · exact le_rfl

lemma dotted_bcc (v : Bytes) : dotted (bcc ++ v) = bcc ++ v := rfl

lemma dotted_free (hx : splitLines x = none) : splitLines (dotted x) = none := by
  simp only [dotted]
  split_ifs with h
  · cases x with
    | nil => cases h
    | cons d x => rw [splitLines_cons 46 d (fun hc => absurd hc.1 (by decide)), hx, Option.map_none]
  · exact hx

lemma map_dotted_free (hls : ∀ x ∈ ls, splitLines x = none) : ∀ x ∈ ls.map dotted, splitLines x = none := by
  intro x hx
  obtain ⟨y, hy, rfl⟩ := List.mem_map.mp hx
  exact dotted_free (hls y hy)

lemma stuffDots_cons (c : UInt8) {s : Bytes} (h : ∀ t, c = 13 → s ≠ 10 :: 46 :: t) :
    stuffDots (c :: s) = c :: stuffDots s := by
  rw [stuffDots]
  rintro t rfl rfl
  exact h t rfl rfl

/-- The dot is doubled in every line but the first. -/
lemma stuffDots_joinLines (hl : splitLines l = none) (hls : ∀ x ∈ ls, splitLines x = none) :
    stuffDots (joinLines l ls) = joinLines l (ls.map dotted) := by
  induction ls generalizing l with
  | nil =>
    induction l with
    | nil => rfl
    | cons c l ih =>
      have hrest := ih (splitLines_tail hl)
      simp only [joinLines, List.map_nil] at hrest ⊢
      rw [stuffDots_cons, hrest]
      rintro t rfl rfl
      simp [splitLines] at hl
  | cons x ls ih =>
    have hx := hls x List.mem_cons_self
    have hrest : ∀ y ∈ ls, splitLines y = none := fun y hy => hls y (List.mem_cons_of_mem x hy)
    induction l with
    | nil =>
      change stuffDots (13 :: 10 :: joinLines x ls) = 13 :: 10 :: joinLines (dotted x) (ls.map dotted)
      by_cases hdot : x.head? = some 46
      · obtain ⟨d, x, rfl⟩ : ∃ d y, x = d :: y := by
          cases x with
          | nil => cases hdot
          | cons d y => exact ⟨d, y, rfl⟩
        obtain rfl := Option.some.inj hdot
        rw [dotted, if_pos hdot, joinLines_cons, joinLines_cons, joinLines_cons, stuffDots,
          ih (splitLines_tail hx) hrest]
      · have hfirst : ∀ t, joinLines x ls ≠ 46 :: t := by
          intro t ht
          cases x with
          | nil => cases ls <;> cases ht
          | cons d x =>
            rw [joinLines_cons] at ht
            exact hdot (congrArg some (List.cons.inj ht).1)
        have hlf := stuffDots_cons 10 (s := joinLines x ls) fun t ht => absurd ht (by decide)
        rw [dotted, if_neg hdot, stuffDots_cons, hlf, ih hx hrest]
        rintro t - ht
        exact hfirst t (List.cons.inj ht).2
    | cons c l ihl =>
      have htail := ihl (splitLines_tail hl)
      rw [joinLines_cons, joinLines_cons, stuffDots_cons, htail]
      rintro t rfl ht
      cases l with
      | nil => cases (List.cons.inj ht).1
      | cons d l =>
        rw [joinLines_cons] at ht
        obtain ⟨rfl, -⟩ := List.cons.inj ht
        simp [splitLines] at hl

lemma unstuff_joinLines (hl : splitLines l = none) (hls : ∀ x ∈ ls, splitLines x = none) (hdot : l.head? ≠ some 46) :
    unstuff (joinLines l (ls.map dotted)) = joinLines l ls := by
  have hround : (ls.map dotted).map withoutDot = ls := by
    rw [List.map_map, show withoutDot ∘ dotted = id from funext withoutDot_dotted, List.map_id]
  rw [unstuff, lines_joinLines hl (map_dotted_free hls)]
  simp only [withoutDot, if_neg hdot]
  exact congrArg (joinLines l) hround

lemma endsOnce_joinLines (hl : splitLines l = none) (hls : ∀ x ∈ ls, splitLines x = none)
    (hdot : ∀ x ∈ ls, x ≠ [46]) : EndsOnce (joinLines l ls) := by
  intro before after heq
  obtain ⟨hb, hbs⟩ := lines_free before
  obtain ⟨ha, has⟩ := lines_free after
  have hleft : joinLines l ls ++ endMark = joinLines l (ls ++ [[46], []]) := by
    rw [joinLines_append]
    rfl
  have hright : before ++ endMark ++ after = joinLines (lines before).1
      ((lines before).2 ++ [46] :: (lines after).1 :: (lines after).2) := by
    rw [joinLines_append, joinLines_lines, joinLines, joinLines_lines]
    simp [endMark, crlf]
  rw [hleft, hright] at heq
  have hmark : splitLines [46] = none := by decide
  obtain ⟨rfl, hsplit⟩ := joinLines_injective heq hl (by simpa [hmark, or_imp, forall_and, splitLines] using hls) hb
    (by simpa [hmark, or_imp, forall_and, ha] using ⟨hbs, has⟩)
  have hbefore : (lines before).2 = ls := by
    have hlen := congrArg List.length hsplit
    simp only [List.length_append, List.length_cons, List.length_nil] at hlen
    rcases List.append_eq_append_iff.mp hsplit with ⟨z, hz, -⟩ | ⟨z, rfl, hz⟩
    · have hzlen := congrArg List.length hz
      rw [List.length_append] at hzlen
      obtain rfl := List.length_eq_zero_iff.mp (by omega : z.length = 0)
      rw [hz, List.append_nil]
    · -- the mark behind `before` would be a line of the data
      cases z with
      | nil => rw [List.append_nil]
      | cons y z =>
        obtain ⟨rfl, -⟩ := List.cons.inj hz
        exact absurd rfl (hdot [46] (by simp))
  rw [← hbefore, joinLines_lines]

lemma block_map_dotted (ls : List Bytes) : block (ls.map dotted) = (block ls).map (List.map dotted) := by
  induction ls with
  | nil => rfl
  | cons x ls ih =>
    by_cases hx : x = []
    · subst hx
      cases ls <;> rfl
    · rw [List.map_cons, block_cons (mt dotted_eq_nil.mp hx), block_cons hx, ih, Option.map_map, Option.map_map]
      rfl

lemma not_bcc_dotted (h : x.head? = some 46) (y : Bytes) : ¬bcc.isPrefixOf (46 :: y) ∧ ¬bcc.isPrefixOf x.dropLast := by
  refine ⟨by simp [bcc, ascii, List.isPrefixOf], ?_⟩
  match x with
  | [] => cases h
  | [c] => simp [bcc, ascii, List.isPrefixOf]
  | c :: d :: x =>
    obtain rfl := Option.some.inj h
    simp [bcc, ascii, List.isPrefixOf]

lemma bcc_isPrefixOf_dotted (x : Bytes) : bcc.isPrefixOf (dotted x) = bcc.isPrefixOf x := by
  rw [dotted]
  split_ifs with h
  · obtain ⟨y, rfl⟩ : ∃ y, x = 46 :: y := by
      cases x with
      | nil => cases h
      | cons c y => exact ⟨y, by rw [Option.some.inj h]⟩
    rw [Bool.eq_false_of_not_eq_true (not_bcc_dotted h _).1, Bool.eq_false_of_not_eq_true (not_bcc_dotted h y).1]
  · rfl

lemma bcc_isPrefixOf_dotted_dropLast (x : Bytes) :
    bcc.isPrefixOf (dotted x).dropLast = bcc.isPrefixOf x.dropLast := by
  by_cases h : x.head? = some 46
  · have hdotted : (dotted x).head? = some 46 := by rw [dotted, if_pos h]; rfl
    rw [Bool.eq_false_of_not_eq_true (not_bcc_dotted h []).2, Bool.eq_false_of_not_eq_true (not_bcc_dotted hdotted []).2]
  · rw [dotted, if_neg h]

lemma clip_map_dotted (k : List Bytes) :
    (∀ x ∈ clip k, ¬bcc.isPrefixOf x) → ∀ x ∈ clip (k.map dotted), ¬bcc.isPrefixOf x := by
  rcases List.eq_nil_or_concat k with rfl | ⟨k, z, rfl⟩
  · exact id
  · rw [List.concat_eq_append, List.map_append, List.map_singleton, clip_concat, clip_concat]
    intro h x hx
    rcases List.mem_append.mp hx with hx | hx
    · obtain ⟨y, hy, rfl⟩ := List.mem_map.mp hx
      rw [bcc_isPrefixOf_dotted]
      exact h y (List.mem_append_left _ hy)
    · rw [List.mem_singleton.mp hx, bcc_isPrefixOf_dotted_dropLast]
      exact h _ (List.mem_append_right k (List.mem_singleton_self _))

lemma searched_map_absent (h : ∀ x ∈ searched l ls, ¬bcc.isPrefixOf x) :
    ∀ x ∈ searched l (ls.map dotted), ¬bcc.isPrefixOf x := by
  have hwhole : (∀ x ∈ ls, ¬bcc.isPrefixOf x) → ∀ x ∈ ls.map dotted, ¬bcc.isPrefixOf x := by
    intro hls x hx
    obtain ⟨y, hy, rfl⟩ := List.mem_map.mp hx
    rw [bcc_isPrefixOf_dotted]
    exact hls y hy
  simp only [searched, block_map_dotted] at h ⊢
  cases hb : block ls with
  | none =>
    simp only [hb] at h
    exact hwhole h
  | some k =>
    simp only [hb, Option.map_some, List.map_eq_nil_iff] at h ⊢
    split_ifs at h ⊢
    · exact hwhole h
    · exact clip_map_dotted k h

lemma searched_map_found {w : Bytes} (hs : searched l ls = a ++ (bcc ++ w) :: c) :
    ∃ c', searched l (ls.map dotted) = a.map dotted ++ (bcc ++ w) :: c' := by
  have hwhole : ls = a ++ (bcc ++ w) :: c → ls.map dotted = a.map dotted ++ (bcc ++ w) :: c.map dotted := by
    rintro rfl
    rw [List.map_append, List.map_cons, dotted_bcc]
  simp only [searched, block_map_dotted] at hs ⊢
  cases hb : block ls with
  | none =>
    simp only [hb] at hs
    exact ⟨_, hwhole hs⟩
  | some k =>
    simp only [hb, Option.map_some, List.map_eq_nil_iff] at hs ⊢
    split_ifs at hs ⊢
    · exact ⟨_, hwhole hs⟩
    · rcases clip_split hs with ⟨y, d, rfl⟩ | ⟨z, rfl, hz⟩
      · rw [List.map_append, List.map_cons, List.map_cons, dotted_bcc, clip_append]
        exact ⟨_, rfl⟩
      · have hdotted : dotted z = z := by
          cases z with
          | nil => cases hz
          | cons d z =>
            cases z with
            | nil => cases hz
            | cons e z =>
              obtain ⟨hd, -⟩ := List.cons.inj hz
              have hne : d ≠ 46 := by
                rw [← hd]
                decide
              simp [dotted, hne]
        rw [List.map_append, List.map_singleton, clip_concat, hdotted, ← hz]
        exact ⟨[], rfl⟩

lemma behind_map_dotted (v : Bytes) (b : List Bytes) : behind v (b.map dotted) = (behind v b).map dotted := by
  simp only [behind]
  split_ifs
  · rw [List.map_drop]
  · rfl

lemma removeBcc_subset (hl : splitLines l = none) (hls : ∀ x ∈ ls, splitLines x = none) {m : Bytes}
    (h : removeBcc (joinLines l ls) = some m) : ∃ xs, xs ⊆ ls ∧ m = joinLines l xs := by
  have hfound : ∀ {a b v}, ls = a ++ (bcc ++ v) :: b →
      findBcc (joinLines l ls) = some (some (joinLines l a, joinLines v b)) → ∃ xs, xs ⊆ ls ∧ m = joinLines l xs := by
    intro a b v hsplit hfind
    have hv : splitLines v = none := splitLines_right (hls (bcc ++ v) (by rw [hsplit]; simp))
    rw [removeBcc_found hv (fun y hy => hls y (by rw [hsplit]; simp [hy])) hfind] at h
    split_ifs at h
    refine ⟨a ++ behind v b, ?_, (Option.some.inj h).symm⟩
    rw [hsplit]
    exact List.append_subset.mpr ⟨List.subset_append_left _ _,
      List.Subset.trans (behind_subset v b)
        (List.Subset.trans (List.subset_cons_self _ b) (List.subset_append_right _ _))⟩
  by_cases hu : Underflows (joinLines l ls)
  · have hfind := findBcc_underflow hu
    rcases exists_first ls with habsent | ⟨a, v, b, hsplit, hfirst⟩
    · rw [findBccLine_none hl hls habsent, Option.map_none] at hfind
      simp [removeBcc, hfind] at h
    · have hline := findBccLine_some (v := v) (b := b) hl (fun y hy => hls y (by rw [hsplit]; simp [hy])) hfirst
      rw [← hsplit] at hline
      rw [hline, Option.map_some] at hfind
      exact hfound hsplit hfind
  · rcases exists_first (searched l ls) with habsent | ⟨a, w, c, hs, hfirst⟩
    · rw [removeBcc, findBcc_none hl hls hu habsent] at h
      exact ⟨ls, List.Subset.refl ls, (Option.some.inj h).symm⟩
    · obtain ⟨v, b, hsplit, -⟩ := searched_split hs
      exact hfound hsplit (findBcc_some hl hls hu hsplit hs hfirst)

lemma joinLines_length_mono {k : List Bytes} (l : Bytes) : (joinLines l k).length ≤ (joinLines l (k.map dotted)).length := by
  induction k generalizing l with
  | nil => exact le_rfl
  | cons x k ih =>
    have hrest := ih x
    have hfirst : (joinLines x (k.map dotted)).length ≤ (joinLines (dotted x) (k.map dotted)).length := by
      have hx := length_le_dotted x
      cases k with
      | nil => exact hx
      | cons y k => simp only [List.map_cons, joinLines, List.length_append]; omega
    simp only [List.map_cons, joinLines, List.length_append, List.length_cons]
    omega

lemma not_underflows (hl : splitLines l = none) (hls : ∀ x ∈ ls, splitLines x = none)
    (h : ¬ShortHeader (joinLines l ls)) :
    ¬Underflows (joinLines l ls) ∧ ¬Underflows (joinLines l (ls.map dotted)) := by
  refine ⟨fun hu => h hu.2, ?_⟩
  rintro ⟨-, header, hheader, hne, hshort⟩
  rw [findBlank hl (map_dotted_free hls), block_map_dotted, Option.map_map] at hheader
  obtain ⟨k, hk, rfl⟩ := Option.map_eq_some_iff.mp hheader
  refine h ⟨joinLines l k, ?_, ?_, (joinLines_length_mono l).trans hshort⟩
  · rw [findBlank hl hls, hk]
    rfl
  · intro hnil
    cases k with
    | nil => exact hne hnil
    | cons x k => simp [joinLines] at hnil

/-- Removing the `Bcc` header and doubling dots commute. -/
lemma removeBcc_map_dotted (hl : splitLines l = none) (hls : ∀ x ∈ ls, splitLines x = none) (hdot : l.head? ≠ some 46)
    (h : ¬ShortHeader (joinLines l ls)) :
    (removeBcc (joinLines l (ls.map dotted))).map unstuff = removeBcc (joinLines l ls) := by
  obtain ⟨hu, hu'⟩ := not_underflows hl hls h
  have hls' := map_dotted_free hls
  rcases exists_first (searched l ls) with habsent | ⟨a, w, c, hs, hfirst⟩
  · simp only [removeBcc, findBcc_none hl hls hu habsent, findBcc_none hl hls' hu' (searched_map_absent habsent),
      Option.map_some, unstuff_joinLines hl hls hdot]
  · obtain ⟨v, b, hsplit, -⟩ := searched_split hs
    obtain ⟨c', hs'⟩ := searched_map_found hs
    have hsplit' : ls.map dotted = a.map dotted ++ (bcc ++ v) :: b.map dotted := by
      rw [hsplit, List.map_append, List.map_cons, dotted_bcc]
    have hfirst' : ∀ x ∈ a.map dotted, ¬bcc.isPrefixOf x := by
      intro x hx
      obtain ⟨y, hy, rfl⟩ := List.mem_map.mp hx
      rw [bcc_isPrefixOf_dotted]
      exact hfirst y hy
    have hv : splitLines v = none := splitLines_right (hls (bcc ++ v) (by rw [hsplit]; simp))
    have hb : ∀ y ∈ b, splitLines y = none := fun y hy => hls y (by rw [hsplit]; simp [hy])
    have hkept : ∀ y ∈ a ++ behind v b, splitLines y = none := by
      intro y hy
      rcases List.mem_append.mp hy with hy | hy
      · exact hls y (by rw [hsplit]; simp [hy])
      · exact hb y (behind_subset v b hy)
    rw [removeBcc_found hv hb (findBcc_some hl hls hu hsplit hs hfirst),
      removeBcc_found hv (map_dotted_free hb) (findBcc_some hl hls' hu' hsplit' hs' hfirst'),
      behind_map_dotted, ← List.map_append]
    simp only [List.map_eq_nil_iff]
    split_ifs
    · rfl
    · rw [Option.map_some, unstuff_joinLines hl hkept hdot]

end Lines

lemma replaceLFWithCRLF_head (data : Bytes) (h : data.head? ≠ some 46) : (replaceLFWithCRLF data).head? ≠ some 46 := by
  cases data using replaceLFWithCRLF.fun_cases with
  | case1 s => simp [replaceLFWithCRLF]
  | case2 s => simp [replaceLFWithCRLF]
  | case3 c s hcrlf hlf =>
    rw [replaceLFWithCRLF]
    · exact h
    · exact hcrlf
    · exact hlf
  | case4 => simp [replaceLFWithCRLF]

/-- The mark behind the data is the first one. Where the data neither is empty nor starts with a dot, and the header is
not one to seven bytes long, what a server reads back is the data with line ends, without the `Bcc` header removed. -/
theorem dataToSend_transparent (data : Bytes) :
    (∀ m ∈ dataToSend data, EndsOnce m) ∧
      (data ≠ [] → data.head? ≠ some 46 → ¬ShortHeader (replaceLFWithCRLF data) →
        (dataToSend data).map unstuff = removeBcc (replaceLFWithCRLF data) ∧
        (NoBcc (replaceLFWithCRLF data) → (dataToSend data).map unstuff = some (replaceLFWithCRLF data))) := by
  have hhead := replaceLFWithCRLF_head data
  simp only [dataToSend, NoBcc]
  generalize replaceLFWithCRLF data = n at *
  obtain ⟨hl, hls⟩ := lines_free n
  have hjoin := joinLines_lines n
  generalize (lines n).1 = l at *
  generalize (lines n).2 = ls at *
  subst hjoin
  have hstuffed := stuffDots_joinLines hl hls
  constructor
  · intro m hm
    split_ifs at hm
    · cases hm
    rw [hstuffed] at hm
    obtain ⟨xs, hsub, rfl⟩ := removeBcc_subset hl (map_dotted_free hls) hm
    refine endsOnce_joinLines hl (fun x hx => map_dotted_free hls x (hsub hx)) fun x hx => ?_
    obtain ⟨y, -, rfl⟩ := List.mem_map.mp (hsub hx)
    exact dotted_ne_dot y
  · intro hdata hdot hheader
    have hfirst : l.head? ≠ some 46 := by
      intro hl46
      cases l with
      | nil => cases hl46
      | cons c l => exact hhead hdot (by rw [joinLines_cons]; exact hl46)
    have hcommute := removeBcc_map_dotted hl hls hfirst hheader
    rw [if_neg hdata, hstuffed]
    refine ⟨hcommute, fun habsent => ?_⟩
    rw [hcommute, removeBcc, findBcc_none hl hls (not_underflows hl hls hheader).1 habsent]

theorem dataToSend_transparent_dots : (dataToSend (ascii "To: a@b.c\n\n.\n..\n.")).map unstuff =
    some (replaceLFWithCRLF (ascii "To: a@b.c\n\n.\n..\n.")) := by
  have hheader : ¬ShortHeader (replaceLFWithCRLF (ascii "To: a@b.c\n\n.\n..\n.")) := by
    have hfound : (findCString (crlf ++ crlf) (replaceLFWithCRLF (ascii "To: a@b.c\n\n.\n..\n."))).map Prod.fst =
        some (ascii "To: a@b.c") := by decide
    rintro ⟨header, hheader, -, hshort⟩
    rw [hfound, Option.mem_some_iff] at hheader
    rw [← hheader] at hshort
    exact absurd hshort (by decide)
  have habsent : NoBcc (replaceLFWithCRLF (ascii "To: a@b.c\n\n.\n..\n.")) := by
    have hlines : searched (lines (replaceLFWithCRLF (ascii "To: a@b.c\n\n.\n..\n."))).1
        (lines (replaceLFWithCRLF (ascii "To: a@b.c\n\n.\n..\n."))).2 = [] := by decide
    simp [NoBcc, hlines]
  exact ((dataToSend_transparent _).2 (by decide) (by decide) hheader).2 habsent

/-- The `Bcc` header is taken out on purpose. -/
theorem bcc_not_transparent : ¬Transparent (ascii "To: a@b\nBcc: c@d\nFrom: e@f\n\nhello\n") := by
  have hsent : dataToSend (ascii "To: a@b\nBcc: c@d\nFrom: e@f\n\nhello\n") =
      some (ascii "To: a@b\r\nFrom: e@f\r\n\r\nhello\r\n") := by decide
  rintro ⟨m, hm, hread, -⟩
  rw [hsent, Option.mem_some_iff] at hm
  subst hm
  exact absurd hread (by decide)

end Xperimentum.Pantomime.SMTPData
