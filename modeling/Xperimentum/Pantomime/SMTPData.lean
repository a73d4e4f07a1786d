import Mathlib.Tactic
import Xperimentum.Pantomime.Data

/-! What `_parseDATA` of `CWSMTP` sends for a message: line ends, dots and the `Bcc` header. -/

namespace Xperimentum.Pantomime.SMTPData

def bcc : Bytes := ascii "Bcc: "

def stuffDots : Bytes → Bytes
  | 13 :: 10 :: 46 :: s => 13 :: 10 :: 46 :: 46 :: stuffDots s
  | c :: s => c :: stuffDots s
  | [] => []

/-- `none` is a search that runs past the end of the data. -/
def findBcc (m : Bytes) : Option (Option (Bytes × Bytes)) :=
  if m.length < (crlf ++ bcc).length then some none
  else
    match findCString (crlf ++ crlf) m with
    | none => some (findCString (crlf ++ bcc) m)
    | some (header, _) =>
      -- the length searched is that of the header less one, and both subtractions can wrap around
      if header = [] then some (findCString (crlf ++ bcc) m)
      else if header.length - 1 < (crlf ++ bcc).length then (findCString (crlf ++ bcc) m).map some
      else
        match findCString (crlf ++ bcc) header.dropLast with
        | none => some none
        | some (before, _) => some (some (before, m.drop (before.length + (crlf ++ bcc).length)))

/-- The search for the line end starts one byte behind the name, and without one the range is invalid. -/
def removeBcc (m : Bytes) : Option Bytes :=
  match findBcc m with
  | none => none
  | some none => some m
  | some (some (before, after)) => (findCString crlf (after.drop 1)).map fun found => before ++ crlf ++ found.2

/-- The first byte of the data is read before its length is looked at. -/
def dataToSend (data : Bytes) : Option Bytes :=
  if data = [] then none else removeBcc (stuffDots (replaceLFWithCRLF data))

def isBcc (line : Bytes) : Bool := (line.take 4).map lower = ascii "bcc:"

def isContinuation (line : Bytes) : Bool := line.head? = some 32 || line.head? = some 9

/-- The header lines without those of a `Bcc` field, then the empty line and the body. -/
@[grind =] def withoutBcc (inField : Bool) : List Bytes → List Bytes
  | [] => []
  | l :: ls =>
    if l = [] then l :: ls
    else if isBcc l || inField && isContinuation l then withoutBcc true ls
    else l :: withoutBcc false ls

def message : List Bytes → Bytes
  | [] => []
  | l :: ls => joinLines l ls

def HidesBcc (data : Bytes) : Prop :=
  let m := stuffDots (replaceLFWithCRLF data)
  dataToSend data = some (message (withoutBcc false ((lines m).1 :: (lines m).2)))

section Search

variable {l v : Bytes} {ls a b : List Bytes}

lemma isPrefixOf_append_cr {q : Bytes} (hq : 13 ∉ q) (x r : Bytes) :
    q.isPrefixOf (x ++ 13 :: r) = q.isPrefixOf x := by
  induction q generalizing x with
  | nil => rfl
  | cons c q ih =>
    have hc : (c == 13) = false := by
      rw [beq_eq_false_iff_ne]
      rintro rfl
      exact hq List.mem_cons_self
    cases x with
    | nil => simp [List.isPrefixOf, hc]
    | cons d x => simp [List.isPrefixOf, ih (fun h => hq (List.mem_cons_of_mem c h)) x]

lemma bcc_isPrefixOf_joinLines (x : Bytes) (b : List Bytes) :
    bcc.isPrefixOf (joinLines x b) = bcc.isPrefixOf x := by
  cases b with
  | nil => rfl
  | cons y b => exact isPrefixOf_append_cr (by decide) x _

lemma bcc_drop (v : Bytes) (b : List Bytes) : (joinLines (bcc ++ v) b).drop bcc.length = joinLines v b := by
  cases b with
  | nil => exact List.drop_left
  | cons y b => rw [joinLines, List.append_assoc, List.drop_left, joinLines]

lemma findBccLine_none (hl : splitLines l = none) (hls : ∀ x ∈ ls, splitLines x = none)
    (h : ∀ x ∈ ls, ¬bcc.isPrefixOf x) : findCString (crlf ++ bcc) (joinLines l ls) = none := by
  induction ls generalizing l with
  | nil => exact findCString_free bcc hl
  | cons x ls ih =>
    have hx : ¬bcc.isPrefixOf (joinLines x ls) := by
      rw [bcc_isPrefixOf_joinLines]
      exact h x List.mem_cons_self
    have hrest := ih (hls x List.mem_cons_self) (fun y hy => hls y (List.mem_cons_of_mem x hy))
      fun y hy => h y (List.mem_cons_of_mem x hy)
    have hline := findCString_line bcc hl (joinLines x ls)
    rw [if_neg hx] at hline
    rw [joinLines, hline, hrest, Option.map_none]

lemma findBccLine_some (hl : splitLines l = none) (ha : ∀ x ∈ a, splitLines x = none)
    (h : ∀ x ∈ a, ¬bcc.isPrefixOf x) :
    findCString (crlf ++ bcc) (joinLines l (a ++ (bcc ++ v) :: b)) = some (joinLines l a, joinLines v b) := by
  induction a generalizing l with
  | nil =>
    have hx : bcc.isPrefixOf (joinLines (bcc ++ v) b) := by
      rw [bcc_isPrefixOf_joinLines]
      exact List.isPrefixOf_iff_prefix.mpr (List.prefix_append bcc v)
    have hline := findCString_line bcc hl (joinLines (bcc ++ v) b)
    rw [if_pos hx, bcc_drop] at hline
    exact hline
  | cons x a ih =>
    have hx : ¬bcc.isPrefixOf (joinLines x (a ++ (bcc ++ v) :: b)) := by
      rw [bcc_isPrefixOf_joinLines]
      exact h x List.mem_cons_self
    have hrest := ih (ha x List.mem_cons_self) (fun y hy => ha y (List.mem_cons_of_mem x hy))
      fun y hy => h y (List.mem_cons_of_mem x hy)
    have hline := findCString_line bcc hl (joinLines x (a ++ (bcc ++ v) :: b))
    rw [if_neg hx] at hline
    rw [List.cons_append, joinLines, hline, hrest]
    rfl

lemma findCString_crlf (hl : splitLines l = none) (y : Bytes) (b : List Bytes) :
    findCString crlf (joinLines l (y :: b)) = some (l, joinLines y b) := findCString_line [] hl (joinLines y b)

lemma findCString_crlf_nil (hl : splitLines l = none) : findCString crlf (joinLines l []) = none :=
  findCString_free [] hl

/-- The lines before the first empty one that is not the last. -/
@[grind =] def block : List Bytes → Option (List Bytes)
  | [] | [_] => none
  | x :: y :: ls => if x = [] then some [] else (block (y :: ls)).map (x :: ·)

lemma block_cons {x : Bytes} (hx : x ≠ []) (b : List Bytes) : block (x :: b) = (block b).map (x :: ·) := by
  cases b with
  | nil => rfl
  | cons y b => rw [block, if_neg hx]

lemma block_append (ha : ∀ x ∈ a, x ≠ []) (b : List Bytes) : block (a ++ b) = (block b).map (a ++ ·) := by
  induction a with
  | nil => simp
  | cons x a ih =>
    rw [List.cons_append, block_cons (ha x List.mem_cons_self),
      ih fun y hy => ha y (List.mem_cons_of_mem x hy), Option.map_map]
    rfl

lemma block_some {k : List Bytes} (h : block ls = some k) :
    (∀ x ∈ k, x ≠ []) ∧ ∃ y t, ls = k ++ [] :: y :: t := by
  induction ls generalizing k with
  | nil => cases h
  | cons x ls ih =>
    cases ls with
    | nil => cases h
    | cons y ls =>
      by_cases hx : x = []
      · subst hx
        obtain rfl := Option.some.inj h
        exact ⟨by simp, y, ls, rfl⟩
      · rw [block_cons hx] at h
        obtain ⟨k', hk', rfl⟩ := Option.map_eq_some_iff.mp h
        obtain ⟨hne, y', t, hls⟩ := ih hk'
        refine ⟨fun z hz => ?_, y', t, by rw [hls]; rfl⟩
        rcases List.mem_cons.mp hz with rfl | hz
        · exact hx
        · exact hne z hz

lemma block_none {x y : Bytes} (h : block (a ++ x :: y :: b) = none) : (∀ z ∈ a, z ≠ []) ∧ x ≠ [] := by
  induction a with
  | nil =>
    refine ⟨by simp, ?_⟩
    rintro rfl
    simp [block] at h
  | cons z a ih =>
    have hz : z ≠ [] := by
      rintro rfl
      cases a <;> simp [block] at h
    rw [List.cons_append, block_cons hz] at h
    obtain ⟨ha, hx⟩ := ih (Option.map_eq_none_iff.mp h)
    refine ⟨fun w hw => ?_, hx⟩
    rcases List.mem_cons.mp hw with rfl | hw
    · exact hz
    · exact ha w hw

lemma crlf_isPrefixOf_joinLines {x : Bytes} (hx : splitLines x = none) (b : List Bytes) :
    crlf.isPrefixOf (joinLines x b) ↔ x = [] ∧ b ≠ [] := by
  rw [List.isPrefixOf_iff_prefix]
  constructor
  · rintro ⟨t, ht⟩
    cases x with
    | nil =>
      refine ⟨rfl, ?_⟩
      rintro rfl
      simp [joinLines, crlf] at ht
    | cons c x =>
      rw [joinLines_cons] at ht
      obtain ⟨rfl, hlf⟩ := List.cons.inj ht
      cases x with
      | nil =>
        cases b with
        | nil => cases hlf
        | cons y b => exact absurd (List.cons.inj hlf).1 (by decide)
      | cons d x =>
        rw [joinLines_cons] at hlf
        obtain ⟨rfl, -⟩ := List.cons.inj hlf
        simp [splitLines] at hx
  · rintro ⟨rfl, hb⟩
    obtain ⟨y, b, rfl⟩ := List.exists_cons_of_ne_nil hb
    exact ⟨joinLines y b, rfl⟩

lemma findBlank (hl : splitLines l = none) (hls : ∀ x ∈ ls, splitLines x = none) :
    (findCString (crlf ++ crlf) (joinLines l ls)).map Prod.fst = (block ls).map (joinLines l) := by
  induction ls generalizing l with
  | nil =>
    rw [joinLines, findCString_free crlf hl]
    rfl
  | cons x ls ih =>
    have hrest := ih (hls x List.mem_cons_self) fun y hy => hls y (List.mem_cons_of_mem x hy)
    have hpre := crlf_isPrefixOf_joinLines (hls x List.mem_cons_self) ls
    rw [joinLines, findCString_line crlf hl]
    by_cases hx : x = []
    · subst hx
      cases ls with
      | nil => rfl
      | cons y ls =>
        rw [if_pos (hpre.mpr ⟨rfl, List.cons_ne_nil y ls⟩)]
        rfl
    · have hcongr := congrArg (Option.map fun h => l ++ 13 :: 10 :: h) hrest
      rw [Option.map_map, Option.map_map] at hcongr
      rw [if_neg fun h => hx (hpre.mp h).1, block_cons hx, Option.map_map, Option.map_map]
      exact hcongr

/-- The last header line is searched without its last byte. -/
@[grind =] def clip : List Bytes → List Bytes
  | [] => []
  | [x] => [x.dropLast]
  | x :: y :: ls => x :: clip (y :: ls)

lemma joinLines_dropLast {l : Bytes} {k : List Bytes} (hk : k ≠ []) (hne : ∀ x ∈ k, x ≠ []) :
    (joinLines l k).dropLast = joinLines l (clip k) := by
  induction k generalizing l with
  | nil => exact absurd rfl hk
  | cons x k ih =>
    have hx : x ≠ [] := hne x List.mem_cons_self
    cases k with
    | nil =>
      obtain ⟨c, x, rfl⟩ := List.exists_cons_of_ne_nil hx
      simp [joinLines, clip, List.dropLast_append_of_ne_nil]
    | cons y k =>
      have hrest := ih (l := x) (List.cons_ne_nil y k) fun z hz => hne z (List.mem_cons_of_mem x hz)
      have hjoin : joinLines x (y :: k) ≠ [] := by
        obtain ⟨c, x, rfl⟩ := List.exists_cons_of_ne_nil hx
        rw [joinLines_cons]
        exact List.cons_ne_nil _ _
      obtain ⟨c, r, hr⟩ := List.exists_cons_of_ne_nil hjoin
      change (l ++ 13 :: 10 :: joinLines x (y :: k)).dropLast = l ++ 13 :: 10 :: joinLines x (clip (y :: k))
      rw [← hrest, hr, List.dropLast_append_of_ne_nil (List.cons_ne_nil _ _)]
      rfl

lemma clip_free {k : List Bytes} (hk : ∀ x ∈ k, splitLines x = none) : ∀ x ∈ clip k, splitLines x = none := by
  induction k with
  | nil => simp [clip]
  | cons y k ih =>
    intro x hx
    cases k with
    | nil =>
      rw [clip, List.mem_singleton] at hx
      have hy := hk y List.mem_cons_self
      rcases List.eq_nil_or_concat y with rfl | ⟨y', c, rfl⟩
      · rw [hx]
        rfl
      · rw [List.concat_eq_append] at hx hy
        rw [hx, List.dropLast_concat]
        exact splitLines_left hy
    | cons z k =>
      rcases List.mem_cons.mp hx with rfl | hx
      · exact hk x List.mem_cons_self
      · exact ih (fun w hw => hk w (List.mem_cons_of_mem y hw)) x hx

lemma clip_append (a : List Bytes) (x y : Bytes) (b : List Bytes) :
    clip (a ++ x :: y :: b) = a ++ x :: clip (y :: b) := by
  induction a with
  | nil => rfl
  | cons z a ih =>
    cases a with
    | nil => rfl
    | cons w a => rw [List.cons_append, List.cons_append, clip, ← List.cons_append, ih]; rfl

lemma clip_concat (a : List Bytes) (x : Bytes) : clip (a ++ [x]) = a ++ [x.dropLast] := by
  induction a with
  | nil => rfl
  | cons z a ih =>
    cases a with
    | nil => rfl
    | cons w a => rw [List.cons_append, List.cons_append, clip, ← List.cons_append, ih]; rfl

lemma clip_split {k a c : List Bytes} {x : Bytes} (h : clip k = a ++ x :: c) :
    (∃ y d, k = a ++ x :: y :: d) ∨ (∃ z, k = a ++ [z] ∧ x = z.dropLast) := by
  rcases List.eq_nil_or_concat k with rfl | ⟨k', z, rfl⟩
  · cases a <;> cases h
  · rw [List.concat_eq_append] at h ⊢
    rw [clip_concat] at h
    rcases List.append_eq_append_iff.mp h with ⟨a', rfl, hx⟩ | ⟨c', rfl, hx⟩
    · cases a' with
      | nil =>
        obtain ⟨rfl, -⟩ := List.cons.inj hx
        exact .inr ⟨z, by simp, rfl⟩
      | cons w a' =>
        have hnil := (List.cons.inj hx).2
        cases a' <;> cases hnil
    · cases c' with
      | nil =>
        obtain ⟨rfl, -⟩ := List.cons.inj hx
        exact .inr ⟨z, by simp, rfl⟩
      | cons w c' =>
        obtain ⟨rfl, rfl⟩ := List.cons.inj hx
        rw [List.append_assoc]
        cases c' with
        | nil => exact .inl ⟨z, [], rfl⟩
        | cons y c' => exact .inl ⟨y, c' ++ [z], rfl⟩

/-- The lines that the search for the `Bcc` header looks at, the first line of the message apart. -/
def searched (l : Bytes) (ls : List Bytes) : List Bytes :=
  match block ls with
  | none => ls
  | some k => if l = [] ∧ k = [] then ls else clip k

/-- The header is so short that the length of the search wraps around. -/
def Underflows (m : Bytes) : Prop :=
  7 ≤ m.length ∧ ∃ header ∈ (findCString (crlf ++ crlf) m).map Prod.fst, header ≠ [] ∧ header.length ≤ 7

lemma findBcc_underflow {m : Bytes} (h : Underflows m) : findBcc m = (findCString (crlf ++ bcc) m).map some := by
  obtain ⟨hlen, header, hheader, hne, hshort⟩ := h
  obtain ⟨⟨header', rest⟩, hfind, rfl⟩ := Option.map_eq_some_iff.mp hheader
  have hlong : ¬m.length < (crlf ++ bcc).length := by
    simp only [show (crlf ++ bcc).length = 7 from rfl]
    omega
  have hwrap : header'.length - 1 < (crlf ++ bcc).length := by
    simp only [show (crlf ++ bcc).length = 7 from rfl]
    simp only at hshort
    omega
  simp only [findBcc, if_neg hlong, hfind, if_neg hne, if_pos hwrap]

def bccRegion (m : Bytes) : Bytes :=
  match findCString (crlf ++ crlf) m with
  | none => m
  | some (header, _) => if header = [] then m else header.dropLast

lemma findBcc_region {m : Bytes} (hu : ¬Underflows m) :
    findBcc m = some ((findCString (crlf ++ bcc) (bccRegion m)).map fun found =>
      (found.1, m.drop (found.1.length + (crlf ++ bcc).length))) := by
  have hwhole : (findCString (crlf ++ bcc) m).map (fun found =>
      (found.1, m.drop (found.1.length + (crlf ++ bcc).length))) = findCString (crlf ++ bcc) m := by
    cases hfind : findCString (crlf ++ bcc) m with
    | none => rfl
    | some found =>
      obtain ⟨x, y⟩ := found
      have hm := findCString_some hfind
      rw [Option.map_some, hm, ← List.length_append, List.drop_left]
  have hneedle : (crlf ++ bcc).length = 7 := rfl
  by_cases hlen : m.length < (crlf ++ bcc).length
  · have hnone : findCString (crlf ++ bcc) (bccRegion m) = none := by
      cases hfind : findCString (crlf ++ bcc) (bccRegion m) with
      | none => rfl
      | some found =>
        have hregion := congrArg List.length (findCString_some hfind)
        have hle : (bccRegion m).length ≤ m.length := by
          simp only [bccRegion]
          split
          · exact le_rfl
          · rename_i header rest hblank
            split_ifs
            · exact le_rfl
            · have hm := congrArg List.length (findCString_some hblank)
              simp only [List.length_append, List.length_dropLast] at hm ⊢
              omega
        simp only [List.length_append] at hregion hneedle hlen
        omega
    simp only [findBcc, if_pos hlen, hnone, Option.map_none]
  · simp only [findBcc, if_neg hlen, bccRegion]
    cases hblank : findCString (crlf ++ crlf) m with
    | none => simp only [hwhole]
    | some found =>
      obtain ⟨header, rest⟩ := found
      by_cases hnil : header = []
      · simp only [if_pos hnil, hwhole]
      · have hlong : ¬header.length - 1 < (crlf ++ bcc).length := by
          intro hshort
          refine hu ⟨by omega, header, by rw [hblank]; rfl, hnil, ?_⟩
          omega
        simp only [if_neg hnil, if_neg hlong]
        cases findCString (crlf ++ bcc) header.dropLast <;> rfl

lemma bccRegion_lines (hl : splitLines l = none) (hls : ∀ x ∈ ls, splitLines x = none) :
    ∃ l', splitLines l' = none ∧ bccRegion (joinLines l ls) = joinLines l' (searched l ls) ∧
      (searched l ls ≠ [] → l' = l) := by
  have hblank := findBlank hl hls
  simp only [bccRegion, searched]
  cases hb : block ls with
  | none =>
    rw [hb, Option.map_none, Option.map_eq_none_iff] at hblank
    exact ⟨l, hl, by rw [hblank], fun _ => rfl⟩
  | some k =>
    rw [hb, Option.map_some] at hblank
    obtain ⟨⟨header, rest⟩, hfind, hheader⟩ := Option.map_eq_some_iff.mp hblank
    obtain ⟨hne, -⟩ := block_some hb
    simp only at hheader
    subst hheader
    have hnil : joinLines l k = [] ↔ l = [] ∧ k = [] := by
      cases k <;> simp [joinLines]
    simp only [hfind, hnil]
    split_ifs with hempty
    · exact ⟨l, hl, rfl, fun _ => rfl⟩
    · cases k with
      | nil =>
        refine ⟨l.dropLast, ?_, rfl, fun h => absurd rfl h⟩
        have hcut := clip_free (k := [l]) (by simpa using hl)
        exact hcut _ (List.mem_singleton.mpr rfl)
      | cons x k => exact ⟨l, hl, joinLines_dropLast (List.cons_ne_nil x k) hne, fun _ => rfl⟩

lemma searched_free (hls : ∀ x ∈ ls, splitLines x = none) : ∀ x ∈ searched l ls, splitLines x = none := by
  simp only [searched]
  cases hb : block ls with
  | none => exact hls
  | some k =>
    obtain ⟨-, y, t, hsplit⟩ := block_some hb
    simp only
    split_ifs
    · exact hls
    · refine clip_free fun x hx => hls x ?_
      rw [hsplit]
      exact List.mem_append_left _ hx

lemma findBcc_none (hl : splitLines l = none) (hls : ∀ x ∈ ls, splitLines x = none)
    (hu : ¬Underflows (joinLines l ls)) (h : ∀ x ∈ searched l ls, ¬bcc.isPrefixOf x) :
    findBcc (joinLines l ls) = some none := by
  obtain ⟨l', hl', hregion, -⟩ := bccRegion_lines hl hls
  rw [findBcc_region hu, hregion, findBccLine_none hl' (searched_free hls) h, Option.map_none]

lemma findBcc_some (hl : splitLines l = none) (hls : ∀ x ∈ ls, splitLines x = none)
    (hu : ¬Underflows (joinLines l ls)) (hsplit : ls = a ++ (bcc ++ v) :: b) {w : Bytes} {c : List Bytes}
    (hs : searched l ls = a ++ (bcc ++ w) :: c) (h : ∀ x ∈ a, ¬bcc.isPrefixOf x) :
    findBcc (joinLines l ls) = some (some (joinLines l a, joinLines v b)) := by
  have ha : ∀ x ∈ a, splitLines x = none := by
    intro x hx
    refine hls x ?_
    rw [hsplit]
    exact List.mem_append_left _ hx
  obtain ⟨l', hl', hregion, heq⟩ := bccRegion_lines hl hls
  have hne : searched l ls ≠ [] := by
    rw [hs]
    exact List.append_ne_nil_of_right_ne_nil a (List.cons_ne_nil _ _)
  obtain rfl := heq hne
  have hwhole := findCString_some (findBccLine_some (v := v) (b := b) hl ha h)
  rw [← hsplit] at hwhole
  rw [findBcc_region hu, hregion, hs, findBccLine_some hl ha h, Option.map_some, hwhole, ← List.length_append,
    List.drop_left]

/-- The lines left behind a field whose first line ends in `v`. -/
def behind (v : Bytes) (b : List Bytes) : List Bytes := if v = [] then b.drop 1 else b

lemma behind_length (v : Bytes) (b : List Bytes) : (behind v b).length ≤ b.length := by
  simp only [behind]
  split_ifs
  · simp
  · exact le_rfl

lemma behind_subset (v : Bytes) (b : List Bytes) : behind v b ⊆ b := by
  simp only [behind]
  split_ifs
  · exact List.drop_subset 1 b
  · exact List.Subset.refl b

lemma removeBcc_found (hv : splitLines v = none) (hb : ∀ y ∈ b, splitLines y = none)
    (h : findBcc (joinLines l ls) = some (some (joinLines l a, joinLines v b))) :
    removeBcc (joinLines l ls) = if behind v b = [] then none else some (joinLines l (a ++ behind v b)) := by
  simp only [removeBcc, h, behind]
  cases v with
  | nil =>
    simp only [↓reduceIte]
    cases b with
    | nil => rfl
    | cons y b =>
      have hy := splitLines_lf (hb y List.mem_cons_self)
      change (findCString crlf (10 :: joinLines y b)).map _ = _
      rw [← joinLines_cons, List.drop_one, List.tail_cons]
      cases b with
      | nil => rw [findCString_crlf_nil hy, Option.map_none, if_pos rfl]
      | cons z b =>
        rw [findCString_crlf hy, Option.map_some, if_neg (List.cons_ne_nil z b), joinLines_append]
        simp [crlf]
  | cons c v =>
    simp only [if_neg (List.cons_ne_nil c v), joinLines_cons, List.drop_one, List.tail_cons]
    have hfree := splitLines_tail hv
    cases b with
    | nil => rw [findCString_crlf_nil hfree, Option.map_none, if_pos rfl]
    | cons z b =>
      rw [findCString_crlf hfree, Option.map_some, if_neg (List.cons_ne_nil z b), joinLines_append]
      simp [crlf]

lemma searched_split {w : Bytes} {c : List Bytes} (hs : searched l ls = a ++ (bcc ++ w) :: c) :
    ∃ v b, ls = a ++ (bcc ++ v) :: b ∧
      (l ≠ [] → (∀ x ∈ a, x ≠ []) ∧ (v = [] → ∀ y z t, b = y :: z :: t → y ≠ [])) := by
  simp only [searched] at hs
  cases hb : block ls with
  | none =>
    simp only [hb] at hs
    refine ⟨w, c, hs, fun _ => ?_⟩
    rw [hs] at hb
    constructor
    · cases c with
      | nil =>
        intro x hx
        obtain ⟨a₁, a₂, rfl⟩ := List.append_of_mem hx
        cases a₂ with
        | nil => exact (block_none (a := a₁) (x := x) (y := bcc ++ w) (b := []) (by simpa using hb)).2
        | cons z a₂ => exact (block_none (a := a₁) (x := x) (y := z) (b := a₂ ++ [bcc ++ w]) (by simpa using hb)).2
      | cons y c => exact (block_none hb).1
    · rintro - y z t rfl
      exact (block_none (a := a ++ [bcc ++ w]) (x := y) (y := z) (b := t) (by simpa using hb)).2
  | some k =>
    obtain ⟨hne, y, t, hsplit⟩ := block_some hb
    simp only [hb] at hs
    split_ifs at hs with hempty
    · exact ⟨w, c, hs, fun hl => absurd hempty.1 hl⟩
    · rcases clip_split hs with ⟨y', d, hk⟩ | ⟨z, hk, hw⟩
      · refine ⟨w, y' :: d ++ [] :: y :: t, by rw [hsplit, hk]; simp, fun _ => ⟨fun x hx => ?_, ?_⟩⟩
        · exact hne x (by rw [hk]; exact List.mem_append_left _ hx)
        · rintro - y'' z'' t'' hcons
          obtain ⟨rfl, -⟩ := List.cons.inj hcons
          exact hne y' (by rw [hk]; simp)
      · rcases List.eq_nil_or_concat z with rfl | ⟨z', e, rfl⟩
        · exact absurd hw (List.append_ne_nil_of_left_ne_nil (by decide) w)
        · rw [List.concat_eq_append] at hk hw
          rw [List.dropLast_concat] at hw
          subst hw
          refine ⟨w ++ [e], [] :: y :: t, by rw [hsplit, hk]; simp, fun _ => ⟨fun x hx => ?_, ?_⟩⟩
          · exact hne x (by rw [hk]; exact List.mem_append_left _ hx)
          · intro hnil
            simp at hnil

lemma searched_field (hl : l ≠ []) (ha : ∀ x ∈ a, x ≠ []) (h : v ≠ [] ∨ ∃ y t, b = y :: t ∧ y ≠ []) :
    ∃ w c, searched l (a ++ (bcc ++ v) :: b) = a ++ (bcc ++ w) :: c := by
  have hx : bcc ++ v ≠ [] := List.append_ne_nil_of_left_ne_nil (by decide) v
  simp only [searched, block_append ha, block_cons hx]
  cases hb : block b with
  | none => exact ⟨v, b, rfl⟩
  | some k =>
    obtain ⟨-, y, t, hsplit⟩ := block_some hb
    simp only [Option.map_some, hl, false_and, ↓reduceIte]
    cases k with
    | nil =>
      have hv : v ≠ [] := by
        rcases h with hv | ⟨y', t', hcons, hy⟩
        · exact hv
        · rw [hsplit] at hcons
          exact absurd (List.cons.inj hcons).1.symm hy
      exact ⟨v.dropLast, [], by rw [clip_concat, List.dropLast_append_of_ne_nil hv]⟩
    | cons z k => exact ⟨v, clip (z :: k), clip_append a _ z k⟩

end Search

section Fields

variable {l x : Bytes} {ls a b : List Bytes} {f : Bool}

/-- No line up to the first empty one belongs to a `Bcc` field. -/
@[grind =] def BccFree (inField : Bool) : List Bytes → Prop
  | [] => True
  | l :: ls => l = [] ∨ (isBcc l || inField && isContinuation l) = false ∧ BccFree false ls

lemma withoutBcc_length (f : Bool) (ls : List Bytes) : (withoutBcc f ls).length ≤ ls.length := by
  induction ls generalizing f with
  | nil => rfl
  | cons l ls ih =>
    simp only [withoutBcc]
    split_ifs
    · rfl
    · exact (ih true).trans (Nat.le_succ _)
    · exact Nat.succ_le_succ (ih false)

lemma withoutBcc_eq_iff : withoutBcc f ls = ls ↔ BccFree f ls := by
  induction ls generalizing f with
  | nil => simp [withoutBcc, BccFree]
  | cons l ls ih =>
    simp only [withoutBcc, BccFree]
    split_ifs with hl hfield
    · simp [hl]
    · have hshort := withoutBcc_length true ls
      simp only [hl, hfield, false_or, Bool.true_eq_false, false_and, iff_false]
      intro heq
      rw [heq, List.length_cons] at hshort
      omega
    · rw [Bool.not_eq_true] at hfield
      simp only [hl, hfield, false_or, true_and, List.cons.injEq, ih]

lemma withoutBcc_subset (f : Bool) (ls : List Bytes) : withoutBcc f ls ⊆ ls := by
  induction ls generalizing f with
  | nil => exact List.Subset.refl _
  | cons l ls ih =>
    simp only [withoutBcc]
    split_ifs
    · exact List.Subset.refl _
    · exact List.subset_cons_of_subset l (ih true)
    · exact List.cons_subset_cons l (ih false)

lemma withoutBcc_append_field (ha : ∀ y ∈ a, y ≠ []) (hx : isBcc x) (f : Bool) (b : List Bytes) :
    withoutBcc f (a ++ x :: b) = withoutBcc f a ++ withoutBcc true b := by
  induction a generalizing f with
  | nil =>
    have hne : x ≠ [] := by
      rintro rfl
      exact absurd hx (by decide)
    simp [withoutBcc, hne, hx]
  | cons y a ih =>
    have hrest := ih fun z hz => ha z (List.mem_cons_of_mem y hz)
    simp only [List.cons_append, withoutBcc, if_neg (ha y List.mem_cons_self), hrest]
    split_ifs <;> rfl

lemma withoutBcc_append_blank (ha : ∀ y ∈ a, y ≠ []) (f : Bool) (b : List Bytes) :
    withoutBcc f (a ++ [] :: b) = withoutBcc f a ++ [] :: b := by
  induction a generalizing f with
  | nil => rfl
  | cons y a ih =>
    have hrest := ih fun z hz => ha z (List.mem_cons_of_mem y hz)
    simp only [List.cons_append, withoutBcc, if_neg (ha y List.mem_cons_self), hrest]
    split_ifs <;> rfl

lemma withoutBcc_lines (h : withoutBcc f ls = a ++ x :: b) (ha : ∀ y ∈ a, y ≠ []) (hx : x ≠ []) :
    isBcc x = false := by
  induction ls generalizing f a with
  | nil => cases a <;> cases h
  | cons l ls ih =>
    simp only [withoutBcc] at h
    split_ifs at h with hl hfield
    · cases a with
      | nil => exact absurd ((List.cons.inj h).1.symm.trans hl) hx
      | cons y a => exact absurd ((List.cons.inj h).1.symm.trans hl) (ha y List.mem_cons_self)
    · exact ih h ha
    · rw [Bool.not_eq_true, Bool.or_eq_false_iff] at hfield
      cases a with
      | nil =>
        obtain ⟨rfl, -⟩ := List.cons.inj h
        exact hfield.1
      | cons y a => exact ih (List.cons.inj h).2 fun z hz => ha z (List.mem_cons_of_mem y hz)

lemma cons_withoutBcc_ne (hx : x ≠ []) (hno : isBcc x = false) (ls : List Bytes) : x :: withoutBcc false ls ≠ ls := by
  induction ls with
  | nil => exact List.cons_ne_nil _ _
  | cons y ls ih =>
    intro h
    obtain ⟨rfl, hrest⟩ := List.cons.inj h
    rw [withoutBcc, if_neg hx, hno, Bool.false_and, Bool.or_false, if_neg Bool.false_ne_true] at hrest
    exact ih hrest

lemma withoutBcc_keep (h : ∀ x ∈ a, isBcc x = false) : withoutBcc false a = a := by
  rw [withoutBcc_eq_iff]
  induction a with
  | nil => trivial
  | cons x a ih =>
    refine .inr ⟨?_, ih fun y hy => h y (List.mem_cons_of_mem x hy)⟩
    rw [h x List.mem_cons_self, Bool.false_and, Bool.or_false]

lemma isBcc_of_isPrefixOf (h : bcc.isPrefixOf x) : isBcc x := by
  obtain ⟨t, rfl⟩ := List.isPrefixOf_iff_prefix.mp h
  rfl

lemma BccFree.lines (h : BccFree f ls) (hsplit : ls = a ++ x :: b) (ha : ∀ y ∈ a, y ≠ []) (hx : x ≠ []) :
    isBcc x = false := by
  subst hsplit
  induction a generalizing f with
  | nil =>
    obtain hnil | ⟨hno, -⟩ := h
    · exact absurd hnil hx
    · exact (Bool.or_eq_false_iff.mp hno).1
  | cons y a ih =>
    obtain hnil | ⟨-, hrest⟩ := h
    · exact absurd hnil (ha y List.mem_cons_self)
    · exact ih (fun z hz => ha z (List.mem_cons_of_mem y hz)) hrest

lemma joinLines_eq_message (hl : splitLines l = none) {r : List Bytes} (hr : ∀ y ∈ r, splitLines y = none)
    (hls : ∀ y ∈ ls, splitLines y = none) :
    joinLines l r = message (withoutBcc false (l :: ls)) ↔
      isBcc l = false ∧ r = if l = [] then ls else withoutBcc false ls := by
  simp only [withoutBcc, Bool.false_and, Bool.or_false]
  split_ifs with hnil hbcc
  · subst hnil
    refine ⟨fun h => ⟨rfl, (joinLines_injective h hl hr hl hls).2⟩, ?_⟩
    rintro ⟨-, rfl⟩
    rfl
  · simp only [hbcc, Bool.true_eq_false, false_and, iff_false]
    intro h
    cases hw : withoutBcc true ls with
    | nil =>
      rw [hw] at h
      have hempty : joinLines l r = joinLines [] [] := h
      exact hnil (joinLines_injective hempty hl hr rfl (by simp)).1
    | cons x t =>
      have hsub := withoutBcc_subset true ls
      rw [hw] at h hsub
      have hx : splitLines x = none := hls x (hsub List.mem_cons_self)
      obtain ⟨rfl, -⟩ := joinLines_injective h hl hr hx fun y hy => hls y (hsub (List.mem_cons_of_mem x hy))
      have hno := withoutBcc_lines (a := []) hw (by simp) hnil
      exact absurd hbcc (ne_true_of_eq_false hno)
  · rw [Bool.not_eq_true] at hbcc
    have hsub := withoutBcc_subset false ls
    refine ⟨fun h => ⟨hbcc, (joinLines_injective h hl hr hl fun y hy => hls y (hsub hy)).2⟩, ?_⟩
    rintro ⟨-, rfl⟩
    rfl

end Fields

section Removal

variable {l : Bytes} {ls : List Bytes}

/-- A field that the removal takes out: a `Bcc: ` header of one line, or an empty one and the line behind it. -/
def OneField (d : List Bytes) : Prop :=
  (∃ v, v ≠ [] ∧ d = [bcc ++ v]) ∨ ∃ y, y ≠ [] ∧ (isBcc y || isContinuation y) = true ∧ d = [bcc, y]

def Removable (l : Bytes) (ls : List Bytes) : Prop :=
  if l = [] then ∀ x ∈ searched l ls, ¬bcc.isPrefixOf x
  else isBcc l = false ∧ (BccFree false ls ∨ ∃ a d b, ls = a ++ d ++ b ∧ OneField d ∧ b ≠ [] ∧
    (∀ x ∈ a, x ≠ [] ∧ isBcc x = false) ∧ BccFree true b)

def BccRemovable (data : Bytes) : Prop :=
  let m := stuffDots (replaceLFWithCRLF data)
  data ≠ [] ∧ ¬Underflows m ∧ Removable (lines m).1 (lines m).2

lemma exists_first (xs : List Bytes) : (∀ x ∈ xs, ¬bcc.isPrefixOf x) ∨
    ∃ a w c, xs = a ++ (bcc ++ w) :: c ∧ ∀ y ∈ a, ¬bcc.isPrefixOf y := by
  cases hfind : xs.find? (bcc.isPrefixOf ·) with
  | none =>
    rw [List.find?_eq_none] at hfind
    exact .inl hfind
  | some x =>
    obtain ⟨hx, a, c, rfl, ha⟩ := List.find?_eq_some_iff_append.mp hfind
    obtain ⟨w, rfl⟩ := List.isPrefixOf_iff_prefix.mp hx
    refine .inr ⟨a, w, c, rfl, fun y hy hpre => ?_⟩
    have hno := ha y hy
    rw [hpre] at hno
    cases hno

lemma removable_iff_of_absent (h : ∀ x ∈ searched l ls, ¬bcc.isPrefixOf x) :
    Removable l ls ↔ isBcc l = false ∧ ls = if l = [] then ls else withoutBcc false ls := by
  simp only [Removable]
  split_ifs with hl
  · subst hl
    exact ⟨fun _ => ⟨rfl, rfl⟩, fun _ => h⟩
  · rw [eq_comm (a := ls), withoutBcc_eq_iff]
    refine and_congr_right fun _ => ⟨?_, .inl⟩
    rintro (hfree | ⟨a, d, b, rfl, hd, -, ha, -⟩)
    · exact hfree
    · have hfound : ∀ v b', (v ≠ [] ∨ ∃ y t, b' = y :: t ∧ y ≠ []) →
          ¬∀ x ∈ searched l (a ++ (bcc ++ v) :: b'), ¬bcc.isPrefixOf x := by
        intro v b' hv hno
        obtain ⟨w, c, hs⟩ := searched_field hl (fun x hx => (ha x hx).1) hv
        refine hno (bcc ++ w) (by rw [hs]; simp) ?_
        exact List.isPrefixOf_iff_prefix.mpr (List.prefix_append bcc w)
      rcases hd with ⟨v, hv, rfl⟩ | ⟨y, hy, -, rfl⟩
      · exact absurd (by simpa using h) (hfound v b (.inl hv))
      · exact absurd (by simpa using h) (hfound [] (y :: b) (.inr ⟨y, b, rfl, hy⟩))

lemma first_unique {a a' b b' : List Bytes} {x x' : Bytes} (h : a ++ x :: b = a' ++ x' :: b') (hx' : x' ∉ a)
    (hx : x ∉ a') : a = a' ∧ x = x' ∧ b = b' := by
  rcases List.append_eq_append_iff.mp h with ⟨c, rfl, hc⟩ | ⟨c, rfl, hc⟩
  · cases c with
    | nil =>
      obtain ⟨rfl, rfl⟩ := List.cons.inj hc
      simp
    | cons y c =>
      obtain ⟨rfl, -⟩ := List.cons.inj hc
      simp at hx
  · cases c with
    | nil =>
      obtain ⟨rfl, rfl⟩ := List.cons.inj hc
      simp
    | cons y c =>
      obtain ⟨rfl, -⟩ := List.cons.inj hc
      simp at hx'

lemma removable_iff_of_found (hl : l ≠ []) {a b : List Bytes} {v : Bytes} (hsplit : ls = a ++ (bcc ++ v) :: b)
    (ha : ∀ x ∈ a, x ≠ []) (hb : v = [] → ∀ y z t, b = y :: z :: t → y ≠ []) (hfirst : ∀ x ∈ a, ¬bcc.isPrefixOf x) :
    Removable l ls ↔ isBcc l = false ∧ behind v b ≠ [] ∧ a ++ behind v b = withoutBcc false ls := by
  have hpre : ∀ w, bcc.isPrefixOf (bcc ++ w) := fun w => List.isPrefixOf_iff_prefix.mpr (List.prefix_append bcc w)
  have hfield : isBcc (bcc ++ v) := isBcc_of_isPrefixOf (hpre v)
  have hne : bcc ++ v ≠ [] := List.append_ne_nil_of_left_ne_nil (by decide) v
  have hw := withoutBcc_append_field ha hfield false b
  rw [← hsplit] at hw
  simp only [Removable, if_neg hl, behind]
  refine and_congr_right fun _ => ⟨?_, ?_⟩
  · rintro (hfree | ⟨a', d, b', hsplit', hd, hb', ha', hfree⟩)
    · rw [hfree.lines hsplit ha hne] at hfield
      cases hfield
    · have hsame : ∀ v' c, ls = a' ++ (bcc ++ v') :: c → a' = a ∧ bcc ++ v' = bcc ++ v ∧ c = b := by
        intro v' c hls
        refine first_unique (hls.symm.trans hsplit) (fun hmem => ?_) fun hmem => hfirst _ hmem (hpre v')
        rw [(ha' _ hmem).2] at hfield
        cases hfield
      have hkeep : withoutBcc false a' = a' := withoutBcc_keep fun x hx => (ha' x hx).2
      rcases hd with ⟨v', hv', rfl⟩ | ⟨y, hy, hyfield, rfl⟩
      · obtain ⟨rfl, hvv, rfl⟩ := hsame v' b' (by rw [hsplit']; simp)
        obtain rfl := List.append_cancel_left hvv
        rw [if_neg hv', hw, hkeep, withoutBcc_eq_iff.mpr hfree]
        exact ⟨hb', rfl⟩
      · obtain ⟨rfl, hvv, rfl⟩ := hsame [] (y :: b') (by rw [hsplit']; simp)
        obtain rfl := List.append_cancel_left hvv
        have hskip : withoutBcc true (y :: b') = b' := by
          rw [withoutBcc, if_neg hy, Bool.true_and, if_pos hyfield, withoutBcc_eq_iff.mpr hfree]
        rw [if_pos rfl, hw, hkeep, hskip]
        exact ⟨hb', rfl⟩
  · rintro ⟨hrest, heq⟩
    have hno : ∀ x ∈ a, isBcc x = false := by
      intro x hx
      obtain ⟨a₁, a₂, rfl⟩ := List.append_of_mem hx
      rw [List.append_assoc, List.cons_append] at heq
      exact withoutBcc_lines heq.symm (fun y hy => ha y (List.mem_append_left _ hy)) (ha x hx)
    rw [hw, withoutBcc_keep hno, List.append_cancel_left_eq] at heq
    refine .inr ?_
    by_cases hv : v = []
    · subst hv
      rw [if_pos rfl] at hrest heq
      obtain _ | ⟨y, _ | ⟨z, t⟩⟩ := b
      · exact absurd rfl hrest
      · exact absurd rfl hrest
      · have hy : y ≠ [] := hb rfl y z t rfl
        have hyfield : (isBcc y || isContinuation y) = true := by
          by_contra hother
          rw [withoutBcc, if_neg hy, Bool.true_and, if_neg hother] at heq
          rw [Bool.not_eq_true, Bool.or_eq_false_iff] at hother
          exact cons_withoutBcc_ne hy hother.1 _ heq.symm
        rw [withoutBcc, if_neg hy, Bool.true_and, if_pos hyfield] at heq
        refine ⟨a, [bcc, y], z :: t, by rw [hsplit]; simp, .inr ⟨y, hy, hyfield, rfl⟩, hrest, ?_, ?_⟩
        · exact fun x hx => ⟨ha x hx, hno x hx⟩
        · exact withoutBcc_eq_iff.mp heq.symm
    · rw [if_neg hv] at hrest heq
      refine ⟨a, [bcc ++ v], b, by rw [hsplit]; simp, .inl ⟨v, hv, rfl⟩, hrest, ?_, ?_⟩
      · exact fun x hx => ⟨ha x hx, hno x hx⟩
      · exact withoutBcc_eq_iff.mp heq.symm

lemma removeBcc_eq_message (hl : splitLines l = none) (hls : ∀ x ∈ ls, splitLines x = none) {a b : List Bytes}
    {v : Bytes} (hsplit : ls = a ++ (bcc ++ v) :: b)
    (hfind : findBcc (joinLines l ls) = some (some (joinLines l a, joinLines v b))) :
    removeBcc (joinLines l ls) = some (message (withoutBcc false (l :: ls))) ↔
      l ≠ [] ∧ isBcc l = false ∧ behind v b ≠ [] ∧ a ++ behind v b = withoutBcc false ls := by
  have hx : splitLines (bcc ++ v) = none := hls _ (by rw [hsplit]; simp)
  have hb : ∀ y ∈ b, splitLines y = none := fun y hy => hls y (by rw [hsplit]; simp [hy])
  have hshort := behind_length v b
  have hkept : ∀ y ∈ a ++ behind v b, splitLines y = none := by
    intro y hy
    rcases List.mem_append.mp hy with hy | hy
    · exact hls y (by rw [hsplit]; simp [hy])
    · exact hb y (behind_subset v b hy)
  rw [removeBcc_found (splitLines_right hx) hb hfind]
  split_ifs with hnil
  · simp [hnil]
  · rw [Option.some.injEq, joinLines_eq_message hl hkept hls]
    split_ifs with hempty
    · simp only [hempty, ne_eq, not_true_eq_false, false_and, iff_false, not_and]
      intro _ heq
      have hlen := congrArg List.length (heq.trans hsplit)
      simp only [List.length_append, List.length_cons] at hlen
      omega
    · simp [hempty, hnil]

lemma removeBcc_underflow (hl : splitLines l = none) (hls : ∀ x ∈ ls, splitLines x = none)
    (hu : Underflows (joinLines l ls)) :
    removeBcc (joinLines l ls) ≠ some (message (withoutBcc false (l :: ls))) := by
  have hfind := findBcc_underflow hu
  rcases exists_first ls with habsent | ⟨a, v, b, hsplit, hfirst⟩
  · rw [findBccLine_none hl hls habsent, Option.map_none] at hfind
    simp [removeBcc, hfind]
  · have ha : ∀ y ∈ a, splitLines y = none := fun y hy => hls y (by rw [hsplit]; simp [hy])
    have hfound := findBccLine_some (v := v) (b := b) hl ha hfirst
    rw [← hsplit] at hfound
    rw [hfound, Option.map_some] at hfind
    rw [ne_eq, removeBcc_eq_message hl hls hsplit hfind]
    rintro ⟨hnil, -, -, heq⟩
    have hne : bcc ++ v ≠ [] := List.append_ne_nil_of_left_ne_nil (by decide) v
    have hblank := findBlank hl hls
    obtain ⟨-, header, hheader, -, hshort⟩ := hu
    rw [hblank] at hheader
    obtain ⟨k, hk, rfl⟩ := Option.map_eq_some_iff.mp hheader
    -- a header of at most seven bytes has no room for the field, so an empty line stands before it
    have hempty : [] ∈ a := by
      by_contra hno
      have hall : ∀ x ∈ a, x ≠ [] := by
        rintro x hx rfl
        exact hno hx
      rw [hsplit, block_append hall, block_cons hne, Option.map_map] at hk
      obtain ⟨k', -, rfl⟩ := Option.map_eq_some_iff.mp hk
      have hlong := length_le_joinLines (bcc ++ v) k'
      simp only [Function.comp_apply, joinLines_append, List.length_append, List.length_cons] at hshort hlong
      have hfirstLine := (List.length_pos_of_ne_nil hnil).trans_le (length_le_joinLines l a)
      have hfive : bcc.length = 5 := rfl
      omega
    obtain ⟨a₁, a₂, rfl, hfree⟩ := List.eq_append_cons_of_mem hempty
    have hall : ∀ x ∈ a₁, x ≠ [] := by
      rintro x hx rfl
      exact hfree hx
    rw [hsplit, List.append_assoc, List.append_assoc, List.cons_append, List.cons_append,
      withoutBcc_append_blank hall] at heq
    have hsame := first_unique heq hfree fun hmem => hfree (withoutBcc_subset false a₁ hmem)
    have hlen := congrArg List.length hsame.2.2
    have hless := behind_length v b
    simp only [List.length_append, List.length_cons] at hlen
    omega

/-- The data sent is the message without its `Bcc` fields exactly when the data is not empty, its first empty line
does not come after one to seven bytes, and its `Bcc` fields are none or one field that the removal takes out. -/
theorem hidesBcc_iff (data : Bytes) : HidesBcc data ↔ BccRemovable data := by
  obtain ⟨hl, hls⟩ := lines_free (stuffDots (replaceLFWithCRLF data))
  have hjoin := joinLines_lines (stuffDots (replaceLFWithCRLF data))
  simp only [HidesBcc, BccRemovable, dataToSend]
  by_cases hdata : data = []
  · simp [hdata]
  rw [if_neg hdata]
  generalize stuffDots (replaceLFWithCRLF data) = m at *
  generalize (lines m).1 = l at *
  generalize (lines m).2 = ls at *
  subst hjoin
  by_cases hu : Underflows (joinLines l ls)
  · simp only [hu, not_true_eq_false, false_and, and_false, iff_false]
    exact removeBcc_underflow hl hls hu
  simp only [hdata, hu, ne_eq, not_false_eq_true, true_and]
  rcases exists_first (searched l ls) with habsent | ⟨a, w, c, hs, hfirst⟩
  · have hfind := findBcc_none hl hls hu habsent
    simp only [removeBcc, hfind, Option.some.injEq]
    rw [joinLines_eq_message hl hls hls, removable_iff_of_absent habsent]
  · obtain ⟨v, b, hsplit, hbody⟩ := searched_split hs
    have hfind := findBcc_some hl hls hu hsplit hs hfirst
    rw [removeBcc_eq_message hl hls hsplit hfind]
    by_cases hnil : l = []
    · simp only [hnil, ne_eq, not_true_eq_false, false_and, false_iff, Removable, ↓reduceIte]
      intro habsent
      subst hnil
      refine habsent (bcc ++ w) (by rw [hs]; simp) ?_
      exact List.isPrefixOf_iff_prefix.mpr (List.prefix_append bcc w)
    · obtain ⟨ha, hb⟩ := hbody hnil
      rw [removable_iff_of_found hnil hsplit ha hb hfirst]
      simp only [hnil, ne_eq, not_false_eq_true, true_and]

/-- A folded field: its second line, with a recipient, is sent. -/
theorem folded_bcc_not_hidden : ¬HidesBcc (ascii "From: a@b\nBcc: c@d,\n e@f\nTo: g@h\n\nhello\n") := by
  intro h
  have hne : dataToSend (ascii "From: a@b\nBcc: c@d,\n e@f\nTo: g@h\n\nhello\n") ≠
      some (ascii "From: a@b\r\nTo: g@h\r\n\r\nhello\r\n") := by decide
  exact hne (h.trans (by decide))

end Removal

end Xperimentum.Pantomime.SMTPData
