import Xperimentum.Pantomime.BaseSubjectReduction
import Xperimentum.Pantomime.BaseSubjectSpaces

/-! The base subjects of a reply and of a forwarded message. -/

namespace Xperimentum.Pantomime.BaseSubject

open Lib.Byte Lib.RegexSearch EncodedWords

/-- `(fwd)`. -/
def fwdWord : Str := [40, 102, 119, 100, 41]

def fwd : Str := 32 :: fwdWord

def replySubject (s : Str) : Str := [82, 101, 58, 32] ++ s

def forwardSubject (s : Str) : Str := s ++ fwd

/-- A reply and a forwarded message have the base subject of the message. -/
structure Collapses (e : CStringEncoding) (s : Str) : Prop where
  reply : computeBaseSubject e (some (replySubject s)) = computeBaseSubject e (some s)
  forward : computeBaseSubject e (some (forwardSubject s)) = computeBaseSubject e (some s)

/-- Behind pieces that are deleted, the subject ends in `[fwd:`, leaders, `(fwd)` and a bracket. -/
structure Nested (e : CStringEncoding) (s : Str) : Prop where
  plain : Plain e s
  shape : ∃ (tokens leaders : List Str) (p : Str), (∀ x ∈ tokens, Token x) ∧ (∀ x ∈ leaders, Token x ∧ Free x) ∧
    Spelled fwdHdrChars p ∧ squeeze s = tokens.flatten ++ (p ++ ((leaders.flatten ++ fwdWord) ++ [93]))

section Pieces

variable {s x y z a p m : Str} {u v : UInt16} {tokens : List Str}

lemma token_head (h : Token x) : ∃ u y, x = u :: y ∧ u ∈ asciiUnits [32, 91, 114, 82, 102, 70] := by
  cases h with
  | space => exact ⟨32, [], rfl, by decide⟩
  | core h =>
    obtain ⟨z, rfl⟩ := core_head h
    exact ⟨91, z, rfl, by decide⟩
  | reFwd h =>
    obtain ⟨u, z, rfl, hu⟩ := reFwd_head h
    have hall : ∀ u ∈ asciiUnits [114, 82, 102, 70], u ∈ asciiUnits [32, 91, 114, 82, 102, 70] :=
      forall_mem_of_all (by decide)
    exact ⟨u, z, rfl, hall u hu⟩

lemma normal_of_head (hu : u ∉ asciiUnits [32, 91, 114, 82, 102, 70]) (a : Str) : Normal (u :: a) := by
  rintro b ⟨x, hx, h, -, -⟩
  obtain ⟨v, y, rfl, hv⟩ := token_head hx
  rw [(List.cons.inj h).1] at hu
  exact hu hv

lemma normal_core (h : Core z) : Normal z := by
  rintro a ⟨x, hx, heq, ha, -⟩
  have hwhole : z ++ [] = x ++ a := (List.append_nil z).trans heq
  exact ha (token_unique (.core h) hx hwhole).2.symm

lemma tokens_steps (htokens : ∀ x ∈ tokens, Token x) (hu : u ∈ a) (hne : u ≠ 32) : Steps (tokens.flatten ++ a) a := by
  induction tokens with
  | nil => exact .refl
  | cons x tokens ih =>
    obtain ⟨hx, hrest⟩ := List.forall_mem_cons.mp htokens
    have hmem : u ∈ tokens.flatten ++ a := List.mem_append_right _ hu
    rw [List.flatten_cons, List.append_assoc]
    exact .head ⟨x, hx, rfl, List.ne_nil_of_mem hmem, fun h => hne (h.2 u hmem)⟩ (ih hrest)

lemma steps_tokens (h : Steps s a) : ∃ tokens : List Str, (∀ x ∈ tokens, Token x) ∧ s = tokens.flatten ++ a := by
  induction h using Relation.ReflTransGen.head_induction_on with
  | refl => exact ⟨[], fun x hx => (List.not_mem_nil hx).elim, rfl⟩
  | head hstep _ ih =>
    obtain ⟨x, hx, rfl, -, -⟩ := hstep
    obtain ⟨tokens, htokens, rfl⟩ := ih
    refine ⟨x :: tokens, List.forall_mem_cons.mpr ⟨hx, htokens⟩, ?_⟩
    rw [List.flatten_cons, List.append_assoc]

lemma flatten_rest {xs ys : List Str} (hxs : ∀ x ∈ xs, Token x) (hys : ∀ y ∈ ys, Token y)
    (h : xs.flatten = ys.flatten ++ a) : ∃ zs : List Str, (∀ z ∈ zs, Token z) ∧ a = zs.flatten := by
  induction ys generalizing xs with
  | nil => exact ⟨xs, hxs, h.symm⟩
  | cons y ys ih =>
    obtain ⟨hy, hys⟩ := List.forall_mem_cons.mp hys
    rw [List.flatten_cons, List.append_assoc] at h
    cases xs with
    | nil => exact absurd (List.append_eq_nil_iff.mp h.symm).1 (token_ne_nil hy)
    | cons x xs =>
      obtain ⟨hx, hxs⟩ := List.forall_mem_cons.mp hxs
      exact ih hxs hys (token_unique hx hy h).2

lemma base_length (h : Base s z) : z.length ≤ s.length := by
  have hsteps : ∀ {b a}, Steps b a → a.length ≤ b.length := fun h => by
    obtain ⟨tokens, -, rfl⟩ := steps_tokens h
    rw [List.length_append]
    exact Nat.le_add_left _ _
  induction h with
  | done h _ _ => exact hsteps h
  | again h _ _ _ ih =>
    refine ih.trans (le_trans ?_ (hsteps h))
    simp only [List.length_append]
    omega

lemma last_unique {y z : Str} (h : y ++ [u] = z ++ [v]) : u = v :=
  (List.cons.inj (List.append_inj' h rfl).2).1

lemma not_forward_of_last (hu : u ≠ 93) (y : Str) : ¬Forward (y ++ [u]) := by
  rintro ⟨p, m, -, h⟩
  rw [← List.append_assoc] at h
  exact hu (last_unique h)

lemma header_cases (h : Spelled fwdHdrChars p) : ∃ q, p = 91 :: q ∧ Free q := by
  obtain ⟨a, t, ha, ht, rfl⟩ := List.forall₂_cons_left_iff.mp h
  have hfree : ∀ cs ∈ ([[102, 70], [119, 87], [100, 68], [58]] : List Bytes),
      (asciiUnits cs).all (fun u => decide (u ≠ 91 ∧ u ≠ 93)) = true := by
    decide
  have hall : ∀ u ∈ t, u ≠ 91 ∧ u ≠ 93 := fun u hu => by
    obtain ⟨i, hi, rfl⟩ := List.getElem_of_mem hu
    have hlength := List.Forall₂.length_eq ht
    exact forall_mem_of_all (hfree _ (List.getElem_mem (by omega))) _ (List.Forall₂.get ht (by omega) hi)
  refine ⟨t, ?_, fun h91 => (hall 91 h91).1 rfl, fun h93 => (hall 93 h93).2 rfl⟩
  rw [List.mem_singleton.mp ha]
  rfl

lemma header_core (hp : Spelled fwdHdrChars p) : Core (p ++ (m ++ [93])) ↔ Free m := by
  obtain ⟨q, rfl, hq⟩ := header_cases hp
  constructor
  · rintro ⟨n, hn, h⟩
    rw [List.cons_append, ← List.append_assoc] at h
    have hsame : q ++ m = n := (List.append_inj' (List.cons.inj h).2 rfl).1
    rw [← hsame] at hn
    exact ⟨fun h91 => hn.1 (List.mem_append_right q h91), fun h93 => hn.2 (List.mem_append_right q h93)⟩
  · intro hm
    refine ⟨q ++ m, ⟨fun h91 => ?_, fun h93 => ?_⟩, ?_⟩
    · exact (List.mem_append.mp h91).elim hq.1 hm.1
    · exact (List.mem_append.mp h93).elim hq.2 hm.2
    · rw [List.cons_append, List.append_assoc]

end Pieces

section Nesting

variable {e : CStringEncoding} {s t w y z m : Str} {u v : UInt16}

lemma base_fwdWord (h : Steps m fwdWord) : Base m fwdWord :=
  .done h (normal_of_head (by decide) _) (not_forward_of_last (show (41 : UInt16) ≠ 93 by decide) [40, 102, 119, 100])

/-- Two subjects have the same base subject if the same is left of both. -/
lemma computeBaseSubject_eq_iff (hs : Plain e s) (ht : Plain e t) :
    computeBaseSubject e (some s) = computeBaseSubject e (some t) ↔ ∃ z, Base (squeeze s) z ∧ Base (squeeze t) z := by
  obtain ⟨y, hy, hbase⟩ := computeLoop_base hs.squeeze
  obtain ⟨z, hz, hbase'⟩ := computeLoop_base ht.squeeze
  rw [computeBaseSubject, computeBaseSubject, replaceSpaces_eq hs, replaceSpaces_eq ht, hy, hz, Option.map_some,
    Option.map_some, Option.some_inj, Option.some_inj]
  constructor
  · rintro rfl
    exact ⟨y, hbase, hbase'⟩
  · rintro ⟨x, hx, hx'⟩
    rw [base_unique hx hbase, base_unique hx' hbase']

lemma plain_replySubject (h : Plain e s) : Plain e (replySubject s) := by
  refine List.forall_mem_append.mpr ⟨fun u hu => ?_, h⟩
  have hall : ∀ u ∈ ([82, 101, 58, 32] : Str), u < 128 ∧ u ≠ 0 := forall_mem_of_all (by decide)
  exact ⟨(e.ascii u (hall u hu).1).1, (hall u hu).2⟩

lemma plain_forwardSubject (h : Plain e s) : Plain e (forwardSubject s) := by
  refine List.forall_mem_append.mpr ⟨h, fun u hu => ?_⟩
  have hall : ∀ u ∈ fwd, u < 128 ∧ u ≠ 0 := forall_mem_of_all (by decide)
  exact ⟨(e.ascii u (hall u hu).1).1, (hall u hu).2⟩

lemma mem_ne_of_not_all (h : ¬s.all isSpace = true) : ∃ u ∈ s, isSpace u = false := by
  rw [List.all_eq_true, not_forall] at h
  obtain ⟨u, hu⟩ := h
  rw [Classical.not_imp, Bool.not_eq_true] at hu
  exact ⟨u, hu⟩

lemma mem_squeeze_of_not_space (hu : isSpace u = false) (h : u ∈ s) : u ∈ squeeze s := by
  induction s with
  | nil => exact h
  | cons v s ih =>
    rw [squeeze]
    rcases List.mem_cons.mp h with rfl | h
    · rw [hu, if_neg Bool.false_ne_true]
      exact List.mem_cons_self
    · split_ifs
      · exact List.mem_cons_of_mem v h
      · exact ih h
      · exact List.mem_cons_of_mem 32 (ih h)
      · exact List.mem_cons_of_mem v (ih h)

/-- What is put in front of the subject of a reply is deleted again, if the subject is not white space only. -/
lemma reply_steps (h : ¬s.all isSpace = true) : Steps (squeeze (replySubject s)) (squeeze s) := by
  obtain ⟨u, hu, hspace⟩ := mem_ne_of_not_all h
  have hmem := mem_squeeze_of_not_space hspace hu
  have hne : u ≠ 32 := by
    rintro rfl
    exact absurd hspace (by decide)
  have hword : ∀ u ∈ ([82, 101, 58] : Str), isSpace u = false := forall_mem_of_all (by decide)
  have hre : Token [82, 101, 58] := .reFwd ⟨[82, 101], 0, [], .inl (.cons (by decide) (.cons (by decide) .nil)), .inl rfl, rfl⟩
  have hsplit : replySubject s = [82, 101, 58] ++ 32 :: s := rfl
  rw [hsplit, squeeze_word hword, squeeze, if_pos (by decide), if_neg h]
  split_ifs
  · have hone : ∀ x ∈ ([[82, 101, 58]] : List Str), Token x := List.forall_mem_singleton.mpr hre
    exact tokens_steps hone hmem hne
  · have hboth : ∀ x ∈ ([[82, 101, 58], [32]] : List Str), Token x :=
      List.forall_mem_cons.mpr ⟨hre, List.forall_mem_singleton.mpr .space⟩
    exact tokens_steps hboth hmem hne

/-- The subject without the white space at its end, with and without `(fwd)`. -/
lemma squeeze_forwardSubject (s : Str) : ∃ t w, squeeze s = t ++ w ∧ squeeze (forwardSubject s) = t ++ fwd ∧
    w.all isSpace = true ∧ (t = [] ∨ ∃ y v, t = y ++ [v] ∧ isSpace v = false) := by
  obtain ⟨t, w, rfl, hw, ht⟩ := exists_trailing s
  have hrun : squeeze (w ++ fwd) = fwd := by
    have hspace : (w ++ [32]).all isSpace = true := by
      rw [List.all_append, hw]
      rfl
    have hone : w ++ fwd = (w ++ [32]) ++ fwdWord := by
      rw [List.append_assoc]
      rfl
    rw [hone, fwdWord, squeeze_run (List.append_ne_nil_of_right_ne_nil w (List.cons_ne_nil _ _)) hspace (by decide)]
    rfl
  rcases ht with rfl | ⟨y, v, rfl, hv⟩
  · exact ⟨[], w, squeeze_of_all hw, hrun, hw, .inl rfl⟩
  · obtain ⟨q, hq⟩ := squeeze_last hv y
    refine ⟨q ++ [v], w, ?_, ?_, hw, .inr ⟨q, v, rfl, hv⟩⟩
    · rw [squeeze_append hv, squeeze_of_all hw, hq]
    · rw [forwardSubject, List.append_assoc, squeeze_append hv, hrun, hq]

lemma all_last (h : w.all isSpace = true) (hu : isSpace u = false) {a : Str} (hlast : t ++ w = a ++ [u]) : w = [] := by
  cases w using List.reverseRecOn with
  | nil => rfl
  | append_singleton w v =>
    rw [← List.append_assoc] at hlast
    rw [last_unique hlast, all_append_cons hu] at h
    cases h

lemma collapses_of_nested (h : Nested e s) : Collapses e s := by
  obtain ⟨tokens, leaders, p, htokens, hleaders, hp, hsqueeze⟩ := h.shape
  have hlast : squeeze s = (tokens.flatten ++ (p ++ (leaders.flatten ++ fwdWord))) ++ [93] := by
    rw [hsqueeze]
    simp only [List.append_assoc]
  have hfree : Free (leaders.flatten ++ fwdWord) := by
    have hword : Free fwdWord := ⟨by decide, by decide⟩
    refine ⟨fun h91 => ?_, fun h93 => ?_⟩
    · rcases List.mem_append.mp h91 with h91 | h91
      · obtain ⟨x, hx, hmem⟩ := List.mem_flatten.mp h91
        exact (hleaders x hx).2.1 hmem
      · exact hword.1 h91
    · rcases List.mem_append.mp h93 with h93 | h93
      · obtain ⟨x, hx, hmem⟩ := List.mem_flatten.mp h93
        exact (hleaders x hx).2.2 hmem
      · exact hword.2 h93
  have hcore := (header_core hp).mpr hfree
  have hmem : (93 : UInt16) ∈ p ++ ((leaders.flatten ++ fwdWord) ++ [93]) :=
    List.mem_append_right _ (List.mem_append_right _ (List.mem_singleton.mpr rfl))
  have hbase : Base (squeeze s) fwdWord := by
    rw [hsqueeze]
    refine .again (tokens_steps htokens hmem (by decide)) (normal_core hcore) hp (base_fwdWord ?_)
    exact tokens_steps (fun x hx => (hleaders x hx).1) (show (40 : UInt16) ∈ fwdWord by decide) (by decide)
  have hnotAll : ¬s.all isSpace = true := fun hall => by
    have hs := squeeze_of_all hall
    rw [hlast] at hs
    rw [← hs, all_append_cons (by decide)] at hall
    cases hall
  obtain ⟨t, w, hst, hforward, hw, -⟩ := squeeze_forwardSubject s
  have hnil : w = [] := all_last hw (show isSpace 93 = false by decide) (hst.symm.trans hlast)
  rw [hnil, List.append_nil] at hst
  refine ⟨?_, ?_⟩
  · rw [computeBaseSubject_eq_iff (plain_replySubject h.plain) h.plain]
    exact ⟨fwdWord, (base_of_steps (reply_steps hnotAll)).mpr hbase, hbase⟩
  · rw [computeBaseSubject_eq_iff (plain_forwardSubject h.plain) h.plain]
    refine ⟨fwdWord, base_fwdWord ?_, hbase⟩
    have hsplit : squeeze (forwardSubject s) =
        (tokens ++ [p ++ ((leaders.flatten ++ fwdWord) ++ [93]), [32]]).flatten ++ fwdWord := by
      rw [hforward, ← hst, hsqueeze, List.flatten_append, List.flatten_cons, List.flatten_cons, List.flatten_nil,
        List.append_nil]
      simp only [List.append_assoc]
      rfl
    rw [hsplit]
    refine tokens_steps (fun x hx => ?_) (show (40 : UInt16) ∈ fwdWord by decide) (by decide)
    rcases List.mem_append.mp hx with hx | hx
    · exact htokens x hx
    · rcases List.mem_cons.mp hx with rfl | hx
      · exact .core hcore
      · exact List.mem_singleton.mp hx ▸ Token.space

/-- What steps make of a subject with `(fwd)`: it still has it, or all of the subject has been deleted. -/
lemma forward_rest {tokens : List Str} (htokens : ∀ x ∈ tokens, Token x) (h : t ++ fwd = tokens.flatten ++ y) :
    (∃ z, t = tokens.flatten ++ z ∧ y = z ++ fwd) ∨
      ∃ ts : List Str, (∀ x ∈ ts, Token x) ∧ t = ts.flatten ∧ (y = fwdWord) := by
  induction tokens generalizing t with
  | nil => exact .inl ⟨t, rfl, h.symm⟩
  | cons x tokens ih =>
    obtain ⟨hx, htail⟩ := List.forall_mem_cons.mp htokens
    rw [List.flatten_cons, List.append_assoc] at h
    rcases List.append_eq_append_iff.mp h with ⟨c, rfl, hc⟩ | ⟨c, rfl, hc⟩
    · cases c using List.reverseRecOn with
      | nil =>
        rw [List.append_nil] at hx ⊢
        rcases ih htail (t := []) hc with ⟨z, hz, rfl⟩ | ⟨ts, hts, hnil, hy⟩
        · exact .inl ⟨z, by rw [List.flatten_cons, List.append_assoc, ← hz, List.append_nil], rfl⟩
        · exact .inr ⟨[t], List.forall_mem_singleton.mpr hx, (List.append_nil t).symm, hy⟩
      | append_singleton c v =>
        have hv : v ∈ fwd := by
          rw [hc]
          exact List.mem_append_left _ (List.mem_append_right _ (List.mem_singleton.mpr rfl))
        rcases token_last hx with hspace | ⟨q, u, hq, hu⟩
        · rw [← List.append_assoc] at hspace
          obtain ⟨hempty, hv32⟩ := List.append_inj' (hspace.trans (List.nil_append [32]).symm) rfl
          obtain ⟨rfl, rfl⟩ := List.append_eq_nil_iff.mp hempty
          rw [hv32] at hc
          have hrest : fwdWord = tokens.flatten ++ y := (List.cons.inj hc).2
          cases tokens with
          | nil => exact .inr ⟨[], fun x hx => (List.not_mem_nil hx).elim, rfl, hrest.symm⟩
          | cons x tokens =>
            obtain ⟨u, r, rfl, hu⟩ := token_head (htail x List.mem_cons_self)
            rw [← (List.cons.inj hrest).1] at hu
            exact absurd hu (by decide)
        · rw [← List.append_assoc] at hq
          rw [last_unique hq] at hv
          rcases hu with rfl | rfl
          · exact absurd hv (by decide)
          · exact absurd hv (by decide)
    · rcases ih htail hc.symm with ⟨z, rfl, rfl⟩ | ⟨ts, hts, rfl, hy⟩
      · exact .inl ⟨z, by rw [List.flatten_cons, List.append_assoc], rfl⟩
      · exact .inr ⟨x :: ts, List.forall_mem_cons.mpr ⟨hx, hts⟩, rfl, hy⟩

/-- A string that keeps `(fwd)` is normal with white space behind it as well. -/
lemma normal_spaces (hne : y ≠ []) (hnormal : Normal (y ++ fwd)) (hw : w.all isSpace = true) : Normal (y ++ w) := by
  rintro a ⟨x, hx, h, ha, -⟩
  rcases List.append_eq_append_iff.mp h with ⟨c, rfl, hc⟩ | ⟨c, rfl, -⟩
  · cases c using List.reverseRecOn with
    | nil =>
      rw [List.append_nil] at hx
      exact hnormal fwd ⟨y, hx, rfl, List.cons_ne_nil _ _, fun hall => absurd (hall.2 40 (by decide)) (by decide)⟩
    | append_singleton c v =>
      rcases token_last hx with hspace | ⟨q, u, hq, hu⟩
      · rw [← List.append_assoc] at hspace
        have hempty := (List.append_inj' (hspace.trans (List.nil_append [32]).symm) rfl).1
        exact hne (List.append_eq_nil_iff.mp hempty).1
      · rw [← List.append_assoc] at hq
        have hspace : isSpace v = false := by
          rw [last_unique hq]
          rcases hu with rfl | rfl
          · decide
          · decide
        rw [hc, List.append_assoc, List.singleton_append, all_append_cons hspace] at hw
        cases hw
  · refine hnormal (c ++ fwd) ⟨x, hx, List.append_assoc _ _ _, ?_, fun hall => ?_⟩
    · exact List.append_ne_nil_of_right_ne_nil c (List.cons_ne_nil _ _)
    · exact absurd (hall.2 40 (List.mem_append_right c (by decide))) (by decide)

/-- A subject of which something is left does not have the base subject that it has with `(fwd)`. -/
lemma not_base_kept (ht : t = [] ∨ ∃ q v, t = q ++ [v] ∧ isSpace v = false) {tokens : List Str}
    (htokens : ∀ x ∈ tokens, Token x) (hsplit : t = tokens.flatten ++ y) (hnormal : Normal (y ++ fwd))
    (hw : w.all isSpace = true) : ¬Base (t ++ w) (y ++ fwd) := by
  intro h
  have hne : y ≠ [] := by
    rintro rfl
    exact hnormal fwdWord ⟨[32], .space, rfl, List.cons_ne_nil _ _, fun hall =>
      absurd (hall.2 40 (by decide)) (by decide)⟩
  have hmem : ∃ u ∈ y, u ≠ 32 := by
    rcases ht with rfl | ⟨q, v, rfl, hv⟩
    · exact absurd (List.append_eq_nil_iff.mp hsplit.symm).2 hne
    · cases y using List.reverseRecOn with
      | nil => exact absurd rfl hne
      | append_singleton y u =>
        rw [← List.append_assoc] at hsplit
        refine ⟨u, List.mem_append_right y (List.mem_singleton.mpr rfl), ?_⟩
        rw [← last_unique hsplit]
        rintro rfl
        exact absurd hv (by decide)
  obtain ⟨u, hu, hu32⟩ := hmem
  have hsteps : Steps (t ++ w) (y ++ w) := by
    rw [hsplit, List.append_assoc]
    exact tokens_steps htokens (List.mem_append_left w hu) hu32
  have hnormal' := normal_spaces hne hnormal hw
  cases (base_of_steps hsteps).mp h with
  | done hsteps' _ _ =>
    have heq := eq_of_normal hnormal' hsteps'
    rw [← List.append_cancel_left heq] at hw
    exact absurd hw (by decide)
  | again hsteps' _ _ hrest =>
    have heq := eq_of_normal hnormal' hsteps'
    have hlast := heq
    rw [← List.append_assoc] at hlast
    have hnil := all_last hw (show isSpace 93 = false by decide) hlast.symm
    have hlength := base_length hrest
    have hwhole := congrArg List.length heq
    rw [hnil] at hwhole
    simp only [List.length_append, List.length_nil, fwd, fwdWord, List.length_cons] at hlength hwhole
    omega

/-- All of a subject is deleted in front of `(fwd)`, and `(fwd)` is left of it: it is nested. -/
lemma shape_of_base {ts : List Str} (hts : ∀ x ∈ ts, Token x) (hw : w.all isSpace = true)
    (h : Base (ts.flatten ++ w) fwdWord) :
    ∃ (tokens leaders : List Str) (p : Str), (∀ x ∈ tokens, Token x) ∧ (∀ x ∈ leaders, Token x ∧ Free x) ∧
      Spelled fwdHdrChars p ∧ ts.flatten ++ w = tokens.flatten ++ (p ++ ((leaders.flatten ++ fwdWord) ++ [93])) := by
  cases h with
  | done hsteps _ _ =>
    obtain ⟨tokens, htokens, hsplit⟩ := steps_tokens hsteps
    have hlast : ts.flatten ++ w = (tokens.flatten ++ [40, 102, 119, 100]) ++ [41] := by
      rw [hsplit, List.append_assoc]
      rfl
    rw [all_last hw (by decide) hlast, List.append_nil] at hsplit
    obtain ⟨zs, hzs, hflatten⟩ := flatten_rest hts htokens hsplit
    cases zs with
    | nil => cases hflatten
    | cons z zs =>
      obtain ⟨u, r, rfl, hu⟩ := token_head (hzs z List.mem_cons_self)
      rw [← (List.cons.inj hflatten).1] at hu
      exact absurd hu (by decide)
  | again hsteps hnormal hp hrest =>
    rename_i p m
    obtain ⟨tokens, htokens, hsplit⟩ := steps_tokens hsteps
    have hlast : ts.flatten ++ w = (tokens.flatten ++ (p ++ m)) ++ [93] := by
      rw [hsplit]
      simp only [List.append_assoc]
    have hnil := all_last hw (by decide) hlast
    have hflat := hsplit
    rw [hnil, List.append_nil] at hflat
    obtain ⟨zs, hzs, hflatten⟩ := flatten_rest hts htokens hflat
    have hcore : Core (p ++ (m ++ [93])) := by
      obtain ⟨q, hq, -⟩ := header_cases hp
      cases zs with
      | nil =>
        rw [hq] at hflatten
        cases hflatten
      | cons z zs =>
        have hz : Core z := by
          rw [hq] at hflatten
          cases hzs z List.mem_cons_self with
          | space => exact absurd (List.cons.inj hflatten).1 (by decide)
          | core hz => exact hz
          | reFwd hz =>
            obtain ⟨u, r, rfl, hu⟩ := reFwd_head hz
            rw [← (List.cons.inj hflatten).1] at hu
            exact absurd hu (by decide)
        by_cases hempty : zs.flatten = []
        · rw [hflatten, List.flatten_cons, hempty, List.append_nil]
          exact hz
        · refine absurd ⟨z, .core hz, hflatten, hempty, fun hall => ?_⟩ (hnormal zs.flatten)
          have hmem : (93 : UInt16) ∈ zs.flatten := by
            have hend : z ++ zs.flatten = (p ++ m) ++ [93] := by
              rw [← List.flatten_cons, ← hflatten, List.append_assoc]
            cases hr : zs.flatten using List.reverseRecOn with
            | nil => exact absurd hr hempty
            | append_singleton r u =>
              rw [hr, ← List.append_assoc] at hend
              rw [last_unique hend]
              exact List.mem_append_right r (List.mem_singleton.mpr rfl)
          exact absurd (hall.2 93 hmem) (by decide)
    have hfree := (header_core hp).mp hcore
    cases hrest with
    | done hsteps' _ _ =>
      obtain ⟨leaders, hleaders, rfl⟩ := steps_tokens hsteps'
      refine ⟨tokens, leaders, p, htokens, fun x hx => ⟨hleaders x hx, fun h91 => ?_, fun h93 => ?_⟩, hp, hsplit⟩
      · exact hfree.1 (List.mem_append_left _ (List.mem_flatten.mpr ⟨x, hx, h91⟩))
      · exact hfree.2 (List.mem_append_left _ (List.mem_flatten.mpr ⟨x, hx, h93⟩))
    | again hsteps' _ _ _ =>
      obtain ⟨leaders, -, rfl⟩ := steps_tokens hsteps'
      refine absurd ?_ hfree.2
      exact List.mem_append_right _ (List.mem_append_right _ (List.mem_append_right _ (List.mem_singleton.mpr rfl)))

lemma nested_of_collapses (hs : Plain e s) (h : Collapses e s) : Nested e s := by
  obtain ⟨z, hforward, hbase⟩ := (computeBaseSubject_eq_iff (plain_forwardSubject hs) hs).mp h.forward
  obtain ⟨t, w, hst, hsf, hw, ht⟩ := squeeze_forwardSubject s
  rw [hst] at hbase
  rw [hsf] at hforward
  refine ⟨hs, ?_⟩
  rw [hst]
  have hlast : ∀ q : Str, q ++ fwd = (q ++ [32, 40, 102, 119, 100]) ++ [41] := fun q => by
    rw [List.append_assoc]
    rfl
  cases hforward with
  | done hsteps hnormal _ =>
    obtain ⟨tokens, htokens, hsplit⟩ := steps_tokens hsteps
    rcases forward_rest htokens hsplit with ⟨y, hy, rfl⟩ | ⟨ts, hts, rfl, rfl⟩
    · exact absurd hbase (not_base_kept ht htokens hy hnormal hw)
    · exact shape_of_base hts hw hbase
  | again hsteps hnormal hp hrest =>
    rename_i p m
    obtain ⟨tokens, -, hsplit⟩ := steps_tokens hsteps
    have hbracket : t ++ fwd = (tokens.flatten ++ (p ++ m)) ++ [93] := by
      rw [hsplit]
      simp only [List.append_assoc]
    exact absurd (last_unique ((hlast t).symm.trans hbracket)) (by decide)

end Nesting

/-- A subject without characters of more than one byte collapses exactly if it is nested. -/
theorem collapses_iff (e : CStringEncoding) (s : Str) : Plain e s ∧ Collapses e s ↔ Nested e s :=
  ⟨fun h => nested_of_collapses h.1 h.2, fun h => ⟨h.plain, collapses_of_nested h⟩⟩

section Latin

/-- ISO 8859-1 as the default C string encoding. -/
def isoLatin1 : CStringEncoding where
  single u := u < 256
  encode u := u.toUInt8
  lossyCString s := (s.map UInt16.toUInt8).takeWhile (· ≠ 0)
  ascii u hu := ⟨UInt16.lt_trans hu (show (128 : UInt16) < 256 by decide), rfl⟩
  other u hu hsingle := by
    rw [UInt8.le_iff_toNat_le, UInt16.toNat_toUInt8, Nat.mod_eq_of_lt (show u.toNat < 2 ^ 8 from UInt16.lt_iff_toNat_lt.mp hsingle)]
    exact UInt16.le_iff_toNat_le.mp hu
  lossyCString_eq _ _ := rfl

/-- `hello`. -/
def hello : Str := [104, 101, 108, 108, 111]

lemma plain_hello : Plain isoLatin1 hello := by
  have hall : ∀ u ∈ hello, u < 256 ∧ u ≠ 0 := forall_mem_of_all (by decide)
  exact hall

/-- The forwarded message keeps `(fwd)` in its base subject. -/
theorem not_collapses : ¬∀ (e : CStringEncoding) (s : Str), Collapses e s := by
  intro h
  obtain ⟨tokens, leaders, p, -, -, -, hsqueeze⟩ := (nested_of_collapses plain_hello (h isoLatin1 hello)).shape
  have hlast : [104, 101, 108, 108] ++ [111] = (tokens.flatten ++ (p ++ (leaders.flatten ++ fwdWord))) ++ [93] := by
    rw [← show squeeze hello = [104, 101, 108, 108] ++ [111] by decide, hsqueeze]
    simp only [List.append_assoc]
  exact absurd (last_unique hlast) (by decide)

/-- `[fwd:(fwd)]` collapses. -/
example : Nested isoLatin1 [91, 102, 119, 100, 58, 40, 102, 119, 100, 41, 93] where
  plain := by
    have hall : ∀ u ∈ ([91, 102, 119, 100, 58, 40, 102, 119, 100, 41, 93] : Str), u < 256 ∧ u ≠ 0 :=
      forall_mem_of_all (by decide)
    exact hall
  shape := ⟨[], [], [91, 102, 119, 100, 58], by simp, by simp,
    .cons (by decide) (.cons (by decide) (.cons (by decide) (.cons (by decide) (.cons (by decide) .nil)))), by decide⟩

end Latin

end Xperimentum.Pantomime.BaseSubject
