import Xperimentum.Pantomime.BaseSubjectWords

/-! The deletions at the start of a subject as steps that each delete one piece. -/

namespace Xperimentum.Pantomime.BaseSubject

open Lib.Byte Lib.RegexSearch EncodedWords

section Unique

variable {x y a b : Str}

lemma append_cons_unique {c : UInt16} {m n : Str} (hm : c ∉ m) (hn : c ∉ n) (h : m ++ c :: a = n ++ c :: b) :
    m = n ∧ a = b := by
  induction m generalizing n with
  | nil =>
    cases n with
    | nil => exact ⟨rfl, (List.cons.inj h).2⟩
    | cons v n => exact absurd (List.cons.inj h).1 fun hv => hn (hv ▸ List.mem_cons_self)
  | cons u m ih =>
    cases n with
    | nil => exact absurd (List.cons.inj h).1 fun hu => hm (hu ▸ List.mem_cons_self)
    | cons v n =>
      obtain ⟨rfl, hrest⟩ := List.cons.inj h
      obtain ⟨rfl, hab⟩ := ih (fun hc => hm (List.mem_cons_of_mem _ hc)) (fun hc => hn (List.mem_cons_of_mem _ hc)) hrest
      exact ⟨rfl, hab⟩

lemma spaces_unique {k l : ℕ} {u v : UInt16} (hu : u ≠ 32) (hv : v ≠ 32)
    (h : List.replicate k 32 ++ u :: a = List.replicate l 32 ++ v :: b) : k = l ∧ u :: a = v :: b := by
  induction k generalizing l with
  | zero =>
    cases l with
    | zero => exact ⟨rfl, h⟩
    | succ l => exact absurd (List.cons.inj h).1 hu
  | succ k ih =>
    cases l with
    | zero => exact absurd (List.cons.inj h).1.symm hv
    | succ l =>
      obtain ⟨rfl, hab⟩ := ih (List.cons.inj h).2
      exact ⟨rfl, hab⟩

lemma core_unique (hx : Core x) (hy : Core y) (h : x ++ a = y ++ b) : x = y ∧ a = b := by
  obtain ⟨m, hm, rfl⟩ := hx
  obtain ⟨n, hn, rfl⟩ := hy
  rw [List.cons_append, List.cons_append, List.append_assoc, List.append_assoc] at h
  obtain ⟨rfl, hab⟩ := append_cons_unique hm.2 hn.2 (List.cons.inj h).2
  exact ⟨rfl, hab⟩

lemma core_head (h : Core x) : ∃ z, x = 91 :: z := by
  obtain ⟨m, -, rfl⟩ := h
  exact ⟨_, rfl⟩

lemma blob_head (h : Blob x) : ∃ z, x = 91 :: z := by
  obtain ⟨c, k, hc, rfl⟩ := h
  obtain ⟨z, rfl⟩ := core_head hc
  exact ⟨_, rfl⟩

/-- A keyword has two letters, or three that end in a d. -/
lemma keyword_cases {w : Str} (h : Keyword w) :
    (∃ u v, w = [u, v] ∧ u ∈ asciiUnits [114, 82, 102, 70]) ∨
      ∃ u v d, w = [u, v, d] ∧ u ∈ asciiUnits [114, 82, 102, 70] ∧ d ∈ asciiUnits [100, 68] := by
  have hr : ∀ u ∈ asciiUnits [114, 82], u ∈ asciiUnits [114, 82, 102, 70] := forall_mem_of_all (by decide)
  have hf : ∀ u ∈ asciiUnits [102, 70], u ∈ asciiUnits [114, 82, 102, 70] := forall_mem_of_all (by decide)
  rcases h with h | h | h
  · obtain ⟨u, y, hu, hy, rfl⟩ := List.forall₂_cons_left_iff.mp h
    obtain ⟨v, z, hv, hz, rfl⟩ := List.forall₂_cons_left_iff.mp hy
    rw [List.forall₂_nil_left_iff.mp hz]
    exact .inl ⟨u, v, rfl, hr u hu⟩
  · obtain ⟨u, y, hu, hy, rfl⟩ := List.forall₂_cons_left_iff.mp h
    obtain ⟨v, z, hv, hz, rfl⟩ := List.forall₂_cons_left_iff.mp hy
    rw [List.forall₂_nil_left_iff.mp hz]
    exact .inl ⟨u, v, rfl, hf u hu⟩
  · obtain ⟨u, y, hu, hy, rfl⟩ := List.forall₂_cons_left_iff.mp h
    obtain ⟨v, z, hv, hz, rfl⟩ := List.forall₂_cons_left_iff.mp hy
    obtain ⟨d, t, hd, ht, rfl⟩ := List.forall₂_cons_left_iff.mp hz
    rw [List.forall₂_nil_left_iff.mp ht]
    exact .inr ⟨u, v, d, rfl, hf u hu, hd⟩

lemma keyword_unique {w v : Str} {c d : UInt16} (hw : Keyword w) (hv : Keyword v) (hc : c ∉ asciiUnits [100, 68])
    (hd : d ∉ asciiUnits [100, 68]) (h : w ++ c :: a = v ++ d :: b) : w = v ∧ c :: a = d :: b := by
  rcases keyword_cases hw with ⟨u, u', rfl, -⟩ | ⟨u, u', u'', rfl, -, hu⟩
  · rcases keyword_cases hv with ⟨v, v', rfl, -⟩ | ⟨v, v', v'', rfl, -, hv⟩
    · exact List.append_inj h rfl
    · simp only [List.cons_append, List.nil_append, List.cons.injEq] at h
      exact absurd (h.2.2.1 ▸ hv) hc
  · rcases keyword_cases hv with ⟨v, v', rfl, -⟩ | ⟨v, v', v'', rfl, -, hv⟩
    · simp only [List.cons_append, List.nil_append, List.cons.injEq] at h
      exact absurd (h.2.2.1 ▸ hu) hd
    · exact List.append_inj h rfl

lemma reFwd_head (h : ReFwd x) : ∃ u z, x = u :: z ∧ u ∈ asciiUnits [114, 82, 102, 70] := by
  obtain ⟨w, k, o, hw, -, rfl⟩ := h
  rcases keyword_cases hw with ⟨u, v, rfl, hu⟩ | ⟨u, v, d, rfl, hu, -⟩
  · exact ⟨u, _, rfl, hu⟩
  · exact ⟨u, _, rfl, hu⟩

/-- What stands behind the spaces of a leader. -/
lemma blob_colon_head {o : Str} (ho : o = [] ∨ Blob o) (a : Str) :
    ∃ u z, o ++ 58 :: a = u :: z ∧ u ≠ 32 ∧ u ∉ asciiUnits [100, 68] := by
  rcases ho with rfl | ho
  · exact ⟨58, a, rfl, by decide, by decide⟩
  · obtain ⟨z, rfl⟩ := blob_head ho
    exact ⟨91, _, rfl, by decide, by decide⟩

lemma spaces_head {u : UInt16} (hu : u ∉ asciiUnits [100, 68]) (k : ℕ) (a : Str) :
    ∃ v z, List.replicate k 32 ++ u :: a = v :: z ∧ v ∉ asciiUnits [100, 68] := by
  cases k with
  | zero => exact ⟨u, a, rfl, hu⟩
  | succ k => exact ⟨32, _, rfl, by decide⟩

lemma blob_colon_unique {o q : Str} (ho : o = [] ∨ Blob o) (hq : q = [] ∨ Blob q) (h : o ++ 58 :: a = q ++ 58 :: b) :
    o = q ∧ a = b := by
  rcases ho with rfl | ⟨c, k, hc, rfl⟩
  · rcases hq with rfl | hq
    · exact ⟨rfl, (List.cons.inj h).2⟩
    · obtain ⟨z, rfl⟩ := blob_head hq
      exact absurd (List.cons.inj h).1 (by decide)
  · rcases hq with rfl | ⟨d, l, hd, rfl⟩
    · obtain ⟨z, rfl⟩ := core_head hc
      exact absurd (List.cons.inj h).1 (by decide)
    · rw [List.append_assoc, List.append_assoc] at h
      obtain ⟨rfl, hspaces⟩ := core_unique hc hd h
      obtain ⟨rfl, hab⟩ := spaces_unique (by decide) (by decide) hspaces
      exact ⟨rfl, (List.cons.inj hab).2⟩

lemma reFwd_unique (hx : ReFwd x) (hy : ReFwd y) (h : x ++ a = y ++ b) : x = y ∧ a = b := by
  obtain ⟨w, k, o, hw, ho, rfl⟩ := hx
  obtain ⟨v, l, q, hv, hq, rfl⟩ := hy
  simp only [List.append_assoc, List.cons_append, List.nil_append] at h
  obtain ⟨u, z, huz, hu, hud⟩ := blob_colon_head ho a
  obtain ⟨u', z', huz', hu', hud'⟩ := blob_colon_head hq b
  rw [huz, huz'] at h
  obtain ⟨c, t, hct, hc⟩ := spaces_head hud k z
  obtain ⟨c', t', hct', hc'⟩ := spaces_head hud' l z'
  rw [hct, hct'] at h
  obtain ⟨rfl, htail⟩ := keyword_unique hw hv hc hc' h
  rw [← hct, ← hct'] at htail
  obtain ⟨rfl, hrest⟩ := spaces_unique hu hu' htail
  rw [← huz, ← huz'] at hrest
  obtain ⟨rfl, hab⟩ := blob_colon_unique ho hq hrest
  exact ⟨rfl, hab⟩

/-- The first piece of a string is known from the string. -/
lemma token_unique (hx : Token x) (hy : Token y) (h : x ++ a = y ++ b) : x = y ∧ a = b := by
  cases hx with
  | space =>
    cases hy with
    | space => exact ⟨rfl, (List.cons.inj h).2⟩
    | core hy =>
      obtain ⟨z, rfl⟩ := core_head hy
      exact absurd (List.cons.inj h).1 (by decide)
    | reFwd hy =>
      obtain ⟨u, z, rfl, hu⟩ := reFwd_head hy
      rw [← (List.cons.inj h).1] at hu
      exact absurd hu (by decide)
  | core hx =>
    cases hy with
    | space =>
      obtain ⟨z, rfl⟩ := core_head hx
      exact absurd (List.cons.inj h).1 (by decide)
    | core hy => exact core_unique hx hy h
    | reFwd hy =>
      obtain ⟨z, rfl⟩ := core_head hx
      obtain ⟨u, t, rfl, hu⟩ := reFwd_head hy
      rw [← (List.cons.inj h).1] at hu
      exact absurd hu (by decide)
  | reFwd hx =>
    obtain ⟨u, t, hut, hu⟩ := reFwd_head hx
    cases hy with
    | space =>
      rw [hut] at h
      rw [(List.cons.inj h).1] at hu
      exact absurd hu (by decide)
    | core hy =>
      obtain ⟨z, rfl⟩ := core_head hy
      rw [hut] at h
      rw [(List.cons.inj h).1] at hu
      exact absurd hu (by decide)
    | reFwd hy => exact reFwd_unique hx hy h

lemma token_ne_nil (h : Token x) : x ≠ [] := by
  rintro rfl
  cases h with
  | core h =>
    obtain ⟨z, hz⟩ := core_head h
    cases hz
  | reFwd h =>
    obtain ⟨u, z, hz, -⟩ := reFwd_head h
    cases hz

/-- A piece is a space, or ends in a bracket or a colon. -/
lemma token_last (h : Token x) : x = [32] ∨ ∃ y c, x = y ++ [c] ∧ (c = 93 ∨ c = 58) := by
  cases h with
  | space => exact .inl rfl
  | core h =>
    obtain ⟨m, -, rfl⟩ := h
    exact .inr ⟨91 :: m, 93, rfl, .inl rfl⟩
  | reFwd h =>
    obtain ⟨w, k, o, -, -, rfl⟩ := h
    refine .inr ⟨w ++ (List.replicate k 32 ++ o), 58, ?_, .inr rfl⟩
    simp only [List.append_assoc]

end Unique

section Steps

variable {s x y z a b : Str}

/-- A piece is deleted in front of something; that is no core in front of spaces only. -/
def Step (b a : Str) : Prop := ∃ x, Token x ∧ b = x ++ a ∧ a ≠ [] ∧ ¬(Core x ∧ ∀ u ∈ a, u = 32)

def Steps : Str → Str → Prop := Relation.ReflTransGen Step

def Normal (z : Str) : Prop := ∀ a, ¬Step z a

lemma step_unique : Relator.RightUnique Step := by
  rintro s a b ⟨x, hx, rfl, -, -⟩ ⟨y, hy, h, -, -⟩
  exact (token_unique hx hy h).2

lemma eq_of_normal (hz : Normal z) (h : Steps z y) : y = z := by
  induction h using Relation.ReflTransGen.head_induction_on with
  | refl => rfl
  | head hstep _ _ => exact absurd hstep (hz _)

/-- Steps that end lead through every string that steps reach. -/
lemma steps_through (h : Steps s z) (hz : Normal z) (hy : Steps s y) : Steps y z := by
  rcases Relation.ReflTransGen.total_of_right_unique step_unique h hy with hzy | hyz
  · rw [eq_of_normal hz hzy]
    exact .refl
  · exact hyz

lemma normal_unique (h : Steps s z) (hz : Normal z) (h' : Steps s y) (hy : Normal y) : y = z :=
  (eq_of_normal hy (steps_through h hz h')).symm

lemma spaces_steps (ha : a ≠ []) (k : ℕ) : Steps (List.replicate k 32 ++ a) a := by
  induction k with
  | zero => exact .refl
  | succ k ih =>
    refine .head ⟨[32], .space, rfl, ?_, fun h => ?_⟩ ih
    · exact fun hnil => ha (List.append_eq_nil_iff.mp hnil).2
    · obtain ⟨z, hz⟩ := core_head h.1
      exact absurd (List.cons.inj hz).1 (by decide)

lemma blob_steps (h : Blob x) {u : UInt16} (hu : u ∈ a) (hne : u ≠ 32) : Steps (x ++ a) a := by
  obtain ⟨c, k, hc, rfl⟩ := h
  have ha : a ≠ [] := List.ne_nil_of_mem hu
  rw [List.append_assoc]
  refine .head ⟨c, .core hc, rfl, ?_, fun h => ?_⟩ (spaces_steps ha k)
  · exact fun hnil => ha (List.append_eq_nil_iff.mp hnil).2
  · exact hne (h.2 u (List.mem_append_right _ hu))

lemma reFwd_step (h : ReFwd x) (ha : a ≠ []) : Step (x ++ a) a := by
  refine ⟨x, .reFwd h, rfl, ha, fun hcore => ?_⟩
  obtain ⟨u, t, rfl, hu⟩ := reFwd_head h
  obtain ⟨z, hz⟩ := core_head hcore.1
  rw [(List.cons.inj hz).1] at hu
  exact absurd hu (by decide)

lemma leader_steps (h : Leader x) (ha : a ≠ []) : Steps (x ++ a) a := by
  rcases h with rfl | ⟨bs, r, hbs, hr, rfl⟩
  · exact spaces_steps ha 1
  · induction bs with
    | nil => exact .single (reFwd_step hr ha)
    | cons b bs ih =>
      obtain ⟨hb, hrest⟩ := List.forall_mem_cons.mp hbs
      obtain ⟨u, t, hut, hu⟩ := reFwd_head hr
      have hmem : u ∈ bs.flatten ++ r ++ a :=
        List.mem_append_left _ (List.mem_append_right _ (hut ▸ List.mem_cons_self))
      have hne : u ≠ 32 := by
        rintro rfl
        exact absurd hu (by decide)
      rw [List.flatten_cons, List.append_assoc, List.append_assoc, ← List.append_assoc bs.flatten]
      exact (blob_steps hb hmem hne).trans (ih hrest)

end Steps

section Deleting

variable {e : CStringEncoding} {s x z a : Str}

lemma Plain.single (h : Plain e s) : ∀ u ∈ s, e.single u := fun u hu => (h u hu).1

/-- A pattern with `^`: the longest string that matches in front of something is deleted, or all that matches there is
the whole string. -/
lemma deleteFirst_plain {p : Pattern UInt8} (hp : p.atStart = true) (hend : p.atEnd = false) (h : Plain e s) :
    (∃ x a, s = x ++ a ∧ a ≠ [] ∧ x.map e.encode ∈ p.body.matches' ∧ deleteFirst e p s = (a, true) ∧
      ∀ y b, s = y ++ b → y.map e.encode ∈ p.body.matches' → y.length ≤ x.length) ∨
    ((∀ y b, s = y ++ b → y.map e.encode ∈ p.body.matches' → s.map e.encode ∈ p.body.matches') ∧
      deleteFirst e p s = (s, false)) := by
  have hmatch : ∀ y b, s = y ++ b → y.map e.encode ∈ p.body.matches' → MatchAt p e.encode s y := fun y b hs hy =>
    ⟨b, hs, hy, fun htrue => absurd (hend.symm.trans htrue) Bool.false_ne_true⟩
  have hcases := deleteFirst_cases hp e s
  rw [lossyCString_plain h] at hcases
  rcases longest_cases p e.encode s with ⟨x, hx, ⟨a, rfl, hmem, -⟩, hmax⟩ | ⟨hnone, hall⟩
  · rw [hx] at hcases
    rcases hcases with ⟨n, hn, hlt, hdelete⟩ | ⟨hwhole, hdelete⟩
    · rw [← Option.some.inj hn] at hlt hdelete
      refine .inl ⟨x, a, rfl, fun hnil => ?_, hmem, ?_, fun y b hs hy => hmax y (hmatch y b hs hy)⟩
      · rw [hnil, List.append_nil] at hlt
        exact lt_irrefl _ hlt
      · rw [hdelete, List.drop_left]
    · have hlength := hwhole _ rfl
      rw [List.length_append] at hlength
      have hnil : a = [] := List.eq_nil_of_length_eq_zero (by omega)
      refine .inr ⟨fun _ _ _ _ => ?_, hdelete⟩
      rw [hnil, List.append_nil]
      exact hmem
  · rcases hcases with ⟨n, hn, -⟩ | ⟨-, hdelete⟩
    · rw [hnone] at hn
      cases hn
    · exact .inr ⟨fun y b hs hy => (hall y (hmatch y b hs hy)).elim, hdelete⟩

lemma deleteLeader_cases (h : Plain e s) :
    (∃ x a, s = x ++ a ∧ Steps s a ∧ deleteFirst e prefixSubjLeaderRegex s = (a, true)) ∨
      ((∀ y b, s = y ++ b → Leader y → Leader s) ∧ deleteFirst e prefixSubjLeaderRegex s = (s, false)) := by
  rcases deleteFirst_plain (p := prefixSubjLeaderRegex) rfl rfl h with ⟨x, a, rfl, ha, hx, hdelete, -⟩ | ⟨hall, hdelete⟩
  · refine .inl ⟨x, a, rfl, leader_steps ((leader_iff h.of_append.1.single).mp hx) ha, hdelete⟩
  · refine .inr ⟨fun y b hs hy => (leader_iff h.single).mp (hall y b hs ?_), hdelete⟩
    rw [hs] at h
    exact (leader_iff h.of_append.1.single).mpr hy

lemma deleteBlob_cases (h : Plain e s) :
    (∃ x a, s = x ++ a ∧ Steps s a ∧ deleteFirst e prefixSubjBlobRegex s = (a, true)) ∨
      ((∀ y b, s = y ++ b → Blob y → Blob s) ∧ deleteFirst e prefixSubjBlobRegex s = (s, false)) := by
  rcases deleteFirst_plain (p := prefixSubjBlobRegex) rfl rfl h with ⟨x, a, rfl, ha, hx, hdelete, hmax⟩ | ⟨hall, hdelete⟩
  · refine .inl ⟨x, a, rfl, ?_, hdelete⟩
    have hblob := (blob_iff h.of_append.1.single).mp hx
    cases a with
    | nil => exact absurd rfl ha
    | cons u a =>
      refine blob_steps hblob (List.mem_cons_self) ?_
      rintro rfl
      obtain ⟨c, k, hc, rfl⟩ := hblob
      have hlonger : c ++ List.replicate k 32 ++ 32 :: a = (c ++ List.replicate (k + 1) 32) ++ a := by
        rw [List.replicate_succ', List.append_assoc, List.append_assoc, List.append_assoc]
        rfl
      have hplain := h
      rw [hlonger] at hplain
      have hlength := hmax _ a hlonger ((blob_iff hplain.of_append.1.single).mpr ⟨c, k + 1, hc, rfl⟩)
      simp only [List.length_append, List.length_replicate] at hlength
      omega
  · refine .inr ⟨fun y b hs hy => (blob_iff h.single).mp (hall y b hs ?_), hdelete⟩
    rw [hs] at h
    exact (blob_iff h.of_append.1.single).mpr hy

/-- A string at whose start nothing is deleted has no step. -/
lemma normal_of_whole (hleader : ∀ y b, s = y ++ b → Leader y → Leader s) (hblob : ∀ y b, s = y ++ b → Blob y → Blob s) :
    Normal s := by
  rintro a ⟨x, hx, rfl, ha, hcore⟩
  cases hx with
  | space =>
    rcases hleader [32] a rfl (.inl rfl) with h | ⟨bs, r, hbs, hr, h⟩
    · exact ha (List.cons.inj h).2
    · cases bs with
      | nil =>
        obtain ⟨u, t, rfl, hu⟩ := reFwd_head hr
        rw [← (List.cons.inj h).1] at hu
        exact absurd hu (by decide)
      | cons b bs =>
        obtain ⟨z, rfl⟩ := blob_head (hbs b List.mem_cons_self)
        exact absurd (List.cons.inj h).1 (by decide)
  | core hx =>
    obtain ⟨c, k, hc, h⟩ := hblob x a rfl ⟨x, 0, hx, (List.append_nil x).symm⟩
    obtain ⟨-, rfl⟩ := core_unique hx hc h
    exact hcore ⟨hx, fun u hu => (List.mem_replicate.mp hu).2⟩
  | reFwd hx =>
    obtain ⟨u, t, hut, hu⟩ := reFwd_head hx
    rcases hleader x a rfl (.inr ⟨[], x, fun b hb => (List.not_mem_nil hb).elim, hx, rfl⟩) with h | ⟨bs, r, hbs, hr, h⟩
    · rw [hut] at h
      rw [(List.cons.inj h).1] at hu
      exact absurd hu (by decide)
    · cases bs with
      | nil =>
        have h' : x ++ a = r ++ [] := h.trans (List.append_nil r).symm
        exact ha (reFwd_unique hx hr h').2
      | cons b bs =>
        obtain ⟨z, rfl⟩ := blob_head (hbs b List.mem_cons_self)
        rw [hut] at h
        rw [(List.cons.inj h).1] at hu
        exact absurd hu (by decide)

lemma removeLeaders_steps (h : Plain e s) :
    Steps s (removeLeaders e s) ∧ Normal (removeLeaders e s) ∧ Plain e (removeLeaders e s) := by
  induction s using removeLeaders.induct e with
  | case1 s hdeleted ih =>
    rw [removeLeaders, if_pos hdeleted]
    rcases deleteLeader_cases h with ⟨x, a, rfl, hsteps, hleader⟩ | ⟨-, hleader⟩
    · rw [hleader] at ih ⊢
      have ha := h.of_append.2
      rcases deleteBlob_cases ha with ⟨y, b, rfl, hsteps', hblob⟩ | ⟨-, hblob⟩
      · rw [hblob] at ih ⊢
        obtain ⟨hrest, hnormal, hplain⟩ := ih ha.of_append.2
        exact ⟨(hsteps.trans hsteps').trans hrest, hnormal, hplain⟩
      · rw [hblob] at ih ⊢
        obtain ⟨hrest, hnormal, hplain⟩ := ih ha
        exact ⟨hsteps.trans hrest, hnormal, hplain⟩
    · rw [hleader] at ih hdeleted ⊢
      rcases deleteBlob_cases h with ⟨y, b, rfl, hsteps', hblob⟩ | ⟨-, hblob⟩
      · rw [hblob] at ih ⊢
        obtain ⟨hrest, hnormal, hplain⟩ := ih h.of_append.2
        exact ⟨hsteps'.trans hrest, hnormal, hplain⟩
      · rw [hblob] at hdeleted
        rcases hdeleted with hfalse | hfalse
        · cases hfalse
        · cases hfalse
  | case2 s hdeleted =>
    rw [removeLeaders, if_neg hdeleted]
    rcases deleteLeader_cases h with ⟨x, a, -, -, hleader⟩ | ⟨hwhole, hleader⟩
    · rw [hleader] at hdeleted
      exact absurd (.inl rfl) hdeleted
    · rw [hleader] at hdeleted ⊢
      rcases deleteBlob_cases h with ⟨y, b, -, -, hblob⟩ | ⟨hwhole', hblob⟩
      · rw [hblob] at hdeleted
        exact absurd (.inr rfl) hdeleted
      · rw [hblob]
        exact ⟨.refl, normal_of_whole hwhole hwhole', h⟩

end Deleting

section Computing

variable {e : CStringEncoding} {s x y z a p m : Str}

/-- `[fwd:` at the start and a bracket at the end. -/
def Forward (s : Str) : Prop := ∃ p m, Spelled fwdHdrChars p ∧ s = p ++ (m ++ [93])

lemma length_spelled {css : List Bytes} (h : Spelled css x) : x.length = css.length :=
  (List.Forall₂.length_eq h).symm

/-- A trailer reaches to the end, so that its range is not accepted. -/
lemma deleteFirst_trailer (h : Plain e s) : deleteFirst e suffixSubjTrailerRegex s = (s, false) := by
  rw [deleteFirst, head?_matchString, lossyCString_plain h]
  cases hsearch : search suffixSubjTrailerRegex false (s.map e.encode) with
  | none => rfl
  | some r =>
    have hend := leftmost_atEnd (p := suffixSubjTrailerRegex) rfl (show leftmost _ 0 _ = some (r.1, r.2) from hsearch)
    rw [Nat.zero_add, List.length_map] at hend
    have hrange : checkRange r s.length = false := by
      simp only [checkRange, Bool.and_eq_false_iff, decide_eq_false_iff_not]
      omega
    simp only [hrange, Bool.false_eq_true, if_false]

lemma matchString_forward (h : Plain e s) :
    matchString e prefixSubjFwdHdrAndSuffixSubjFwdTrlRegex s = [] ↔ ¬Forward s := by
  rw [← List.head?_eq_none_iff, head?_matchString, lossyCString_plain h, search_atStart rfl,
    Option.map_eq_none_iff]
  rcases longest_cases prefixSubjFwdHdrAndSuffixSubjFwdTrlRegex e.encode s with
    ⟨x, hx, ⟨a, rfl, hmem, hend⟩, -⟩ | ⟨hnone, hall⟩
  · have ha : a = [] := hend rfl
    rw [ha, List.append_nil] at h hx ⊢
    refine iff_of_false ?_ (not_not.mpr ?_)
    · rw [hx]
      exact Option.some_ne_none _
    · exact (forward_iff h.single).mp hmem
  · refine iff_of_true hnone fun hforward => hall s ⟨[], (List.append_nil s).symm, ?_, fun _ => rfl⟩
    exact (forward_iff h.single).mpr hforward

/-- What is computed of a string: deletions at its start, and again on what is between `[fwd:` and the last bracket. -/
inductive Base : Str → Str → Prop
  | done {s z : Str} (hsteps : Steps s z) (hnormal : Normal z) (hforward : ¬Forward z) : Base s z
  | again {s p m z : Str} (hsteps : Steps s (p ++ (m ++ [93]))) (hnormal : Normal (p ++ (m ++ [93])))
      (hspelled : Spelled fwdHdrChars p) (hrest : Base m z) : Base s z

lemma computeLoop_base (h : Plain e s) : ∃ z, computeLoop e s = some z ∧ Base s z := by
  induction hn : s.length using Nat.strong_induction_on generalizing s with
  | _ n ih =>
    obtain ⟨hsteps, hnormal, hplain⟩ := removeLeaders_steps h
    rw [computeLoop, deleteFirst_trailer h]
    by_cases hforward : Forward (removeLeaders e s)
    · have hle := length_removeLeaders_le e s
      rw [if_neg ((not_congr (matchString_forward hplain)).mpr (not_not.mpr hforward))]
      obtain ⟨p, m, hp, heq⟩ := hforward
      have hfive : p.length = 5 := length_spelled hp
      rw [heq] at hsteps hnormal hplain hle ⊢
      have hlength : ¬(p ++ (m ++ [93])).length < 6 := by
        rw [List.length_append, List.length_append, List.length_singleton, hfive]
        omega
      have hrest : ((p ++ (m ++ [93])).drop 5).dropLast = m := by
        rw [List.drop_left' hfive, List.dropLast_concat]
      rw [List.length_append, List.length_append, List.length_singleton] at hle
      rw [if_neg hlength, hrest]
      obtain ⟨z, hz, hbase⟩ := ih m.length (by omega) hplain.of_append.2.of_append.1 rfl
      exact ⟨z, hz, .again hsteps hnormal hp hbase⟩
    · rw [if_pos ((matchString_forward hplain).mpr hforward)]
      exact ⟨_, rfl, .done hsteps hnormal hforward⟩

lemma forward_unique {q n : Str} (hp : Spelled fwdHdrChars p) (hq : Spelled fwdHdrChars q)
    (h : p ++ (m ++ [93]) = q ++ (n ++ [93])) : m = n := by
  have hlength : p.length = q.length := (length_spelled hp).trans (length_spelled hq).symm
  exact List.append_cancel_right (List.append_inj h hlength).2

lemma base_unique (h : Base s z) (h' : Base s y) : y = z := by
  induction h generalizing y with
  | done hsteps hnormal hforward =>
    cases h' with
    | done hsteps' hnormal' _ => exact normal_unique hsteps hnormal hsteps' hnormal'
    | again hsteps' hnormal' hspelled' _ =>
      rw [← normal_unique hsteps hnormal hsteps' hnormal'] at hforward
      exact absurd ⟨_, _, hspelled', rfl⟩ hforward
  | again hsteps hnormal hspelled _ ih =>
    cases h' with
    | done hsteps' hnormal' hforward' =>
      rw [normal_unique hsteps hnormal hsteps' hnormal'] at hforward'
      exact absurd ⟨_, _, hspelled, rfl⟩ hforward'
    | again hsteps' hnormal' hspelled' hrest' =>
      have hsame := forward_unique hspelled' hspelled (normal_unique hsteps hnormal hsteps' hnormal')
      rw [hsame] at hrest'
      exact ih hrest'

lemma base_of_steps (hsteps : Steps s y) : Base s z ↔ Base y z := by
  constructor
  · intro h
    cases h with
    | done hsteps' hnormal hforward => exact .done (steps_through hsteps' hnormal hsteps) hnormal hforward
    | again hsteps' hnormal hspelled hrest =>
      exact .again (steps_through hsteps' hnormal hsteps) hnormal hspelled hrest
  · intro h
    cases h with
    | done hsteps' hnormal hforward => exact .done (hsteps.trans hsteps') hnormal hforward
    | again hsteps' hnormal hspelled hrest => exact .again (hsteps.trans hsteps') hnormal hspelled hrest

end Computing

end Xperimentum.Pantomime.BaseSubject
