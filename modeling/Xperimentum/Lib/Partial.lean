import Mathlib.Tactic

/-! Partial computations: `none` is a run that leaves its domain, and `Ensures` the total-correctness
judgement for one. -/

namespace Xperimentum.Lib.Partial

variable {S T E : Type} {P Q : S → Prop} {R : T → Prop}

def Ensures (o : Option S) (P : S → Prop) : Prop := ∃ s, o = some s ∧ P s

lemma ensures_some {s : S} (h : P s) : Ensures (some s) P := ⟨s, rfl, h⟩

lemma ensures_pure {s : S} (h : P s) : Ensures (pure s) P := ⟨s, rfl, h⟩

lemma Ensures.imp {o : Option S} (h : Ensures o P) (hPQ : ∀ s, P s → Q s) : Ensures o Q := by
  obtain ⟨s, hs, hp⟩ := h
  exact ⟨s, hs, hPQ s hp⟩

lemma Ensures.bind {o : Option S} {f : S → Option T} (h : Ensures o P) (hf : ∀ s, P s → Ensures (f s) R) :
    Ensures (o >>= f) R := by
  obtain ⟨s, rfl, hp⟩ := h
  exact hf s hp

lemma Ensures.map {o : Option S} {f : S → T} (h : Ensures o fun s => R (f s)) : Ensures (o.map f) R := by
  obtain ⟨s, rfl, hs⟩ := h
  exact ⟨f s, rfl, hs⟩

lemma ensures_foldlM {step : S → E → Option S} (es : List E) {s : S}
    (h : ∀ s, P s → ∀ e ∈ es, Ensures (step s e) P) (hs : P s) : Ensures (es.foldlM step s) P := by
  induction es generalizing s with
  | nil => exact ensures_pure hs
  | cons e es ih =>
    rw [List.foldlM_cons]
    refine Ensures.bind (h s hs e List.mem_cons_self) fun t ht => ih ?_ ht
    exact fun u hu f hf => h u hu f (List.mem_cons_of_mem e hf)

lemma ensures_foldlM_each {step : S → E → Option S} {Q : E → S → Prop} (es : List E) {s : S}
    (h : ∀ s, P s → ∀ e ∈ es, Ensures (step s e) fun t => P t ∧ Q e t ∧ ∀ f, Q f s → Q f t) (hs : P s) :
    Ensures (es.foldlM step s) fun t => P t ∧ (∀ e ∈ es, Q e t) ∧ ∀ f, Q f s → Q f t := by
  induction es generalizing s with
  | nil => exact ensures_pure ⟨hs, fun e he => (List.not_mem_nil he).elim, fun _ hf => hf⟩
  | cons e es ih =>
    rw [List.foldlM_cons]
    refine Ensures.bind (h s hs e List.mem_cons_self) fun t ⟨hP, hQ, hkeep⟩ => ?_
    refine (ih (fun u hu f hf => h u hu f (List.mem_cons_of_mem e hf)) hP).imp fun u ⟨hu, hall, hkept⟩ => ?_
    refine ⟨hu, fun f hf => ?_, fun f hf => hkept f (hkeep f hf)⟩
    rcases List.mem_cons.mp hf with rfl | hf
    · exact hkept f hQ
    · exact hall f hf

lemma ensures_mapM {f : E → Option T} (es : List E) (h : ∀ e ∈ es, Ensures (f e) fun _ => True) :
    Ensures (es.mapM f) fun _ => True := by
  induction es with
  | nil => exact ensures_pure trivial
  | cons e es ih =>
    rw [List.mapM_cons]
    refine Ensures.bind (h e List.mem_cons_self) fun _ _ => ?_
    refine Ensures.bind (ih fun f hf => h f (List.mem_cons_of_mem e hf)) fun _ _ => ?_
    exact ensures_pure trivial

section Allows

/-- Partial correctness: every result there is meets the condition. -/
def Allows (o : Option S) (P : S → Prop) : Prop := ∀ s ∈ o, P s

lemma allows_pure {s : S} (h : P s) : Allows (pure s) P := fun _ hs => Option.some.inj hs ▸ h

lemma Allows.imp {o : Option S} (h : Allows o P) (hPQ : ∀ s, P s → Q s) : Allows o Q :=
  fun s hs => hPQ s (h s hs)

lemma Allows.bind {o : Option S} {f : S → Option T} (h : Allows o P) (hf : ∀ s, P s → Allows (f s) R) :
    Allows (o >>= f) R := by
  intro t ht
  obtain ⟨s, hs, hfs⟩ := Option.bind_eq_some_iff.mp ht
  exact hf s (h s hs) t hfs

lemma Ensures.and_allows {o : Option S} (h : Ensures o P) (h' : Allows o Q) : Ensures o fun s => P s ∧ Q s := by
  obtain ⟨s, hs, hp⟩ := h
  exact ⟨s, hs, hp, h' s hs⟩

lemma allows_foldlM {step : S → E → Option S} (es : List E) {s : S}
    (h : ∀ s, P s → ∀ e ∈ es, Allows (step s e) P) (hs : P s) : Allows (es.foldlM step s) P := by
  induction es generalizing s with
  | nil => exact allows_pure hs
  | cons e es ih =>
    rw [List.foldlM_cons]
    refine Allows.bind (h s hs e List.mem_cons_self) fun t ht => ih ?_ ht
    exact fun u hu f hf => h u hu f (List.mem_cons_of_mem e hf)

lemma map_foldlM {f : S → T} {step : S → E → Option S} {seen : T → E → Option T}
    (h : ∀ s e, (step s e).map f = seen (f s) e) (es : List E) (s : S) :
    (es.foldlM step s).map f = es.foldlM seen (f s) := by
  induction es generalizing s with
  | nil => rfl
  | cons e es ih =>
    rw [List.foldlM_cons, List.foldlM_cons, ← h]
    cases hs : step s e with
    | none => rfl
    | some t => exact ih t

lemma ensures_of_map {f : S → T} {o : Option S} (h : Ensures (o.map f) R) : Ensures o fun s => R (f s) := by
  obtain ⟨t, ht, hr⟩ := h
  obtain ⟨s, hs, rfl⟩ := Option.map_eq_some_iff.mp ht
  exact ⟨s, hs, hr⟩

end Allows

section Runs

variable {step : S → E → Option S} {C : S → E → Prop}

def tryRun (step : S → E → Option S) (s : S) (es : List E) : Option S := es.foldlM step s

def Admits (step : S → E → Option S) (C : S → E → Prop) : S → List E → Prop
  | _, [] => True
  | s, e :: es => C s e ∧ ∀ t ∈ step s e, Admits step C t es

instance decidableAdmits [∀ s e, Decidable (C s e)] (s : S) (es : List E) : Decidable (Admits step C s es) :=
  match es with
  | [] => inferInstanceAs (Decidable True)
  | e :: es =>
    have : Decidable (∀ t ∈ step s e, Admits step C t es) :=
      match h : step s e with
      | none => isTrue fun t ht => by cases ht
      | some t =>
        have : Decidable (Admits step C t es) := decidableAdmits t es
        decidable_of_iff (Admits step C t es) (by simp)
    inferInstanceAs (Decidable (_ ∧ _))

lemma Admits.imp {D : S → E → Prop} (h : ∀ s e, C s e → D s e) {s : S} {es : List E} (hs : Admits step C s es) :
    Admits step D s es := by
  induction es generalizing s with
  | nil => trivial
  | cons e es ih => exact ⟨h s e hs.1, fun t ht => ih (hs.2 t ht)⟩

lemma tryRun_ensures (hstep : ∀ s e, P s → C s e → Ensures (step s e) P) {s : S} (hs : P s) {es : List E}
    (h : Admits step C s es) : Ensures (tryRun step s es) P := by
  induction es generalizing s with
  | nil => exact ensures_pure hs
  | cons e es ih =>
    obtain ⟨t, ht, hp⟩ := hstep s e hs h.1
    have hrest := ih hp (h.2 t ht)
    rw [tryRun, List.foldlM_cons, ht]
    exact hrest

lemma tryRun_last (hstep : ∀ s e, P s → C s e → Ensures (step s e) P) {s : S} (hs : P s) {es : List E} {e : E}
    (h : Admits step C s (es ++ [e])) : Ensures (tryRun step s es) fun t => P t ∧ C t e := by
  induction es generalizing s with
  | nil => exact ensures_pure ⟨hs, h.1⟩
  | cons d es ih =>
    obtain ⟨t, ht, hp⟩ := hstep s d hs h.1
    have hrest := ih hp (h.2 t ht)
    rw [tryRun, List.foldlM_cons, ht]
    exact hrest

lemma tryRun_invariant (hstep : ∀ s e, P s → C s e → ∀ t ∈ step s e, P t) {s : S} (hs : P s) {es : List E}
    (h : Admits step C s es) : ∀ t ∈ tryRun step s es, P t := by
  induction es generalizing s with
  | nil =>
    intro t ht
    obtain rfl := Option.some.inj ht
    exact hs
  | cons e es ih =>
    intro t ht
    rw [tryRun, List.foldlM_cons] at ht
    obtain ⟨u, hu, hrun⟩ := Option.bind_eq_some_iff.mp ht
    exact ih (hstep s e hs h.1 u hu) (h.2 u hu) t hrun

lemma admits_of_invariant {D : S → E → Prop} (hstep : ∀ s e, P s → C s e → ∀ t ∈ step s e, P t)
    (h : ∀ s e, P s → C s e → D s e) {s : S} (hs : P s) {es : List E} (hes : Admits step C s es) :
    Admits step D s es := by
  induction es generalizing s with
  | nil => trivial
  | cons e es ih => exact ⟨h s e hs hes.1, fun t ht => ih (hstep s e hs hes.1 t ht) (hes.2 t ht)⟩

lemma tryRun_iff {Inv Post : List E → S → Prop} (hpost : ∀ past s, Inv past s → Post past s)
    (hstep : ∀ past s e, Inv past s → C s e → Ensures (step s e) (Inv (past ++ [e])))
    (hback : ∀ past s e, Inv past s → Ensures (step s e) (Post (past ++ [e])) → C s e) {past : List E} {s : S}
    (hs : Inv past s) (es : List E) :
    (∀ n, Ensures (tryRun step s (es.take n)) (Post (past ++ es.take n))) ↔ Admits step C s es := by
  induction es generalizing past s with
  | nil =>
    refine iff_of_true (fun n => ?_) trivial
    rw [List.take_nil, List.append_nil]
    exact ensures_pure (hpost past s hs)
  | cons e es ih =>
    have hrun {t : S} (ht : step s e = some t) (n : ℕ) :
        tryRun step s ((e :: es).take (n + 1)) = tryRun step t (es.take n) := by
      rw [tryRun, List.take_succ_cons, List.foldlM_cons, ht]
      rfl
    have hpast (n : ℕ) : past ++ (e :: es).take (n + 1) = past ++ [e] ++ es.take n := by
      rw [List.take_succ_cons, List.append_assoc]
      rfl
    constructor
    · intro h
      have hfirst := h 1
      obtain ⟨t, ht, hp⟩ : Ensures (step s e) (Post (past ++ [e])) := by
        obtain ⟨t, ht, hp⟩ := hfirst
        rw [List.take_succ_cons, List.take_zero] at ht hp
        rw [tryRun, List.foldlM_cons] at ht
        obtain ⟨u, hu, hrest⟩ := Option.bind_eq_some_iff.mp ht
        obtain rfl := Option.some.inj hrest
        exact ⟨u, hu, hp⟩
      have hc := hback past s e hs ⟨t, ht, hp⟩
      refine ⟨hc, fun u hu => ?_⟩
      obtain ⟨v, hv, hinv⟩ := hstep past s e hs hc
      obtain rfl : v = u := Option.some.inj (hv.symm.trans hu)
      refine (ih hinv).mp fun n => ?_
      rw [← hrun hv, ← hpast]
      exact h (n + 1)
    · rintro ⟨hc, hrest⟩ n
      cases n with
      | zero =>
        rw [List.take_zero, List.append_nil]
        exact ensures_pure (hpost past s hs)
      | succ n =>
        obtain ⟨t, ht, hinv⟩ := hstep past s e hs hc
        rw [hrun ht, hpast]
        exact (ih hinv).mpr (hrest t ht) n

/-- The run goes through, and each of its steps meets the condition. -/
def Completes (step : S → E → Option S) (G : S → E → S → Prop) : S → List E → Prop
  | _, [] => True
  | s, e :: es => ∃ t, step s e = some t ∧ G s e t ∧ Completes step G t es

lemma completes {G : S → E → S → Prop} (hstep : ∀ s e, P s → C s e → Ensures (step s e) fun t => P t ∧ G s e t) {s : S}
    (hs : P s) {es : List E} (h : Admits step C s es) : Completes step G s es := by
  induction es generalizing s with
  | nil => trivial
  | cons e es ih =>
    obtain ⟨t, ht, hp, hg⟩ := hstep s e hs h.1
    exact ⟨t, ht, hg, ih hp (h.2 t ht)⟩

lemma completes_iff {G : S → E → S → Prop} {D : S → E → Prop}
    (hstep : ∀ s e, P s → C s e → Ensures (step s e) fun t => P t ∧ (G s e t ↔ D s e)) {s : S} (hs : P s) {es : List E}
    (h : Admits step C s es) : Completes step G s es ↔ Admits step D s es := by
  induction es generalizing s with
  | nil => exact Iff.rfl
  | cons e es ih =>
    obtain ⟨t, ht, hp, hiff⟩ := hstep s e hs h.1
    have hrest := ih hp (h.2 t ht)
    constructor
    · rintro ⟨u, hu, hg, hcompletes⟩
      obtain rfl : t = u := Option.some.inj (ht.symm.trans hu)
      refine ⟨hiff.mp hg, fun v hv => ?_⟩
      obtain rfl : t = v := Option.some.inj (ht.symm.trans hv)
      exact hrest.mp hcompletes
    · exact fun hadmits => ⟨t, ht, hiff.mpr hadmits.1, hrest.mpr (hadmits.2 t ht)⟩

end Runs

end Xperimentum.Lib.Partial
