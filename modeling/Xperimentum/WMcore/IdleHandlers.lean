import Xperimentum.Lib.Runs

/-! The idle handlers: a check calls those that are there when it begins, each of which may add and delete handlers and
have a check begun again. -/

namespace Xperimentum.WMcore.IdleHandlers

open Lib.Runs

/-- The serial number is its history: how many have been added before. -/
structure IdleHandler where
  address : ℕ
  serial : ℕ
  deriving DecidableEq

/-- What is left of the copy, the handler being called, and how many had been added when the check began. -/
structure Check where
  rest : List ℕ
  calling : Option ℕ
  start : ℕ
  deriving DecidableEq

/-- The array, where none that has not been created is an empty one, and the history: how many handlers have been
added, which have been called and which have been deleted before. -/
structure State where
  idleHandler : List IdleHandler
  checks : List Check
  added : ℕ
  called : List ℕ
  deleted : List ℕ
  deriving DecidableEq

/-- An addition has the address that is allocated, if any. -/
inductive Event
  | add (address : Option ℕ)
  | delete (handlerID : Option ℕ)
  | check
  | resume
  deriving DecidableEq

def addIdleHandler (address : ℕ) (s : State) : State :=
  { s with idleHandler := s.idleHandler ++ [⟨address, s.added⟩], added := s.added + 1 }

def removeFromArray (a : ℕ) (hs : List IdleHandler) : List IdleHandler := hs.eraseP fun h => h.address = a

def getFirst (a : ℕ) (hs : List IdleHandler) : Option IdleHandler := hs.find? fun h => h.address = a

/-- A handler that has been called is not deleted once more. -/
def deleteIdleHandler (a : ℕ) (s : State) : State :=
  { s with
    idleHandler := removeFromArray a s.idleHandler
    deleted := s.deleted ++ (((getFirst a s.idleHandler).map fun h => h.serial).filter (· ∉ s.called)).toList }

def checkIdleHandlers (s : State) : State :=
  if s.idleHandler = [] then s
  else { s with checks := ⟨s.idleHandler.map fun h => h.address, none, s.added⟩ :: s.checks }

/-- The next turn of the innermost check's loop, behind the call or in front of the next handler. -/
def resume (s : State) : State :=
  match s.checks with
  | [] => s
  | ⟨rest, some a, start⟩ :: checks =>
    { s with idleHandler := removeFromArray a s.idleHandler, checks := ⟨rest, none, start⟩ :: checks }
  | ⟨[], none, _⟩ :: checks => { s with checks := checks }
  | ⟨a :: rest, none, start⟩ :: checks =>
    match getFirst a s.idleHandler with
    | none => { s with checks := ⟨rest, none, start⟩ :: checks }
    | some h => { s with checks := ⟨rest, some a, start⟩ :: checks, called := s.called ++ [h.serial] }

def step (s : State) : Event → State
  | .add none => s
  | .add (some a) => addIdleHandler a s
  | .delete none => s
  | .delete (some a) => deleteIdleHandler a s
  | .check => checkIdleHandlers s
  | .resume => resume s

def initial : State := ⟨[], [], 0, [], []⟩

variable {s : State} {hs : List IdleHandler} {h : IdleHandler} {a : ℕ}

section Once

def pending (s : State) : List ℕ := (s.idleHandler.map fun h => h.serial).filter (· ∉ s.called)

/-- Each handler that has been added waits, or has been called or deleted, one of them and once. -/
def Accounted (s : State) : Prop := (pending s ++ s.called ++ s.deleted).Perm (List.range s.added)

instance (s : State) : Decidable (Accounted s) := inferInstanceAs (Decidable (List.Perm _ _))

/-- The handler that a loop turns to is not being called already, and the one that it takes out after a call has been
called. -/
def Undisturbed (s : State) : Event → Prop
  | .resume =>
    match s.checks with
    | ⟨_, some a, _⟩ :: _ => ∀ h ∈ getFirst a s.idleHandler, h.serial ∈ s.called
    | ⟨a :: _, none, _⟩ :: _ => ∀ h ∈ getFirst a s.idleHandler, h.serial ∉ s.called
    | _ => True
  | _ => True

lemma removed_perm (hs : List IdleHandler) (a : ℕ) :
    hs.Perm ((getFirst a hs).toList ++ removeFromArray a hs) := by
  induction hs with
  | nil => exact .refl _
  | cons h hs ih =>
    rw [getFirst, removeFromArray, List.find?_cons, List.eraseP_cons]
    by_cases ha : h.address = a
    · simp only [ha, decide_true, cond_true]
      exact .refl _
    · simp only [ha, decide_false, cond_false]
      exact (List.Perm.cons h ih).trans List.perm_middle.symm

lemma getFirst_mem (hh : h ∈ getFirst a hs) : h ∈ hs ∧ h.address = a := by
  have haddress := List.find?_some hh
  exact ⟨List.mem_of_find?_eq_some hh, by simpa using haddress⟩

/-- What the removal of a handler takes from those that wait. -/
def taken (a : ℕ) (s : State) : List ℕ := (((getFirst a s.idleHandler).map fun h => h.serial).filter (· ∉ s.called)).toList

lemma pending_perm (s : State) (a : ℕ) :
    (pending s).Perm (taken a s ++ pending { s with idleHandler := removeFromArray a s.idleHandler }) := by
  have hperm := ((removed_perm s.idleHandler a).map fun h => h.serial).filter (· ∉ s.called)
  rw [List.map_append, List.filter_append] at hperm
  have htaken : taken a s = ((getFirst a s.idleHandler).toList.map fun h => h.serial).filter (· ∉ s.called) := by
    rw [taken]
    cases getFirst a s.idleHandler with
    | none => rfl
    | some h =>
      simp only [Option.map_some, Option.filter_some, Option.toList_some, List.map_cons, List.map_nil, List.filter_cons,
        List.filter_nil]
      split_ifs <;> rfl
  rw [htaken]
  exact hperm

lemma Accounted.lt (h : Accounted s) {n : ℕ} (hn : n ∈ pending s ++ s.called ++ s.deleted) : n < s.added :=
  List.mem_range.mp (h.mem_iff.mp hn)

lemma Accounted.nodup (h : Accounted s) : (pending s ++ s.called ++ s.deleted).Nodup :=
  h.nodup_iff.mpr List.nodup_range

lemma add_accounted (h : Accounted s) (a : ℕ) : Accounted (addIdleHandler a s) := by
  have hnew : s.added ∉ s.called := fun hmem =>
    absurd (h.lt (List.mem_append_left _ (List.mem_append_right _ hmem))) (lt_irrefl _)
  have hpending : pending (addIdleHandler a s) = pending s ++ [s.added] := by
    rw [pending, addIdleHandler, List.map_append, List.filter_append, List.map_singleton, List.filter_singleton,
      decide_eq_true hnew]
    rfl
  rw [Accounted, hpending]
  change (pending s ++ [s.added] ++ s.called ++ s.deleted).Perm (List.range (s.added + 1))
  rw [List.range_succ]
  refine List.Perm.trans ?_ (h.append_right [s.added])
  simp only [List.append_assoc]
  refine List.Perm.append_left _ ?_
  rw [← List.append_assoc s.called]
  exact List.perm_append_comm

lemma delete_accounted (h : Accounted s) (a : ℕ) : Accounted (deleteIdleHandler a s) := by
  refine List.Perm.trans ?_ h
  change (pending { s with idleHandler := removeFromArray a s.idleHandler } ++ s.called ++ (s.deleted ++ taken a s)).Perm _
  refine List.Perm.trans ?_ (((pending_perm s a).append_right s.called).append_right s.deleted).symm
  simp only [List.append_assoc]
  rw [← List.append_assoc s.called, ← List.append_assoc]
  exact List.perm_append_comm

lemma return_accounted_iff (h : Accounted s) (a : ℕ) :
    Accounted { s with idleHandler := removeFromArray a s.idleHandler } ↔
      ∀ h ∈ getFirst a s.idleHandler, h.serial ∈ s.called := by
  have hperm := pending_perm s a
  have hnil : (∀ h ∈ getFirst a s.idleHandler, h.serial ∈ s.called) ↔ taken a s = [] := by
    rw [taken]
    cases getFirst a s.idleHandler with
    | none => exact iff_of_true (fun h hh => by cases hh) rfl
    | some h =>
      rw [Option.map_some, Option.filter_some]
      by_cases hcalled : h.serial ∈ s.called
      · rw [if_neg fun hnot => (of_decide_eq_true hnot : h.serial ∉ s.called) hcalled]
        exact iff_of_true (fun x hx => Option.some.inj hx ▸ hcalled) rfl
      · rw [if_pos (decide_eq_true hcalled)]
        exact iff_of_false (fun hall => hcalled (hall h rfl)) (List.cons_ne_nil _ _)
  rw [hnil]
  constructor
  · intro h'
    have hlength := h.length_eq
    have hlength' := h'.length_eq
    have hlengths := hperm.length_eq
    rw [List.length_append, List.length_range] at hlength hlength'
    rw [List.length_append] at hlength hlength' hlengths
    refine List.length_eq_zero_iff.mp ?_
    dsimp only at hlength'
    omega
  · intro htaken
    rw [htaken, List.nil_append] at hperm
    exact (((hperm.append_right s.called).append_right s.deleted).symm).trans h

lemma call_accounted_iff (h : Accounted s) {x : IdleHandler} (hx : x ∈ s.idleHandler) :
    Accounted { s with called := s.called ++ [x.serial] } ↔ x.serial ∉ s.called := by
  constructor
  · intro h' hmem
    have hnodup := (List.nodup_append.mp (List.nodup_append.mp h'.nodup).1).2.1
    exact (List.nodup_append.mp hnodup).2.2 _ hmem _ (List.mem_singleton_self _) rfl
  · intro hnot
    have hmem : x.serial ∈ pending s := List.mem_filter.mpr ⟨List.mem_map_of_mem hx, decide_eq_true hnot⟩
    have hnodup := (List.nodup_append.mp (List.nodup_append.mp h.nodup).1).1
    have hpending : pending { s with called := s.called ++ [x.serial] } = (pending s).erase x.serial := by
      rw [hnodup.erase_eq_filter, pending, pending, List.filter_filter]
      refine List.filter_congr fun n _ => ?_
      rw [Bool.eq_iff_iff, Bool.and_eq_true, bne_iff_ne, decide_eq_true_eq, decide_eq_true_eq, List.mem_append,
        List.mem_singleton, not_or]
      exact and_comm
    refine List.Perm.trans ?_ h
    rw [hpending]
    refine List.Perm.append_right _ ?_
    refine List.Perm.trans ?_ ((List.perm_cons_erase hmem).append_right s.called).symm
    change ((pending s).erase x.serial ++ (s.called ++ [x.serial])).Perm _
    rw [← List.append_assoc]
    exact List.perm_append_comm

lemma Accounted.congr {t : State} (harray : t.idleHandler = s.idleHandler) (hcalled : t.called = s.called)
    (hdeleted : t.deleted = s.deleted) (hadded : t.added = s.added) : Accounted t ↔ Accounted s := by
  rw [Accounted, Accounted, pending, pending, harray, hcalled, hdeleted, hadded]

lemma step_accounted (h : Accounted s) (e : Event) : Accounted (step s e) ↔ Undisturbed s e := by
  cases e with
  | add address =>
    cases address with
    | none => exact iff_of_true h trivial
    | some a => exact iff_of_true (add_accounted h a) trivial
  | delete handlerID =>
    cases handlerID with
    | none => exact iff_of_true h trivial
    | some a => exact iff_of_true (delete_accounted h a) trivial
  | check =>
    refine iff_of_true ?_ trivial
    rw [step, checkIdleHandlers]
    split_ifs
    · exact h
    · exact (Accounted.congr rfl rfl rfl rfl).mpr h
  | resume =>
    rw [step, resume, Undisturbed]
    rcases hchecks : s.checks with _ | ⟨⟨rest, calling, start⟩, checks⟩
    · exact iff_of_true h trivial
    rcases calling with _ | a
    · rcases rest with _ | ⟨a, rest⟩
      · exact iff_of_true ((Accounted.congr rfl rfl rfl rfl).mpr h) trivial
      · dsimp only
        rcases hfirst : getFirst a s.idleHandler with _ | x
        · exact iff_of_true ((Accounted.congr rfl rfl rfl rfl).mpr h) fun x hx => by cases hx
        · refine Iff.trans (Iff.trans ?_ (call_accounted_iff h (getFirst_mem hfirst).1)) ?_
          · exact Accounted.congr rfl rfl rfl rfl
          · exact ⟨fun hnot y hy => Option.some.inj hy ▸ hnot, fun hall => hall x rfl⟩
    · refine Iff.trans ?_ (return_accounted_iff h a)
      exact Accounted.congr rfl rfl rfl rfl

lemma along_always (s : State) (es : List Event) : Along step (fun _ _ => True) s es := by
  induction es generalizing s with
  | nil => trivial
  | cons e es ih => exact ⟨trivial, ih _⟩

theorem run_accounted_iff (es : List Event) :
    (∀ n, Accounted (run step initial (es.take n))) ↔ Along step Undisturbed initial es := by
  have hstep (s : State) (e : Event) (hs : Accounted s) (_ : True) : Accounted (step s e) ↔ Undisturbed s e :=
    step_accounted hs e
  have hinitial : Accounted initial := List.Perm.refl _
  exact run_iff hstep hinitial (along_always initial es)

/-- A handler that has a check begun is called by this one too. -/
example : ¬Accounted (run step initial [.add (some 8), .check, .resume, .check, .resume]) := by decide

end Once

section Ends

variable {e : Event}

/-- A handler that was there when the check began and still is has its turn ahead, or is being called. -/
def Ahead (hs : List IdleHandler) (f : Check) : Prop :=
  ∀ h ∈ hs, h.serial < f.start → h.address ∈ f.rest ∨ f.calling = some h.address

structure Inv (s : State) : Prop where
  ahead : ∀ f ∈ s.checks, Ahead s.idleHandler f
  start : ∀ f ∈ s.checks, f.start ≤ s.added
  unique : (s.idleHandler.map fun h => h.address).Nodup

/-- A handler is allocated where no other one is. -/
def Fresh (s : State) : Event → Prop
  | .add (some a) => ∀ h ∈ s.idleHandler, h.address ≠ a
  | _ => True

instance (s : State) : ∀ e, Decidable (Fresh s e)
  | .add (some a) => inferInstanceAs (Decidable (∀ h ∈ s.idleHandler, h.address ≠ a))
  | .add none | .delete _ | .check | .resume => inferInstanceAs (Decidable True)

/-- What a check leaves behind at its end has been added since it began. -/
def LeavesLater (s : State) : Event → Prop
  | .resume =>
    match s.checks with
    | ⟨[], none, start⟩ :: _ => ∀ h ∈ s.idleHandler, start ≤ h.serial
    | _ => True
  | _ => True

lemma mem_remove (hmem : h ∈ removeFromArray a hs) : h ∈ hs := List.mem_of_mem_eraseP hmem

lemma ne_of_mem_remove (hunique : (hs.map fun h => h.address).Nodup) (hmem : h ∈ removeFromArray a hs) :
    h.address ≠ a := by
  intro ha
  have hnodup := (((removed_perm hs a).map fun h => h.address).nodup_iff).mp hunique
  rw [List.map_append] at hnodup
  obtain ⟨x, hx⟩ : ∃ x, getFirst a hs = some x :=
    Option.isSome_iff_exists.mp (List.find?_isSome.mpr ⟨h, mem_remove hmem, decide_eq_true ha⟩)
  rw [hx] at hnodup
  refine (List.nodup_append.mp hnodup).2.2 x.address (List.mem_singleton_self _) h.address (List.mem_map_of_mem hmem) ?_
  exact (getFirst_mem hx).2.trans ha.symm

lemma unique_remove (hunique : (hs.map fun h => h.address).Nodup) (a : ℕ) :
    ((removeFromArray a hs).map fun h => h.address).Nodup :=
  hunique.sublist (List.eraseP_sublist.map _)

lemma Ahead.remove {f : Check} (h : Ahead hs f) (a : ℕ) : Ahead (removeFromArray a hs) f :=
  fun x hx => h x (mem_remove hx)

lemma Inv.removed (h : Inv s) (a : ℕ) {t : State} (harray : t.idleHandler = removeFromArray a s.idleHandler)
    (hchecks : t.checks = s.checks) (hadded : t.added = s.added) : Inv t := by
  refine ⟨fun f hf => ?_, fun f hf => ?_, ?_⟩
  · rw [harray]
    exact (h.ahead f (hchecks ▸ hf)).remove a
  · rw [hadded]
    exact h.start f (hchecks ▸ hf)
  · rw [harray]
    exact unique_remove h.unique a

/-- Only the innermost check goes on. -/
lemma Inv.advanced {f f' : Check} {checks : List Check} (h : Inv s) (hchecks : s.checks = f :: checks) {t : State}
    (hsub : t.idleHandler.Sublist s.idleHandler) (hchecks' : t.checks = f' :: checks) (hadded : t.added = s.added)
    (hahead : Ahead t.idleHandler f') (hstart : f'.start = f.start) : Inv t := by
  refine ⟨fun g hg => ?_, fun g hg => ?_, h.unique.sublist (hsub.map _)⟩
  · rw [hchecks'] at hg
    rcases List.mem_cons.mp hg with rfl | hg
    · exact hahead
    · exact fun x hx => h.ahead g (hchecks ▸ List.mem_cons_of_mem f hg) x (hsub.subset hx)
  · rw [hchecks'] at hg
    rw [hadded]
    rcases List.mem_cons.mp hg with rfl | hg
    · rw [hstart]
      exact h.start f (hchecks ▸ List.mem_cons_self)
    · exact h.start g (hchecks ▸ List.mem_cons_of_mem f hg)

lemma add_inv (h : Inv s) (hfresh : ∀ x ∈ s.idleHandler, x.address ≠ a) : Inv (addIdleHandler a s) := by
  refine ⟨fun f hf x hx hlt => ?_, fun f hf => (h.start f hf).trans (Nat.le_succ _), ?_⟩
  · rcases List.mem_append.mp hx with hx | hx
    · exact h.ahead f hf x hx hlt
    · obtain rfl := List.mem_singleton.mp hx
      exact absurd (h.start f hf) (not_le.mpr hlt)
  · rw [addIdleHandler, List.map_append]
    refine List.nodup_append.mpr ⟨h.unique, List.nodup_singleton _, fun b hb c hc => ?_⟩
    obtain ⟨x, hx, rfl⟩ := List.mem_map.mp hb
    obtain rfl := List.mem_singleton.mp hc
    exact hfresh x hx

lemma check_inv (h : Inv s) : Inv (checkIdleHandlers s) := by
  rw [checkIdleHandlers]
  split_ifs
  · exact h
  · refine ⟨fun f hf => ?_, fun f hf => ?_, h.unique⟩
    · rcases List.mem_cons.mp hf with rfl | hf
      · exact fun x hx _ => .inl (List.mem_map_of_mem hx)
      · exact h.ahead f hf
    · rcases List.mem_cons.mp hf with rfl | hf
      · exact le_rfl
      · exact h.start f hf

lemma resume_inv (h : Inv s) : Inv (resume s) := by
  rw [resume]
  rcases hchecks : s.checks with _ | ⟨⟨rest, calling, start⟩, checks⟩
  · exact h
  have hahead : Ahead s.idleHandler ⟨rest, calling, start⟩ := h.ahead _ (hchecks ▸ List.mem_cons_self)
  rcases calling with _ | a
  · rcases rest with _ | ⟨a, rest⟩
    · exact ⟨fun f hf => h.ahead f (hchecks ▸ List.mem_cons_of_mem _ hf),
        fun f hf => h.start f (hchecks ▸ List.mem_cons_of_mem _ hf), h.unique⟩
    · have hrest (x : IdleHandler) (hx : x ∈ s.idleHandler) (hlt : x.serial < start) : x.address = a ∨ x.address ∈ rest :=
        List.mem_cons.mp ((hahead x hx hlt).resolve_right fun hnone => by cases hnone)
      dsimp only
      rcases hfirst : getFirst a s.idleHandler with _ | y
      · refine h.advanced hchecks (List.Sublist.refl _) rfl rfl (fun x hx hlt => ?_) rfl
        refine .inl ((hrest x hx hlt).resolve_left fun hxa => ?_)
        exact absurd (decide_eq_true hxa) (List.find?_eq_none.mp hfirst x hx)
      · refine h.advanced hchecks (List.Sublist.refl _) rfl rfl (fun x hx hlt => ?_) rfl
        exact (hrest x hx hlt).symm.imp_right fun hxa => congrArg some hxa.symm
  · refine h.advanced hchecks List.eraseP_sublist rfl rfl (fun x hx hlt => ?_) rfl
    refine .inl ((hahead x (mem_remove hx) hlt).resolve_right fun hxa => ?_)
    exact ne_of_mem_remove h.unique hx (Option.some.inj hxa).symm

lemma step_inv (h : Inv s) (hfresh : Fresh s e) : Inv (step s e) := by
  cases e with
  | add address =>
    cases address with
    | none => exact h
    | some a => exact add_inv h hfresh
  | delete handlerID =>
    cases handlerID with
    | none => exact h
    | some a => exact h.removed a rfl rfl rfl
  | check => exact check_inv h
  | resume => exact resume_inv h

lemma Inv.leavesLater (h : Inv s) (e : Event) : LeavesLater s e := by
  cases e with
  | resume =>
    rw [LeavesLater]
    rcases hchecks : s.checks with _ | ⟨⟨rest, calling, start⟩, checks⟩
    · trivial
    rcases calling with _ | a
    · rcases rest with _ | ⟨a, rest⟩
      · refine fun x hx => not_lt.mp fun hlt => ?_
        rcases h.ahead _ (hchecks ▸ List.mem_cons_self) x hx hlt with hmem | hcalling
        · cases hmem
        · cases hcalling
      · trivial
    · cases rest <;> trivial
  | _ => trivial

/-- A handler that adds one, has a check begun and deletes the next. -/
def callbacks : List Event :=
  [.add (some 8), .add (some 16), .add (some 24), .check, .resume, .add (some 32), .delete (some 16), .check, .resume,
    .resume, .resume, .resume, .resume, .resume, .resume, .resume, .resume, .resume]

end Ends

end Xperimentum.WMcore.IdleHandlers
