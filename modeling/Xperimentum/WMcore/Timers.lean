import Xperimentum.Lib.Int32
import Xperimentum.Lib.Partial

/-! The timer queue: handlers in the order of their times, and checks of the queue that call handlers, which may
change the queue and check it again. -/

namespace Xperimentum.WMcore.Timers

open Lib.Int32 Lib.Partial

structure Timeval where
  tv_sec : ℤ
  tv_usec : ℤ
  deriving DecidableEq

namespace Timeval

def zero : Timeval := ⟨0, 0⟩

def isZero (tv : Timeval) : Bool := tv.tv_sec = 0 ∧ tv.tv_usec = 0

def isAfter (t₁ t₂ : Timeval) : Bool := t₁.tv_sec > t₂.tv_sec ∨ t₁.tv_sec = t₂.tv_sec ∧ t₁.tv_usec > t₂.tv_usec

/-- The product is one of 32-bit integers. -/
def addmillisecs (tv : Timeval) (milliseconds : ℤ) : Timeval :=
  let tv_usec := tv.tv_usec + wrap32 (milliseconds * 1000)
  ⟨tv.tv_sec + tv_usec.tdiv 1000000, tv_usec.tmod 1000000⟩

def microseconds (tv : Timeval) : ℤ := tv.tv_sec * 1000000 + tv.tv_usec

end Timeval

/-- Its address stands for the callback. -/
structure TimerHandler (D : Type) where
  address : ℕ
  when : Timeval
  clientData : Option D
  nextDelay : ℤ
  deriving DecidableEq

/-- A handler with its history: the time that it is really due, in microseconds, whether it was added as a
persistent one, how often it has been called, and whether it has been deleted. -/
structure Handler (D : Type) extends TimerHandler D where
  due : ℤ
  persistent : Bool
  calls : ℕ
  deleted : Bool
  deriving DecidableEq

/-- The loop's time and handler, and whether the handler is being called. -/
structure Check where
  now : Timeval
  handler : Option ℕ
  calling : Bool
  deriving DecidableEq

/-- The order of the list is that of the links; a handler that is not in the queue has been freed. -/
structure State (D : Type) where
  queue : List (Handler D)
  checks : List Check
  deriving DecidableEq

/-- An addition has the address that is allocated, if any, and the clock's reading. -/
inductive Event (D : Type)
  | add (address : Option ℕ) (milliseconds : ℤ) (persistent : Bool) (clientData : Option D) (reading : Timeval)
  | deleteWithClientData (clientData : Option D)
  | delete (handlerID : Option ℕ)
  | check (reading : Timeval)
  | resume

variable {D : Type} [DecidableEq D]

def enqueueTimerHandler (handler : Handler D) : List (Handler D) → List (Handler D)
  | [] => [handler]
  | tmp :: queue =>
    if handler.when.isAfter tmp.when then tmp :: enqueueTimerHandler handler queue else handler :: tmp :: queue

def addTimerHandler (address : ℕ) (milliseconds : ℤ) (persistent : Bool) (clientData : Option D) (reading : Timeval)
    (queue : List (Handler D)) : List (Handler D) :=
  let nextDelay := if persistent then milliseconds else 0
  enqueueTimerHandler
    ⟨⟨address, reading.addmillisecs milliseconds, clientData, nextDelay⟩,
      reading.microseconds + milliseconds * 1000, 0 < nextDelay, 0, false⟩ queue

def find (a : ℕ) (queue : List (Handler D)) : Option (Handler D) := queue.find? fun h => h.address = a

def change (a : ℕ) (f : Handler D → Handler D) (queue : List (Handler D)) : List (Handler D) :=
  queue.map fun h => if h.address = a then f h else h

/-- A handler that has been called stays for the check to free it. -/
def dismiss (handler : Handler D) (queue : List (Handler D)) : List (Handler D) :=
  if handler.when.isZero then change handler.address (fun h => { h with nextDelay := 0, deleted := true }) queue
  else queue.filter fun h => h.address ≠ handler.address

def deleteTimerWithClientData (cdata : Option D) (queue : List (Handler D)) : List (Handler D) :=
  if cdata = none then queue
  else match queue.find? fun h => h.clientData = cdata with
    | none => queue
    | some handler => dismiss handler queue

/-- The handler is read; with an empty queue nothing is done. -/
def deleteTimerHandler (handlerID : Option ℕ) (queue : List (Handler D)) : Option (List (Handler D)) :=
  match handlerID, queue with
  | none, _ => some queue
  | some _, [] => some queue
  | some a, _ => (find a queue).map fun handler => dismiss handler queue

/-- The link of a handler. -/
def next (a : ℕ) (queue : List (Handler D)) : Option (Option ℕ) :=
  match queue.dropWhile fun h => h.address ≠ a with
  | [] => none
  | _ :: rest => some (rest.head?.map fun h => h.address)

def again (now : Timeval) (handler : Handler D) : Handler D :=
  { handler with
    when := now.addmillisecs handler.nextDelay
    due := now.microseconds + handler.nextDelay * 1000 }

/-- The loop behind the calls, which frees the called handlers or puts them back. -/
def sweep (now : Timeval) : ℕ → List (Handler D) → List (Handler D)
  | 0, queue => queue
  | _, [] => []
  | fuel + 1, handler :: queue =>
    if handler.when.isZero then
      sweep now fuel (if 0 < handler.nextDelay then enqueueTimerHandler (again now handler) queue else queue)
    else handler :: queue

def control (checks : List Check) : Bool := checks.head?.all fun f => f.calling

/-- The handler that the loop is at, if it is due. -/
def Check.dueHandler (f : Check) (queue : List (Handler D)) : Option (Handler D) :=
  (f.handler.bind fun a => find a queue).filter fun h => f.now.isAfter h.when

def Check.ends (f : Check) (queue : List (Handler D)) : Bool := !f.calling && (f.dueHandler queue).isNone

/-- The next turn of the innermost check's loop, behind the call or in front of the next handler. -/
def resume (queue : List (Handler D)) : List Check → Option (State D)
  | [] => some ⟨queue, []⟩
  | f :: checks =>
    match f.handler, f.calling with
    | none, _ => some ⟨sweep f.now queue.length queue, checks⟩
    | some a, true => do
      let handler ← next a queue
      return ⟨queue, { f with handler := handler, calling := false } :: checks⟩
    | some a, false => do
      let h ← find a queue
      if f.now.isAfter h.when then
        if h.when.isZero then
          let handler ← next a queue
          return ⟨queue, { f with handler := handler } :: checks⟩
        else
          return ⟨change a (fun h => { h with when := Timeval.zero, calls := h.calls + 1 }) queue,
            { f with calling := true } :: checks⟩
      else
        return ⟨sweep f.now queue.length queue, checks⟩

/-- There is no next state where a freed handler is read. -/
def step (s : State D) : Event D → Option (State D)
  | .add none _ _ _ _ => some s
  | .add (some a) milliseconds persistent clientData reading =>
    some { s with queue := addTimerHandler a milliseconds persistent clientData reading s.queue }
  | .deleteWithClientData clientData => some { s with queue := deleteTimerWithClientData clientData s.queue }
  | .delete handlerID => (deleteTimerHandler handlerID s.queue).map fun queue => { s with queue := queue }
  | .check reading =>
    if s.queue = [] then some s
    else some { s with checks := ⟨reading, s.queue.head?.map fun h => h.address, false⟩ :: s.checks }
  | .resume => resume s.queue s.checks

def initial : State D := ⟨[], []⟩

end Xperimentum.WMcore.Timers
