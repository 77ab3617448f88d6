import Threaders.Hilolay.Ults

/-!
# Green threads that are preempted

`lib_end_of_quantum_handler` is installed with `SA_NODEFER` and an empty mask, so a signal
can come between any two statements of the library, its own included, and calls `th_yield`
there.  Here a ULT is a stack of pending statements, and a step executes one statement, or
puts the handler on top of them.

`lib_get_next_ult` is only called by `th_yield` and returns into it; a call of `lib_enqueue`
carries where it returns to.  `th_create_context`, `lib_write_TCB` and `lib_summarize_burst`
are statements of their callers.

## Main definitions

* `Frame` — a pending statement, with the locals of its call.
* `Machine`, `Machine.step` — the library, the stacks and the contexts.
* `Safe` — no ULT is lost or duplicated where a ULT executes its own code.
* `Undisturbed` — the statement does not rely on what another ULT has changed meanwhile.
-/

namespace Threaders.Hilolay

open Lib

/-! ## Pending statements -/

/-- The statements of `lib_enqueue`. -/
inductive EnqueueAt
  /-- `ult->state = READY;` -/
  | ready
  /-- `if(READY_QUEUE_HEAD == NULL)` -/
  | headTest
  /-- `READY_QUEUE_HEAD = ult;` -/
  | head
  /-- `if(READY_QUEUE_TAIL != NULL)` -/
  | tailTest
  /-- `READY_QUEUE_TAIL->next = ult;` -/
  | link
  /-- `READY_QUEUE_TAIL = ult;` -/
  | tail
  /-- `READY_QUEUE_TAIL->next = NULL;` -/
  | close
  deriving DecidableEq

/-- Where a call of `lib_enqueue` returns to: `th_yield` with the ULT it has selected, or
`th_create` with the context it has made. -/
inductive Caller
  | yield (selectedUlt : Ult)
  | create (context : ℕ)
  deriving DecidableEq

/-- A pending statement. -/
inductive Frame
  /-- The code of the ULT itself. -/
  | own
  /-- `struct TCB *selected_ult = READY_QUEUE_HEAD;` -/
  | nextRead
  /-- `if(READY_QUEUE_HEAD != NULL)` -/
  | nextTest (selectedUlt : Option Ult)
  /-- `READY_QUEUE_HEAD = READY_QUEUE_HEAD->next;` -/
  | nextPop (selectedUlt : Option Ult)
  /-- `return selected_ult;` -/
  | nextReturn (selectedUlt : Option Ult)
  /-- `if (selected_ult == NULL)` -/
  | yieldTest (selectedUlt : Option Ult)
  /-- `if (current_ult->state != FREE)` -/
  | yieldRequeue (selectedUlt : Ult)
  /-- `lib_summarize_burst();` -/
  | yieldSummarize (selectedUlt : Ult)
  /-- `selected_ult->state = RUNNING;` -/
  | yieldRunning (selectedUlt : Ult)
  /-- `selected_ult->burst_start = lib_get_time();` -/
  | yieldBurst (selectedUlt : Ult)
  /-- `old = current_ult->context;` -/
  | yieldOld (selectedUlt : Ult)
  /-- `new = selected_ult->context;` -/
  | yieldNew (selectedUlt : Ult) (old : Option ℕ)
  /-- `current_ult = selected_ult;` -/
  | yieldCurrent (selectedUlt : Ult) (old new : Option ℕ)
  /-- `swapcontext(old, new);` -/
  | yieldSwap (old new : Option ℕ)
  /-- `return true;` -/
  | yieldTrue
  /-- A statement of `lib_enqueue(ult)`. -/
  | enqueue (point : EnqueueAt) (ult : Ult) (caller : Caller)
  /-- The loop of `th_create`, at `&ults[i]`. -/
  | createScan (i : ℕ)
  /-- `th_create_context(new_ult, f);` -/
  | createContext (newUlt : Ult)
  /-- `lib_write_TCB(new_ult, NEXT_ID++, READY);` -/
  | createTCB (newUlt : Ult) (context : ℕ)
  /-- `th_yield();` of `th_create` -/
  | createYield
  /-- `return 0;` -/
  | createReturn
  /-- `lib_summarize_burst();` of `th_stop` -/
  | stopSummarize
  /-- `if (!lib_is_main_thread(current_ult))` -/
  | returnTest
  /-- `current_ult->state = FREE;` -/
  | returnFree
  /-- `assert(!"reachable");` -/
  | returnAssert
  /-- `while (th_yield());` -/
  | returnLoop
  /-- `th_yield();` of `lib_end_of_quantum_handler` -/
  | handler
  /-- Its `printf` behind. -/
  | handlerEnd
  deriving DecidableEq

/-- The ULT that a stack is of, known by the context it got from `th_create` (the main ULT has
the first one), and its pending statements. -/
structure Stack where
  ult : ℕ
  frames : List Frame

/-- The library, the stack that is executed and the ones saved in the contexts.  Two lists
record the history: the ULTs whose TCB is written and that have not finished, with their
slots, and among them those whose `lib_enqueue` in `th_create` has completed. -/
structure Machine where
  lib : Globals
  running : Stack
  saved : ℕ → Stack
  written : List (ℕ × Ult)
  enqueued : List (ℕ × Ult)

/-- What the own code of a ULT may call.  `stop` is the end of its function, which
`th_wrapper` goes on from. -/
inductive Call
  | create | yield | ret | stop
  deriving DecidableEq

/-- The first statement of a call. -/
def Call.frame : Call → Frame
  | .create => .createScan 0
  | .yield => .nextRead
  | .ret => .returnTest
  | .stop => .stopSummarize

/-- What happens next: a `SIGALRM`, a call from own code, or the next statement.  The time is
the one `lib_get_time` returns there. -/
inductive Label
  | signal
  | call (op : Call)
  | stmt (time : ℤ)

/-! ## The statements -/

/-- A statement of `lib_enqueue`, and the one behind it.  There is no step through a null
pointer. -/
def enqueueStmt (s : Globals) (ult : Ult) : EnqueueAt → Option (Globals × Option EnqueueAt)
  | .ready => some (s.setState ult .ready, some .headTest)
  | .headTest => some (s, some (if s.readyQueueHead = none then .head else .tailTest))
  | .head => some (s.setHead (some ult), some .tailTest)
  | .tailTest => some (s, some (if s.readyQueueTail = none then .tail else .link))
  | .link => s.readyQueueTail.map fun tail => (s.setNext tail (some ult), some .tail)
  | .tail => some (s.setTail (some ult), some .close)
  | .close => s.readyQueueTail.map fun tail => (s.setNext tail none, none)

/-- Where `th_yield` returns to.  The loop in the `th_return` of the main ULT goes on while it
returns true; behind it the process exits. -/
def yieldReturns (result : Bool) : List Frame → List Frame
  | .returnLoop :: k => if result then .nextRead :: .returnLoop :: k else []
  | k => k

namespace Machine

/-- Go on with other statements. -/
def goto (m : Machine) (lib : Globals) (frames : List Frame) : Machine :=
  { m with lib := lib, running := ⟨m.running.ult, frames⟩ }

/-- `th_create_context(new_ult, f);` -/
def createContext (m : Machine) (newUlt : Ult) (k : List Frame) : Machine where
  lib := thCreateContext m.lib newUlt
  running := ⟨m.running.ult, .createTCB newUlt m.lib.contexts :: k⟩
  saved := Function.update m.saved m.lib.contexts ⟨m.lib.contexts, [.own]⟩
  written := m.written
  enqueued := m.enqueued

/-- `lib_write_TCB(new_ult, NEXT_ID++, READY);` -/
def createTCB (m : Machine) (newUlt : Ult) (context : ℕ) (k : List Frame) : Machine where
  lib := writeNextTCB m.lib newUlt
  running := ⟨m.running.ult, .enqueue .ready newUlt (.create context) :: k⟩
  saved := m.saved
  written := m.written ++ [(context, newUlt)]
  enqueued := m.enqueued

/-- `lib_enqueue` returns. -/
def enqueueReturns (m : Machine) (lib : Globals) (ult : Ult) (k : List Frame) : Caller → Machine
  | .yield selectedUlt => m.goto lib (.yieldSummarize selectedUlt :: k)
  | .create context =>
      ⟨lib, ⟨m.running.ult, .createYield :: k⟩, m.saved, m.written,
        m.enqueued ++ [(context, ult)]⟩

/-- `current_ult->state = FREE;` -/
def returnFree (m : Machine) (k : List Frame) : Machine where
  lib := m.lib.setState m.lib.currentUlt .free
  running := ⟨m.running.ult, .nextRead :: .returnAssert :: k⟩
  saved := m.saved
  written := m.written.filter (·.1 ≠ m.running.ult)
  enqueued := m.enqueued.filter (·.1 ≠ m.running.ult)

/-- `swapcontext(old, new);` -/
def swapcontext (m : Machine) (old new : ℕ) (k : List Frame) : Machine where
  lib := m.lib
  running := Function.update m.saved old ⟨m.running.ult, .yieldTrue :: k⟩ new
  saved := Function.update m.saved old ⟨m.running.ult, .yieldTrue :: k⟩
  written := m.written
  enqueued := m.enqueued

/-- Execute the statement `f`, in front of the statements `k`.  There is none behind a failed
assertion. -/
def exec (m : Machine) (time : ℤ) (k : List Frame) : Frame → Option Machine
  | .own => none
  | .nextRead => some (m.goto m.lib (.nextTest m.lib.readyQueueHead :: k))
  | .nextTest selectedUlt => some (m.goto m.lib (if m.lib.readyQueueHead = none
      then .nextReturn selectedUlt :: k else .nextPop selectedUlt :: k))
  | .nextPop selectedUlt => m.lib.readyQueueHead.map fun head =>
      m.goto (m.lib.setHead (m.lib.next head)) (.nextReturn selectedUlt :: k)
  | .nextReturn selectedUlt => some (m.goto m.lib (.yieldTest selectedUlt :: k))
  | .yieldTest none => some (m.goto m.lib (yieldReturns false k))
  | .yieldTest (some selectedUlt) => some (m.goto m.lib (.yieldRequeue selectedUlt :: k))
  | .yieldRequeue selectedUlt => some (m.goto m.lib
      (if m.lib.state m.lib.currentUlt ≠ .free
        then .enqueue .ready m.lib.currentUlt (.yield selectedUlt) :: k
        else .yieldSummarize selectedUlt :: k))
  | .yieldSummarize selectedUlt =>
      some (m.goto (libSummarizeBurst m.lib time) (.yieldRunning selectedUlt :: k))
  | .yieldRunning selectedUlt =>
      some (m.goto (m.lib.setState selectedUlt .running) (.yieldBurst selectedUlt :: k))
  | .yieldBurst selectedUlt =>
      some (m.goto (m.lib.setBurstStart selectedUlt time) (.yieldOld selectedUlt :: k))
  | .yieldOld selectedUlt =>
      some (m.goto m.lib (.yieldNew selectedUlt (m.lib.context m.lib.currentUlt) :: k))
  | .yieldNew selectedUlt old =>
      some (m.goto m.lib (.yieldCurrent selectedUlt old (m.lib.context selectedUlt) :: k))
  | .yieldCurrent selectedUlt old new =>
      some (m.goto (m.lib.setCurrent selectedUlt) (.yieldSwap old new :: k))
  | .yieldSwap (some old) (some new) => some (m.swapcontext old new k)
  | .yieldSwap _ _ => none
  | .yieldTrue => some (m.goto m.lib (yieldReturns true k))
  | .enqueue point ult caller => (enqueueStmt m.lib ult point).map fun
      | (lib, some point) => m.goto lib (.enqueue point ult caller :: k)
      | (lib, none) => m.enqueueReturns lib ult k caller
  | .createScan i =>
      if h : i < maxUlts then
        some (m.goto m.lib (if m.lib.state ⟨i, h⟩ = .free
          then .createContext ⟨i, h⟩ :: k else .createScan (i + 1) :: k))
      else some (m.goto m.lib k)
  | .createContext newUlt => some (m.createContext newUlt k)
  | .createTCB newUlt context => some (m.createTCB newUlt context k)
  | .createYield => some (m.goto m.lib (.nextRead :: .createReturn :: k))
  | .createReturn => some (m.goto m.lib k)
  | .stopSummarize => some (m.goto (libSummarizeBurst m.lib time) (.returnTest :: k))
  | .returnTest => some (m.goto m.lib (if m.lib.currentUlt = mainUlt
      then .nextRead :: .returnLoop :: k else .returnFree :: k))
  | .returnFree => some (m.returnFree k)
  | .returnAssert => none
  | .returnLoop => none
  | .handler => some (m.goto m.lib (.nextRead :: .handlerEnd :: k))
  | .handlerEnd => some (m.goto m.lib k)

/-- One step.  The main ULT has no `th_wrapper` around it. -/
def step (m : Machine) : Label → Option Machine
  | .signal =>
      if m.running.frames = [] then none
      else some (m.goto m.lib (.handler :: m.running.frames))
  | .call op =>
      match m.running.frames with
      | .own :: k =>
          if op = .stop ∧ m.running.ult = 0 then none
          else some (m.goto m.lib (op.frame :: .own :: k))
      | _ => none
  | .stmt time =>
      match m.running.frames with
      | [] => none
      | f :: k => m.exec time k f

/-- A step of the process. -/
def Step (m : Machine) (label : Label) (m' : Machine) : Prop := m.step label = some m'

/-- The process behind `lib_init`: the main ULT executes its own code. -/
def init (now : ℤ) : Machine where
  lib := libInit now
  running := ⟨0, [.own]⟩
  saved := fun _ => ⟨0, []⟩
  written := [(0, mainUlt)]
  enqueued := [(0, mainUlt)]

/-! ## What is asked of it -/

/-- The ULT is `current_ult`, and the one that executes. -/
def IsCurrent (m : Machine) (p : ℕ × Ult) : Prop :=
  m.lib.currentUlt = p.2 ∧ m.running.ult = p.1

/-- Its TCB is in the list `q`, once, and leads to its stack. -/
def IsQueued (m : Machine) (q : List Ult) (p : ℕ × Ult) : Prop :=
  q.count p.2 = 1 ∧ m.lib.context p.2 = some p.1 ∧ (m.saved p.1).ult = p.1

/-- Every ULT whose `lib_enqueue` has completed and that has not finished is either
`current_ult` or in the ready queue, once, and not both; the queue holds nothing else; and no
two that have not finished own the same slot. -/
structure Accounted (m : Machine) (q : List Ult) : Prop where
  chain : Chain m.lib.next m.lib.readyQueueHead q
  somewhere : ∀ p ∈ m.enqueued, m.IsCurrent p ∨ m.IsQueued q p
  not_both : ∀ p ∈ m.enqueued, m.lib.currentUlt = p.2 → p.2 ∉ q
  nothing_else : ∀ ult ∈ q, ∃ context, (context, ult) ∈ m.enqueued
  slots : (m.written.map Prod.snd).Nodup

/-- No ULT is lost or duplicated where a ULT executes its own code. -/
def Safe (m : Machine) : Prop := m.running.frames = [.own] → ∃ q, m.Accounted q

/-! ## Preemption that does no harm -/

/-- A handler finds nobody to switch to but the ULT it interrupts. -/
def NobodyElse (m : Machine) : Prop :=
  m.lib.readyQueueHead = none ∨
    (m.lib.readyQueueHead = some m.lib.currentUlt ∧ m.lib.next m.lib.currentUlt = none)

/-- Where the statement on top has `th_yield` hold a ULT that is off the queue already, or is
between two halves of the `lib_enqueue` of `th_create`, a signal finds nobody to switch to.
In front of `READY_QUEUE_TAIL->next = ult` it is enough that the new ULT is not the one it
finds. -/
def SignalHarmless (m : Machine) : List Frame → Prop
  | .nextReturn (some _) :: _ | .yieldTest (some _) :: _ | .yieldRequeue _ :: _
  | .yieldSummarize _ :: _ | .yieldRunning _ :: _ | .yieldBurst _ :: _ | .yieldOld _ :: _
  | .yieldNew _ _ :: _ | .yieldCurrent _ _ _ :: _ | .yieldSwap _ _ :: _
  | .enqueue _ _ (.yield _) :: _ | .enqueue .tail _ _ :: _ | .enqueue .close _ _ :: _ =>
      m.NobodyElse
  | .enqueue .tailTest ult (.create _) :: _ | .enqueue .link ult (.create _) :: _ =>
      m.lib.readyQueueHead ≠ some ult
  | _ => True

/-- What the statement on top relies on still holds: the ULT that `lib_get_next_ult` has read
is the head it takes off, the slot that `th_create` has found is FREE, with the context it has
made, and the queue that `lib_enqueue` has found with a ULT in it still has one. -/
def StmtFresh (m : Machine) : List Frame → Prop
  | .nextTest selectedUlt :: _ => m.lib.readyQueueHead = none → selectedUlt = none
  | .nextPop selectedUlt :: _ => m.lib.readyQueueHead = selectedUlt
  | .createContext newUlt :: _ => m.lib.state newUlt = .free
  | .createTCB newUlt context :: _ =>
      m.lib.state newUlt = .free ∧ m.lib.context newUlt = some context
  | .enqueue .tailTest _ _ :: _ | .enqueue .link _ _ :: _ => m.lib.readyQueueHead ≠ none
  | _ => True

/-- The step does not meet with what another ULT does in the middle of an operation. -/
def Undisturbed (m : Machine) : Label → Prop
  | .signal => m.SignalHarmless m.running.frames
  | .call _ => True
  | .stmt _ => m.StmtFresh m.running.frames

section Decidable
variable (m : Machine)

instance : Decidable m.NobodyElse := inferInstanceAs (Decidable (_ ∨ _))

instance (frames : List Frame) : Decidable (m.SignalHarmless frames) := by
  unfold SignalHarmless
  split <;> infer_instance

instance (frames : List Frame) : Decidable (m.StmtFresh frames) := by
  unfold StmtFresh
  split <;> infer_instance

instance (label : Label) : Decidable (m.Undisturbed label) :=
  match label with
  | .signal => inferInstanceAs (Decidable (m.SignalHarmless _))
  | .call _ => .isTrue trivial
  | .stmt _ => inferInstanceAs (Decidable (m.StmtFresh _))

end Decidable

end Machine

end Threaders.Hilolay
