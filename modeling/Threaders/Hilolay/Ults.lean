import Threaders.Lib.LinkedQueue
import Threaders.Lib.Run
import Mathlib.Data.Fintype.Card
import Mathlib.Data.List.FinRange

/-!
# The green threads library

`hilolay.c`: the table of TCBs, the ready queue threaded through it, and the
operations of a ULT.  A `struct TCB*` always points into `ults`, so it is an index;
a `ucontext_t*` is the number of the allocation that made it, since no context is
ever freed.  Each call of `lib_get_time` is an argument of the operation that makes
it.

`th_yield` is modelled up to `swapcontext`: what follows it is `return true` in the
ULT that is resumed, and changes nothing.

## Main definitions

* `TCB`, `Globals` — a thread control block and the variables of the library.
* `libEnqueue`, `libGetNextUlt`, `thYield`, `thCreate` — the operations.
* `System`, `System.exec` — the program as a whole, one operation at a time.
-/

namespace Threaders.Hilolay

open Lib

/-- `MAX_ULTS`. -/
def maxUlts : ℕ := 5000

/-- `struct TCB*`: the index of a TCB in `ults`. -/
abbrev Ult := Fin maxUlts

/-- The main thread is `&ults[0]`. -/
def mainUlt : Ult := ⟨0, by decide⟩

/-- `enum State`. -/
inductive State
  | free | running | ready
  deriving DecidableEq

/-- `struct TCB`. -/
structure TCB where
  id : ℤ
  context : Option ℕ
  state : State
  next : Option Ult
  burstStart : ℤ
  lastBurst : ℤ
  executionTime : ℤ

/-- A TCB of the zeroed table. -/
def TCB.zero : TCB := ⟨0, none, .free, none, 0, 0, 0⟩

/-- The variables of the library.  `contexts` counts the contexts allocated so far, and
is the address the next allocation gets. -/
structure Globals where
  ults : Ult → TCB
  currentUlt : Ult
  readyQueueHead : Option Ult
  readyQueueTail : Option Ult
  nextId : ℤ
  contexts : ℕ

namespace Globals

/-- Change one TCB. -/
def setTCB (s : Globals) (ult : Ult) (tcb : TCB) : Globals :=
  { s with ults := Function.update s.ults ult tcb }

/-- `ult->state = state`. -/
def setState (s : Globals) (ult : Ult) (state : State) : Globals :=
  s.setTCB ult { s.ults ult with state := state }

/-- `ult->next = next`. -/
def setNext (s : Globals) (ult : Ult) (next : Option Ult) : Globals :=
  s.setTCB ult { s.ults ult with next := next }

/-- `ult->burst_start = now`. -/
def setBurstStart (s : Globals) (ult : Ult) (now : ℤ) : Globals :=
  s.setTCB ult { s.ults ult with burstStart := now }

/-- `READY_QUEUE_HEAD = head`. -/
def setHead (s : Globals) (head : Option Ult) : Globals := { s with readyQueueHead := head }

/-- `READY_QUEUE_TAIL = tail`. -/
def setTail (s : Globals) (tail : Option Ult) : Globals := { s with readyQueueTail := tail }

/-- `current_ult = ult`. -/
def setCurrent (s : Globals) (ult : Ult) : Globals := { s with currentUlt := ult }

/-- The state, the context and the link of every TCB. -/
def state (s : Globals) (ult : Ult) : State := (s.ults ult).state
def context (s : Globals) (ult : Ult) : Option ℕ := (s.ults ult).context
def next (s : Globals) (ult : Ult) : Option Ult := (s.ults ult).next

/-- The ready queue as the pointers and links the code follows. -/
def links (s : Globals) : Links Ult := ⟨s.next, s.readyQueueHead, s.readyQueueTail⟩

section Setters
variable (s : Globals) (ult : Ult) (tcb : TCB)

@[simp] theorem state_setTCB :
    (s.setTCB ult tcb).state = Function.update s.state ult tcb.state := by
  funext v
  by_cases h : v = ult <;> simp [state, setTCB, h]

@[simp] theorem context_setTCB :
    (s.setTCB ult tcb).context = Function.update s.context ult tcb.context := by
  funext v
  by_cases h : v = ult <;> simp [context, setTCB, h]

@[simp] theorem next_setTCB :
    (s.setTCB ult tcb).next = Function.update s.next ult tcb.next := by
  funext v
  by_cases h : v = ult <;> simp [next, setTCB, h]

@[simp] theorem state_setState (x : State) :
    (s.setState ult x).state = Function.update s.state ult x := state_setTCB ..
@[simp] theorem context_setState (x : State) : (s.setState ult x).context = s.context :=
  (context_setTCB ..).trans (Function.update_eq_self ult s.context)
@[simp] theorem next_setState (x : State) : (s.setState ult x).next = s.next :=
  (next_setTCB ..).trans (Function.update_eq_self ult s.next)

@[simp] theorem state_setNext (n : Option Ult) : (s.setNext ult n).state = s.state :=
  (state_setTCB ..).trans (Function.update_eq_self ult s.state)
@[simp] theorem context_setNext (n : Option Ult) : (s.setNext ult n).context = s.context :=
  (context_setTCB ..).trans (Function.update_eq_self ult s.context)
@[simp] theorem next_setNext (n : Option Ult) :
    (s.setNext ult n).next = Function.update s.next ult n := next_setTCB ..

@[simp] theorem state_setBurstStart (now : ℤ) : (s.setBurstStart ult now).state = s.state :=
  (state_setTCB ..).trans (Function.update_eq_self ult s.state)
@[simp] theorem context_setBurstStart (now : ℤ) :
    (s.setBurstStart ult now).context = s.context :=
  (context_setTCB ..).trans (Function.update_eq_self ult s.context)
@[simp] theorem next_setBurstStart (now : ℤ) : (s.setBurstStart ult now).next = s.next :=
  (next_setTCB ..).trans (Function.update_eq_self ult s.next)

@[simp] theorem readyQueueHead_setTCB : (s.setTCB ult tcb).readyQueueHead = s.readyQueueHead := rfl
@[simp] theorem readyQueueTail_setTCB : (s.setTCB ult tcb).readyQueueTail = s.readyQueueTail := rfl
@[simp] theorem currentUlt_setTCB : (s.setTCB ult tcb).currentUlt = s.currentUlt := rfl
@[simp] theorem contexts_setTCB : (s.setTCB ult tcb).contexts = s.contexts := rfl

@[simp] theorem readyQueueHead_setState (x : State) :
    (s.setState ult x).readyQueueHead = s.readyQueueHead := rfl
@[simp] theorem readyQueueTail_setState (x : State) :
    (s.setState ult x).readyQueueTail = s.readyQueueTail := rfl
@[simp] theorem currentUlt_setState (x : State) : (s.setState ult x).currentUlt = s.currentUlt := rfl
@[simp] theorem contexts_setState (x : State) : (s.setState ult x).contexts = s.contexts := rfl

@[simp] theorem readyQueueHead_setNext (n : Option Ult) :
    (s.setNext ult n).readyQueueHead = s.readyQueueHead := rfl
@[simp] theorem readyQueueTail_setNext (n : Option Ult) :
    (s.setNext ult n).readyQueueTail = s.readyQueueTail := rfl
@[simp] theorem currentUlt_setNext (n : Option Ult) : (s.setNext ult n).currentUlt = s.currentUlt := rfl
@[simp] theorem contexts_setNext (n : Option Ult) : (s.setNext ult n).contexts = s.contexts := rfl

@[simp] theorem readyQueueHead_setBurstStart (now : ℤ) :
    (s.setBurstStart ult now).readyQueueHead = s.readyQueueHead := rfl
@[simp] theorem readyQueueTail_setBurstStart (now : ℤ) :
    (s.setBurstStart ult now).readyQueueTail = s.readyQueueTail := rfl
@[simp] theorem currentUlt_setBurstStart (now : ℤ) :
    (s.setBurstStart ult now).currentUlt = s.currentUlt := rfl
@[simp] theorem contexts_setBurstStart (now : ℤ) :
    (s.setBurstStart ult now).contexts = s.contexts := rfl

@[simp] theorem readyQueueHead_setHead (p : Option Ult) : (s.setHead p).readyQueueHead = p := rfl
@[simp] theorem readyQueueTail_setHead (p : Option Ult) :
    (s.setHead p).readyQueueTail = s.readyQueueTail := rfl
@[simp] theorem state_setHead (p : Option Ult) : (s.setHead p).state = s.state := rfl
@[simp] theorem context_setHead (p : Option Ult) : (s.setHead p).context = s.context := rfl
@[simp] theorem next_setHead (p : Option Ult) : (s.setHead p).next = s.next := rfl
@[simp] theorem currentUlt_setHead (p : Option Ult) : (s.setHead p).currentUlt = s.currentUlt := rfl
@[simp] theorem contexts_setHead (p : Option Ult) : (s.setHead p).contexts = s.contexts := rfl

@[simp] theorem readyQueueHead_setTail (p : Option Ult) :
    (s.setTail p).readyQueueHead = s.readyQueueHead := rfl
@[simp] theorem readyQueueTail_setTail (p : Option Ult) : (s.setTail p).readyQueueTail = p := rfl
@[simp] theorem state_setTail (p : Option Ult) : (s.setTail p).state = s.state := rfl
@[simp] theorem context_setTail (p : Option Ult) : (s.setTail p).context = s.context := rfl
@[simp] theorem next_setTail (p : Option Ult) : (s.setTail p).next = s.next := rfl
@[simp] theorem currentUlt_setTail (p : Option Ult) : (s.setTail p).currentUlt = s.currentUlt := rfl
@[simp] theorem contexts_setTail (p : Option Ult) : (s.setTail p).contexts = s.contexts := rfl

@[simp] theorem readyQueueHead_setCurrent : (s.setCurrent ult).readyQueueHead = s.readyQueueHead := rfl
@[simp] theorem readyQueueTail_setCurrent : (s.setCurrent ult).readyQueueTail = s.readyQueueTail := rfl
@[simp] theorem state_setCurrent : (s.setCurrent ult).state = s.state := rfl
@[simp] theorem context_setCurrent : (s.setCurrent ult).context = s.context := rfl
@[simp] theorem next_setCurrent : (s.setCurrent ult).next = s.next := rfl
@[simp] theorem currentUlt_setCurrent : (s.setCurrent ult).currentUlt = ult := rfl
@[simp] theorem contexts_setCurrent : (s.setCurrent ult).contexts = s.contexts := rfl

end Setters

end Globals

/-! ## Operations -/

/-- `lib_write_TCB`. -/
def libWriteTCB (tcb : TCB) (id : ℤ) (state : State) : TCB :=
  { tcb with
    state := state
    id := id
    next := none
    burstStart := 0
    lastBurst := 0
    executionTime := 0 }

/-- `lib_init`, on the zeroed table. -/
def libInit (now : ℤ) : Globals where
  ults := Function.update (fun _ => TCB.zero) mainUlt
    { libWriteTCB { TCB.zero with context := some 0 } 0 .running with burstStart := now }
  currentUlt := mainUlt
  readyQueueHead := none
  readyQueueTail := none
  nextId := 1
  contexts := 1

/-- `lib_get_next_ult`. -/
def libGetNextUlt (s : Globals) : Option Ult × Globals :=
  match s.readyQueueHead with
  | none => (none, s)
  | some ult => (some ult, s.setHead (s.next ult))

/-- `lib_enqueue`. -/
def libEnqueue (s : Globals) (ult : Ult) : Globals :=
  let s := s.setState ult .ready
  let s := if s.readyQueueHead = none then s.setHead (some ult) else s
  let s := match s.readyQueueTail with
    | none => s
    | some tail => s.setNext tail (some ult)
  (s.setTail (some ult)).setNext ult none

/-- The current ULT goes back to the queue, unless it has finished. -/
def requeueCurrent (s : Globals) : Globals :=
  if s.state s.currentUlt ≠ .free then libEnqueue s s.currentUlt else s

/-- `lib_summarize_burst`, at the given time. -/
def libSummarizeBurst (s : Globals) (now : ℤ) : Globals :=
  let tcb := s.ults s.currentUlt
  let lastBurst := now - tcb.burstStart
  s.setTCB s.currentUlt
    { tcb with executionTime := tcb.executionTime + lastBurst, lastBurst := lastBurst }

/-- The `swapcontext` of a `th_yield`: the context saved into and the one resumed. -/
structure Switch where
  old : Option ℕ
  new : Option ℕ
  deriving DecidableEq

/-- `th_yield`.  Without a switch it returned false. -/
def thYield (s : Globals) (summaryTime startTime : ℤ) : Option Switch × Globals :=
  match libGetNextUlt s with
  | (none, s) => (none, s)
  | (some selected, s) =>
      let s := libSummarizeBurst (requeueCurrent s) summaryTime
      let s := (s.setState selected .running).setBurstStart selected startTime
      let old := s.context s.currentUlt
      let new := s.context selected
      (some ⟨old, new⟩, s.setCurrent selected)

/-- The loop of `th_create` over the table: the first free TCB. -/
def firstFree (s : Globals) : Option Ult :=
  (List.finRange maxUlts).find? fun ult => s.state ult = .free

/-- `th_create_context`: a context of its own for the TCB. -/
def thCreateContext (s : Globals) (newUlt : Ult) : Globals :=
  { s.setTCB newUlt { s.ults newUlt with context := some s.contexts } with
    contexts := s.contexts + 1 }

/-- `lib_write_TCB(new_ult, NEXT_ID++, READY)`. -/
def writeNextTCB (s : Globals) (newUlt : Ult) : Globals :=
  { s.setTCB newUlt (libWriteTCB (s.ults newUlt) s.nextId .ready) with
    nextId := s.nextId + 1 }

/-- `th_create` from the free TCB found on, up to its `th_yield`. -/
def thCreateAt (s : Globals) (newUlt : Ult) : Globals :=
  libEnqueue (writeNextTCB (thCreateContext s newUlt) newUlt) newUlt

/-- `th_create`.  The first component is the TCB created in, `none` where the call
returns `ERROR_TOO_MANY_ULTS`. -/
def thCreate (s : Globals) (summaryTime startTime : ℤ) : Option Ult × Option Switch × Globals :=
  match firstFree s with
  | none => (none, none, s)
  | some newUlt =>
      let (switch, s) := thYield (thCreateAt s newUlt) summaryTime startTime
      (some newUlt, switch, s)

/-! ## The program -/

/-- How far the process has come. -/
inductive Status
  | running | exited | aborted
  deriving DecidableEq

/-- The library, whether the main thread is in the loop of its `th_return`, and whether
the process still runs. -/
structure System where
  lib : Globals
  draining : Bool
  status : Status

/-- An operation of the current ULT, with the times its calls of `lib_get_time` give.
`stop` is the `th_stop` that `th_wrapper` runs after the function of a thread. -/
inductive Op
  | create (summaryTime startTime : ℤ)
  | yield (summaryTime startTime : ℤ)
  | ret (summaryTime startTime : ℤ)
  | stop (stopTime summaryTime startTime : ℤ)

namespace System

/-- The process after `lib_init`. -/
def init (now : ℤ) : System := ⟨libInit now, false, .running⟩

/-- `th_return`.  A thread gives its TCB back and must not come back from `th_yield`;
the main thread runs one round of its loop, and exits when there is nobody left. -/
def thReturn (s : System) (summaryTime startTime : ℤ) : Option Switch × System :=
  if s.lib.currentUlt = mainUlt then
    let (switch, lib) := thYield s.lib summaryTime startTime
    (switch, ⟨lib, true, if switch = none then .exited else .running⟩)
  else
    let (switch, lib) := thYield (s.lib.setState s.lib.currentUlt .free) summaryTime startTime
    (switch, ⟨lib, s.draining, if switch = none then .aborted else .running⟩)

/-- One operation of the current ULT. -/
def exec (s : System) : Op → Option Switch × System
  | .create summaryTime startTime =>
      let (_, switch, lib) := thCreate s.lib summaryTime startTime
      (switch, { s with lib := lib })
  | .yield summaryTime startTime =>
      let (switch, lib) := thYield s.lib summaryTime startTime
      (switch, { s with lib := lib })
  | .ret summaryTime startTime => s.thReturn summaryTime startTime
  | .stop stopTime summaryTime startTime =>
      { s with lib := libSummarizeBurst s.lib stopTime }.thReturn summaryTime startTime

/-- The operations open to the current ULT: none once the process is over, and only the
next round of the loop for a main thread inside `th_return`.  The main thread has no
`th_wrapper` around it. -/
def Enabled (s : System) (op : Op) : Prop :=
  s.status = .running ∧
  (s.draining = true → s.lib.currentUlt = mainUlt → ∃ t₁ t₂, op = .ret t₁ t₂) ∧
  (s.lib.currentUlt = mainUlt → ∀ t₀ t₁ t₂, op ≠ .stop t₀ t₁ t₂)

/-- The operation ends the current ULT. -/
inductive Finishes (s : System) : Op → Prop
  | ret (hmain : s.lib.currentUlt ≠ mainUlt) (t₁ t₂ : ℤ) : Finishes s (.ret t₁ t₂)
  | stop (hmain : s.lib.currentUlt ≠ mainUlt) (t₀ t₁ t₂ : ℤ) : Finishes s (.stop t₀ t₁ t₂)

theorem Finishes.not_main {s : System} {op : Op} (h : s.Finishes op) :
    s.lib.currentUlt ≠ mainUlt := by
  cases h with
  | ret hmain => exact hmain
  | stop hmain => exact hmain

/-- A step of the process, labelled with the operation and its switch. -/
def Step (s : System) (label : Op × Option Switch) (t : System) : Prop :=
  s.Enabled label.1 ∧ s.exec label.1 = (label.2, t)

theorem Step.of_enabled {s : System} {op : Op} (h : s.Enabled op) :
    Step s (op, (s.exec op).1) (s.exec op).2 := ⟨h, rfl⟩

end System

end Threaders.Hilolay
