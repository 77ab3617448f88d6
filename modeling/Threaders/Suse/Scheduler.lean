import Mathlib.Data.List.Perm.Basic
import Mathlib.Algebra.Group.Defs
import Threaders.Lib.LeastFold
import Threaders.Lib.Run

/-!
# The thread scheduler of SUSE

`suse_scheduler.c` keeps its threads in four lists and the pointer `thread_exec`.  A thread is
a pointer into the heap, where its `t_thread` lives; a list holds pointers.  The estimates of
`scheduler_calculate_exponential_mean` are values of any linearly ordered type with the
operations of the formula: the scheduler only compares them.

## Main definitions

* `SuseState` — the global variables, the heap of threads and of programs, the configuration.
* `schedulerRunLongTermScheduler`, `schedulerRunShortTermScheduler`, `schedulerBlockThread`,
  `schedulerSetReadyThread`, `schedulerFinishThread` — the five operations.
* `SuseStep` — one operation on a thread it may be applied to.
-/

namespace Threaders.Suse

open Lib

/-- `e_states`. -/
inductive EStates
  | new | ready | exec | blocked | exit
  deriving DecidableEq, Repr

/-- `t_thread`; the times that only the metrics print are left out. -/
structure TThread where
  pid : ℤ
  tid : ℤ
  state : EStates
  cpuTime : ℤ
  deriving DecidableEq, Repr

/-- `t_program`, without its list of threads. -/
structure TProgram where
  pid : ℤ
  state : EStates
  deriving DecidableEq, Repr

/-- `program_create_thread`; `cpu_time` is what the memory of `malloc` held. -/
def programCreateThread (uninit pid tid : ℤ) : TThread where
  pid := pid
  tid := tid
  state := .ready
  cpuTime := uninit

/-- The state of the scheduler.  Pointers to threads and to programs are numbers. -/
structure SuseState (ρ : Type*) where
  queueNew : List ℕ
  queueReady : List ℕ
  queueBlocked : List ℕ
  queueExit : List ℕ
  programs : List ℕ
  threadExec : Option ℕ
  thread : ℕ → TThread
  program : ℕ → TProgram
  maxMultiprog : ℤ
  alphaSjf : ρ

namespace SuseState

variable {ρ : Type*} (s : SuseState ρ)

/-- The store `thread->state = e`. -/
def setState (t : ℕ) (e : EStates) : SuseState ρ :=
  { s with thread := fun t' => if t' = t then { s.thread t with state := e } else s.thread t' }

/-- The turn of the long-term loop that admits the thread at position `i`. -/
def moveToReady (i t : ℕ) : SuseState ρ :=
  { s with
    queueNew := s.queueNew.eraseIdx i
    queueReady := s.queueReady ++ [t]
    maxMultiprog := s.maxMultiprog - 1 }

@[simp] theorem setState_queueNew (t : ℕ) (e : EStates) :
    (s.setState t e).queueNew = s.queueNew := rfl

@[simp] theorem setState_queueReady (t : ℕ) (e : EStates) :
    (s.setState t e).queueReady = s.queueReady := rfl

@[simp] theorem setState_queueBlocked (t : ℕ) (e : EStates) :
    (s.setState t e).queueBlocked = s.queueBlocked := rfl

@[simp] theorem setState_threadExec (t : ℕ) (e : EStates) :
    (s.setState t e).threadExec = s.threadExec := rfl

@[simp] theorem setState_maxMultiprog (t : ℕ) (e : EStates) :
    (s.setState t e).maxMultiprog = s.maxMultiprog := rfl

end SuseState

/-! ## The long-term scheduler -/

section LongTerm

variable {ρ : Type*}

/-- One turn of the loop of `scheduler_run_long_term_scheduler`. -/
def longTermTurn (s : SuseState ρ) (i : ℕ) : SuseState ρ :=
  match s.queueNew[i]? with
  | none => s
  | some thread =>
      if (s.queueReady.length : ℤ) ≤ s.maxMultiprog then s.moveToReady i thread else s

/-- `scheduler_run_long_term_scheduler`.  The loop reads the size of `queue_new` again on each
turn; the list only gets shorter, so the turns that the loop no longer makes are turns on
positions the list does not have, which change nothing. -/
def schedulerRunLongTermScheduler (s : SuseState ρ) : SuseState ρ :=
  (List.range s.queueNew.length).foldl longTermTurn s

theorem longTermTurn_eq {s : SuseState ρ} {i t : ℕ} (h : s.queueNew[i]? = some t) :
    longTermTurn s i =
      if (s.queueReady.length : ℤ) ≤ s.maxMultiprog then s.moveToReady i t else s := by
  simp only [longTermTurn, h]

theorem longTermTurn_none {s : SuseState ρ} {i : ℕ} (h : s.queueNew[i]? = none) :
    longTermTurn s i = s := by
  simp only [longTermTurn, h]

theorem longTermTurn_induction {P : SuseState ρ → Prop}
    (hmove : ∀ (s : SuseState ρ) (i t : ℕ), P s → s.queueNew[i]? = some t →
      (s.queueReady.length : ℤ) ≤ s.maxMultiprog → P (s.moveToReady i t))
    (is : List ℕ) (s : SuseState ρ) (hs : P s) : P (is.foldl longTermTurn s) := by
  induction is generalizing s with
  | nil => exact hs
  | cons i is ih =>
      apply ih
      cases hi : s.queueNew[i]? with
      | none =>
          rw [longTermTurn_none hi]
          exact hs
      | some t =>
          rw [longTermTurn_eq hi]
          by_cases hm : (s.queueReady.length : ℤ) ≤ s.maxMultiprog
          · rw [if_pos hm]
            exact hmove s i t hs hi hm
          · rw [if_neg hm]
            exact hs

/-- What every admission keeps, the long-term scheduler keeps. -/
theorem longTerm_induction {P : SuseState ρ → Prop}
    (hmove : ∀ (s : SuseState ρ) (i t : ℕ), P s → s.queueNew[i]? = some t →
      (s.queueReady.length : ℤ) ≤ s.maxMultiprog → P (s.moveToReady i t))
    {s : SuseState ρ} (hs : P s) : P (schedulerRunLongTermScheduler s) :=
  longTermTurn_induction hmove _ s hs

/-- Turns that admit nobody change nothing. -/
theorem longTermTurns_of_not {s : SuseState ρ} {is : List ℕ}
    (h : ∀ i ∈ is, s.queueNew[i]? = none ∨ s.maxMultiprog < s.queueReady.length) :
    is.foldl longTermTurn s = s := by
  induction is with
  | nil => rfl
  | cons i is ih =>
      have hturn : longTermTurn s i = s := by
        cases hi : s.queueNew[i]? with
        | none => exact longTermTurn_none hi
        | some t =>
            rw [longTermTurn_eq hi, if_neg]
            rcases h i List.mem_cons_self with h | h
            · simp [h] at hi
            · exact Int.not_le.2 h
      rw [List.foldl_cons, hturn]
      exact ih fun j hj => h j (List.mem_cons_of_mem i hj)

/-- The long-term scheduler does nothing when no thread is new or the limit is below the size
of `queue_ready`. -/
theorem longTerm_of_not (s : SuseState ρ)
    (h : s.queueNew = [] ∨ s.maxMultiprog < s.queueReady.length) :
    schedulerRunLongTermScheduler s = s := by
  apply longTermTurns_of_not
  intro i _
  exact h.imp_left fun hnil => by simp [hnil]

/-- The first new thread is admitted whenever the limit is not below the size of
`queue_ready`. -/
theorem longTerm_admits {s : SuseState ρ} {t : ℕ} {ts : List ℕ} (h : s.queueNew = t :: ts)
    (hm : (s.queueReady.length : ℤ) ≤ s.maxMultiprog) :
    t ∈ (schedulerRunLongTermScheduler s).queueReady := by
  unfold schedulerRunLongTermScheduler
  rw [h, List.length_cons, List.range_succ_eq_map, List.foldl_cons]
  have hfirst : longTermTurn s 0 = s.moveToReady 0 t := by
    simp [longTermTurn, h, hm]
  rw [hfirst]
  apply longTermTurn_induction (P := fun u => t ∈ u.queueReady)
  · intro u i t' hu _ _
    exact List.mem_append_left _ hu
  · simp [SuseState.moveToReady]

/-- All that the long-term scheduler may touch. -/
theorem longTerm_frame (s : SuseState ρ) :
    (schedulerRunLongTermScheduler s).thread = s.thread ∧
      (schedulerRunLongTermScheduler s).queueBlocked = s.queueBlocked ∧
      (schedulerRunLongTermScheduler s).threadExec = s.threadExec := by
  apply longTerm_induction (P := fun u => u.thread = s.thread ∧
    u.queueBlocked = s.queueBlocked ∧ u.threadExec = s.threadExec)
  · intro u i t hu _ _
    exact hu
  · exact ⟨rfl, rfl, rfl⟩

/-- Threads only move from `queue_new` to `queue_ready`. -/
theorem longTerm_perm (s : SuseState ρ) :
    ((schedulerRunLongTermScheduler s).queueNew ++
      (schedulerRunLongTermScheduler s).queueReady).Perm (s.queueNew ++ s.queueReady) := by
  apply longTerm_induction (P := fun u =>
    (u.queueNew ++ u.queueReady).Perm (s.queueNew ++ s.queueReady))
  · intro u i t hu hi _
    refine List.Perm.trans ?_ hu
    obtain ⟨hlt, rfl⟩ := List.getElem?_eq_some_iff.1 hi
    have hmove : (u.queueNew[i] :: u.queueNew.eraseIdx i).Perm u.queueNew :=
      List.getElem_cons_eraseIdx_perm hlt
    calc u.queueNew.eraseIdx i ++ (u.queueReady ++ [u.queueNew[i]])
        = u.queueNew.eraseIdx i ++ u.queueReady ++ [u.queueNew[i]] :=
          (List.append_assoc _ _ _).symm
      _ |>.Perm ([u.queueNew[i]] ++ (u.queueNew.eraseIdx i ++ u.queueReady)) :=
          List.perm_append_comm
      _ |>.Perm (u.queueNew ++ u.queueReady) := hmove.append_right _
  · exact List.Perm.refl _

end LongTerm

/-! ## The short-term scheduler -/

section ShortTerm

variable {ρ : Type*} [LinearOrder ρ] [Add ρ] [Sub ρ] [Mul ρ] [Zero ρ] [One ρ] [IntCast ρ]

/-- `scheduler_calculate_exponential_mean`, where `tn` is always 0. -/
def schedulerCalculateExponentialMean (s : SuseState ρ) (burstTime : ℤ) : ρ :=
  s.alphaSjf * (burstTime : ρ) + (1 - s.alphaSjf) * 0

/-- `_scheduler_get_sjf`. -/
def schedulerGetSjf (s : SuseState ρ) (th1 th2 : ℕ) : ℕ :=
  if schedulerCalculateExponentialMean s (s.thread th1).cpuTime ≤
      schedulerCalculateExponentialMean s (s.thread th2).cpuTime then th1 else th2

/-- The test of the short-term loop: the thread is the one that the fold, seeded with it,
returns. -/
def isSjf (s : SuseState ρ) (thread : ℕ) : Bool :=
  thread == s.queueReady.foldl (schedulerGetSjf s) thread

/-- `scheduler_execute_thread`. -/
def schedulerExecuteThread (s : SuseState ρ) (thread : ℕ) : SuseState ρ :=
  { s.setState thread .exec with threadExec := some thread }

/-- `scheduler_run_short_term_scheduler`: dispatch the first thread that passes the test. -/
def schedulerRunShortTermScheduler (s : SuseState ρ) : SuseState ρ :=
  match s.queueReady.findIdx? (isSjf s) with
  | none => s
  | some i =>
      match s.queueReady[i]? with
      | none => s
      | some sjfThread =>
          let s' := schedulerExecuteThread
            { s with queueReady := s.queueReady.eraseIdx i } sjfThread
          { s' with maxMultiprog := s'.maxMultiprog + 1 }

/-- What the scheduler orders the threads by. -/
def estimate (s : SuseState ρ) (t : ℕ) : ρ :=
  schedulerCalculateExponentialMean s (s.thread t).cpuTime

theorem schedulerGetSjf_eq (s : SuseState ρ) : schedulerGetSjf s = keepLeast (estimate s) := rfl

/-- The loop dispatches the first of the threads with the least estimate. -/
theorem shortTerm_firstLeast {s : SuseState ρ} {pre post : List ℕ} {t : ℕ}
    (h : FirstLeast (estimate s) s.queueReady pre t post) :
    schedulerRunShortTermScheduler s =
      { schedulerExecuteThread { s with queueReady := pre ++ post } t with
        maxMultiprog := s.maxMultiprog + 1 } := by
  have htest : ∀ u, isSjf s u = true ↔ s.queueReady.foldl (keepLeast (estimate s)) u = u := by
    intro u
    rw [isSjf, schedulerGetSjf_eq, beq_iff_eq, eq_comm]
  have hget : s.queueReady[pre.length]? = some t := by simp [h.eq]
  have herase : s.queueReady.eraseIdx pre.length = pre ++ post := by
    rw [h.eq, List.eraseIdx_append_of_length_le le_rfl, Nat.sub_self]
    rfl
  simp only [schedulerRunShortTermScheduler, h.findIdx?_eq htest, hget, herase]
  rfl

theorem shortTerm_of_nil {s : SuseState ρ} (h : s.queueReady = []) :
    schedulerRunShortTermScheduler s = s := by
  simp [schedulerRunShortTermScheduler, h]

/-- What the short-term scheduler does: nothing on an empty queue, and on any other it takes
one thread out of the queue and executes it. -/
theorem shortTerm_cases (s : SuseState ρ) :
    (s.queueReady = [] ∧ schedulerRunShortTermScheduler s = s) ∨
    ∃ i t, s.queueReady[i]? = some t ∧
      schedulerRunShortTermScheduler s =
        { schedulerExecuteThread { s with queueReady := s.queueReady.eraseIdx i } t with
          maxMultiprog := s.maxMultiprog + 1 } := by
  by_cases hnil : s.queueReady = []
  · exact .inl ⟨hnil, shortTerm_of_nil hnil⟩
  · obtain ⟨pre, t, post, h⟩ := exists_firstLeast (f := estimate s) hnil
    refine .inr ⟨pre.length, t, by simp [h.eq], ?_⟩
    rw [shortTerm_firstLeast h, h.eq, List.eraseIdx_append_of_length_le le_rfl, Nat.sub_self]
    rfl

end ShortTerm

/-! ## The operations on one thread -/

section Threads

variable {ρ : Type*}

/-- `scheduler_set_ready_thread`. -/
def schedulerSetReadyThread (s : SuseState ρ) (thread : ℕ) : SuseState ρ :=
  { s.setState thread .ready with queueReady := s.queueReady ++ [thread] }

/-- `scheduler_block_thread`. -/
def schedulerBlockThread (s : SuseState ρ) (thread : ℕ) : SuseState ρ :=
  { s.setState thread .blocked with queueBlocked := s.queueBlocked ++ [thread] }

/-- `_scheduler_find_program_by_id`. -/
def schedulerFindProgramById (s : SuseState ρ) (id : ℤ) : Option ℕ :=
  s.programs.find? fun p => decide (id = (s.program p).pid)

/-- `scheduler_finish_program`. -/
def schedulerFinishProgram (s : SuseState ρ) (program : ℕ) : SuseState ρ :=
  { s with
    program := fun p =>
      if p = program then { s.program program with state := .exit } else s.program p
    queueExit := s.queueExit ++ [program] }

/-- `scheduler_finish_thread`; a thread whose program is not in the list `programs` makes it
write through a null pointer. -/
def schedulerFinishThread (s : SuseState ρ) (thread : ℕ) : Option (SuseState ρ) :=
  let s := s.setState thread .exit
  (schedulerFindProgramById s (s.thread thread).pid).map (schedulerFinishProgram s)

/-- What `scheduler_finish_thread` leaves as it was. -/
theorem finishThread_frame {s s' : SuseState ρ} {t : ℕ} (h : schedulerFinishThread s t = some s') :
    s'.queueNew = s.queueNew ∧ s'.queueReady = s.queueReady ∧
      s'.queueBlocked = s.queueBlocked ∧ s'.threadExec = s.threadExec ∧
      s'.maxMultiprog = s.maxMultiprog := by
  obtain ⟨p, -, rfl⟩ := Option.map_eq_some_iff.1 h
  exact ⟨rfl, rfl, rfl, rfl, rfl⟩

end Threads

/-! ## Steps -/

/-- The operations, with the thread that three of them are applied to. -/
inductive Operation
  | longTerm
  | shortTerm
  | block (t : ℕ)
  | setReady (t : ℕ)
  | finish (t : ℕ)
  deriving DecidableEq, Repr

section Steps

variable {ρ : Type*} [LinearOrder ρ] [Add ρ] [Sub ρ] [Mul ρ] [Zero ρ] [One ρ] [IntCast ρ]

/-- The operation, where it may be applied: `block` and `finish` to the executing thread,
`setReady` to a blocked one. -/
def execute (s : SuseState ρ) : Operation → Option (SuseState ρ)
  | .longTerm => some (schedulerRunLongTermScheduler s)
  | .shortTerm => some (schedulerRunShortTermScheduler s)
  | .block t => if s.threadExec = some t then some (schedulerBlockThread s t) else none
  | .setReady t => if t ∈ s.queueBlocked then some (schedulerSetReadyThread s t) else none
  | .finish t => if s.threadExec = some t then schedulerFinishThread s t else none

/-- One operation of the scheduler. -/
def SuseStep (s : SuseState ρ) (o : Operation) (s' : SuseState ρ) : Prop := execute s o = some s'

theorem SuseStep.deterministic : Deterministic (SuseStep (ρ := ρ)) := by
  intro s o s₁ s₂ h₁ h₂
  exact Option.some.inj (h₁.symm.trans h₂)

theorem suseStep_longTerm {s s' : SuseState ρ} :
    SuseStep s .longTerm s' ↔ s' = schedulerRunLongTermScheduler s := by
  simp [SuseStep, execute, eq_comm]

theorem suseStep_shortTerm {s s' : SuseState ρ} :
    SuseStep s .shortTerm s' ↔ s' = schedulerRunShortTermScheduler s := by
  simp [SuseStep, execute, eq_comm]

theorem suseStep_block {s s' : SuseState ρ} {t : ℕ} :
    SuseStep s (.block t) s' ↔ s.threadExec = some t ∧ s' = schedulerBlockThread s t := by
  simp [SuseStep, execute, eq_comm]

theorem suseStep_setReady {s s' : SuseState ρ} {t : ℕ} :
    SuseStep s (.setReady t) s' ↔ t ∈ s.queueBlocked ∧ s' = schedulerSetReadyThread s t := by
  simp [SuseStep, execute, eq_comm]

theorem suseStep_finish {s s' : SuseState ρ} {t : ℕ} :
    SuseStep s (.finish t) s' ↔
      s.threadExec = some t ∧ schedulerFinishThread s t = some s' := by
  simp [SuseStep, execute]

end Steps

/-- What a run starts from: threads placed in `queue_new`, each once, in a scheduler that has
done nothing yet. -/
structure Load (ρ : Type*) where
  threads : List ℕ
  nodup : threads.Nodup
  thread : ℕ → TThread
  programs : List ℕ
  program : ℕ → TProgram
  maxMultiprog : ℤ
  alphaSjf : ρ

/-- The state after `scheduler_init` and the placing of the threads. -/
def Load.start {ρ : Type*} (c : Load ρ) : SuseState ρ where
  queueNew := c.threads
  queueReady := []
  queueBlocked := []
  queueExit := []
  programs := c.programs
  threadExec := none
  thread := c.thread
  program := c.program
  maxMultiprog := c.maxMultiprog
  alphaSjf := c.alphaSjf

/-- The threads that a run has finished. -/
def finishedThreads (os : List Operation) : List ℕ :=
  os.filterMap fun o => match o with
    | .finish t => some t
    | _ => none

end Threaders.Suse
