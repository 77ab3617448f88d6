import Threaders.Lib.ShortestFirst
import Threaders.Suse.Scheduler

/-!
# Shortest job first, over runs

As long as no thread becomes ready, the calls of the short-term scheduler dispatch the threads of
`queue_ready` in the order of their estimates, those with the same estimate in the order of the
queue.  No other order would make them wait less, if each ran for its estimate.

## Main definitions

* `dispatched` — the thread that an operation dispatches.
* `DispatchStep` — an operation with the thread that it dispatches.
* `Operation.NoArrival` — no thread becomes ready.
-/

namespace Threaders.Suse

open Lib

section Dispatch
variable {ρ : Type*} [LinearOrder ρ] [Add ρ] [Sub ρ] [Mul ρ] [Zero ρ] [One ρ] [IntCast ρ]

/-- The thread that an operation dispatches. -/
def dispatched (s : SuseState ρ) : Operation → Option ℕ
  | .shortTerm =>
      if s.queueReady = [] then none else (schedulerRunShortTermScheduler s).threadExec
  | _ => none

/-- An operation with the thread that it dispatches. -/
def DispatchStep (s : SuseState ρ) (e : Operation × Option ℕ) (s' : SuseState ρ) : Prop :=
  SuseStep s e.1 s' ∧ e.2 = dispatched s e.1

end Dispatch

/-- The operation makes no thread ready. -/
def Operation.NoArrival : Operation → Prop
  | .longTerm | .setReady _ => False
  | _ => True

theorem cpuTime_setState {ρ : Type*} (s : SuseState ρ) (t : ℕ) (x : EStates) (t' : ℕ) :
    ((s.setState t x).thread t').cpuTime = (s.thread t').cpuTime := by
  simp only [SuseState.setState]
  split
  · next heq => rw [heq]
  · rfl

section Run
variable {ρ : Type*} [LinearOrder ρ] [Add ρ] [Sub ρ] [Mul ρ] [Zero ρ] [One ρ] [IntCast ρ]
  {s s' : SuseState ρ} {e : Operation × Option ℕ} {es : List (Operation × Option ℕ)}

/-- Only the dispatched thread leaves the queue, and the estimates stay. -/
structure DispatchesFirst (s : SuseState ρ) (d : Option ℕ) (s' : SuseState ρ) : Prop where
  same : estimate s' = estimate s
  sublist : s'.queueReady.Sublist s.queueReady
  order : d.toList ++ byKey (estimate s) s'.queueReady
    = byKey (estimate s) s.queueReady

theorem DispatchesFirst.of_queue_eq (t : ℕ) (x : EStates)
    (hthread : s'.thread = (s.setState t x).thread)
    (halpha : s'.alphaSjf = s.alphaSjf) (hready : s'.queueReady = s.queueReady) :
    DispatchesFirst s none s' where
  same := by
    funext t'
    rw [estimate, estimate, hthread, cpuTime_setState]
    rw [schedulerCalculateExponentialMean, schedulerCalculateExponentialMean, halpha]
  sublist := hready ▸ List.Sublist.refl _
  order := by rw [hready]; rfl

/-- What one operation takes out of the queue. -/
theorem DispatchStep.dispatches (h : DispatchStep s e s') (harrival : e.1.NoArrival) :
    DispatchesFirst s e.2 s' := by
  obtain ⟨o, d⟩ := e
  obtain ⟨hstep, rfl⟩ : SuseStep s o s' ∧ d = dispatched s o := h
  cases o with
  | longTerm => exact harrival.elim
  | setReady t => exact harrival.elim
  | block t =>
      obtain ⟨-, rfl⟩ := suseStep_block.mp hstep
      exact .of_queue_eq t .blocked rfl rfl rfl
  | finish t =>
      obtain ⟨p, -, rfl⟩ := Option.map_eq_some_iff.mp (suseStep_finish.mp hstep).2
      exact .of_queue_eq t .exit rfl rfl rfl
  | shortTerm =>
      obtain rfl := suseStep_shortTerm.mp hstep
      by_cases hnil : s.queueReady = []
      · rw [dispatched, if_pos hnil, shortTerm_of_nil hnil]
        exact ⟨rfl, .refl _, rfl⟩
      · obtain ⟨pre, t, post, hfirst⟩ := exists_firstLeast (f := estimate s) hnil
        rw [dispatched, if_neg hnil, shortTerm_firstLeast hfirst]
        refine ⟨?_, ?_, ?_⟩
        · funext t'
          rw [estimate, estimate]
          exact congrArg _ (cpuTime_setState s t .exec t')
        · rw [hfirst.eq]
          exact (List.sublist_cons_self t post).append_left pre
        · exact hfirst.byKey_eq.symm

/-- What a run without arrivals takes out of the queue. -/
theorem dispatches_run (h : Run DispatchStep s es s') (harrival : ∀ e ∈ es, e.1.NoArrival) :
    estimate s' = estimate s ∧ s'.queueReady.Sublist s.queueReady ∧
      es.filterMap Prod.snd ++ byKey (estimate s) s'.queueReady
        = byKey (estimate s) s.queueReady := by
  induction h with
  | nil s => exact ⟨rfl, .refl _, rfl⟩
  | @cons s u s' e es hstep _ ih =>
      have hfirst := hstep.dispatches (harrival e List.mem_cons_self)
      obtain ⟨hest, hsub, horder⟩ := ih fun e he => harrival e (List.mem_cons_of_mem _ he)
      rw [hfirst.same] at hest horder
      refine ⟨hest, hsub.trans hfirst.sublist, ?_⟩
      rw [← hfirst.order, ← horder, ← List.append_assoc, List.filterMap_cons]
      cases e.2 <;> rfl

end Run

section Waiting
variable {ρ : Type*} [CommRing ρ] [LinearOrder ρ] [IsStrictOrderedRing ρ]

/-- **Shortest job first.**  In a run in which no thread becomes ready, the threads dispatched,
followed by those still in `queue_ready` in the order of their estimates, are the threads of the
first `queue_ready` in the order of their estimates, a tie kept as it was; and once the queue is
empty no other order of dispatch would have made them wait less in total. -/
theorem sjf_waits_least {s s' : SuseState ρ} {es : List (Operation × Option ℕ)}
    (h : Run DispatchStep s es s') (harrival : ∀ e ∈ es, e.1.NoArrival) :
    es.filterMap Prod.snd ++ byKey (estimate s) s'.queueReady
        = byKey (estimate s) s.queueReady ∧
      s'.queueReady.Sublist s.queueReady ∧
      (s'.queueReady = [] → ∀ other, other.Perm s.queueReady →
        waiting (estimate s) (es.filterMap Prod.snd) ≤ waiting (estimate s) other) := by
  obtain ⟨-, hsub, horder⟩ := dispatches_run h harrival
  refine ⟨horder, hsub, fun hnil other hother => ?_⟩
  rw [hnil, byKey_nil, List.append_nil] at horder
  rw [horder]
  exact waiting_le_of_sorted (pairwise_byKey _ _) (hother.trans (byKey_perm _ _).symm)

end Waiting

/-- Three ready threads that have used the processor for 5, 2 and 2. -/
def threeReady : SuseState ℤ where
  queueNew := []
  queueReady := [0, 1, 2]
  queueBlocked := []
  queueExit := []
  programs := [0]
  threadExec := none
  thread := fun t => programCreateThread (if t = 0 then 5 else 2) 1 0
  program := fun _ => ⟨1, .new⟩
  maxMultiprog := 0
  alphaSjf := 1

/-- They are dispatched as 1, 2, 0 and wait for 6 in total, in the order of the queue for 12. -/
theorem sjf_waits_least_three :
    waiting (estimate threeReady) [1, 2, 0] ≤ waiting (estimate threeReady) [0, 1, 2] := by
  have hrun : Run DispatchStep threeReady
      [(.shortTerm, some 1), (.block 1, none), (.shortTerm, some 2), (.shortTerm, some 0)] _ :=
    .cons ⟨rfl, rfl⟩ (.cons ⟨rfl, rfl⟩ (.cons ⟨rfl, rfl⟩ (.single ⟨rfl, rfl⟩)))
  exact (sjf_waits_least hrun (by simp [Operation.NoArrival])).2.2 rfl _ (.refl _)

end Threaders.Suse
