import Mathlib.Tactic.Linarith
import Threaders.Suse.Conservation

/-!
# The degree of multiprogramming of SUSE

`suse_config->max_multiprog` is at once the configured limit and a counter: the long-term
scheduler decrements it for every thread it admits and the short-term one increments it for
every thread it dispatches, which has not finished then.  So the first dispatch puts the
counter wrong, and a limit of 0 admits a thread, since the size of `queue_ready` is compared
with `<=`.

## Main definitions

* `admitted` — the number of threads admitted from `queue_new` and not finished.
* `RespectsLimit` — the limit and what the counter should say.
* `multiprogramming_limit` — the runs that keep both.
-/

namespace Threaders.Suse

open Lib

section

variable {ρ : Type*}

/-- The number of threads that have left `queue_new` and have not finished. -/
def admitted (c : Load ρ) (os : List Operation) (s : SuseState ρ) : ℕ :=
  (c.threads.filter fun t => t ∉ s.queueNew ∧ t ∉ finishedThreads os).length

/-- The admitted threads do not exceed the configured limit and the counter is what is left
of it. -/
def RespectsLimit (c : Load ρ) (os : List Operation) (s : SuseState ρ) : Prop :=
  (admitted c os s : ℤ) ≤ c.maxMultiprog ∧
    s.maxMultiprog = c.maxMultiprog - admitted c os s

/-- The operations that keep the limit and the counter: the long-term scheduler when nobody is
new or the limit is not 0, and the short-term one when it has nobody to dispatch. -/
def KeepsLimit (c : Load ρ) (s : SuseState ρ) : Operation → Prop
  | .longTerm => s.queueNew = [] ∨ 0 < c.maxMultiprog
  | .shortTerm => s.queueReady = []
  | _ => True

/-- The invariant of the runs that dispatch nobody. -/
structure Undispatched (c : Load ρ) (os : List Operation) (s : SuseState ρ) : Prop where
  distributed : Distributed c os s
  exec : s.threadExec = none
  counter : s.maxMultiprog + s.queueReady.length = c.maxMultiprog
  bound : (s.queueReady.length : ℤ) ≤ c.maxMultiprog

variable {c : Load ρ} {os : List Operation} {s s' : SuseState ρ}

/-- The admitted threads are the executing one and those of `queue_ready`. -/
theorem Distributed.admitted_eq (h : Distributed c os s) :
    admitted c os s = s.threadExec.toList.length + s.queueReady.length := by
  have hout : ∀ t ∈ s.threadExec.toList ++ s.queueReady, t ∉ s.queueNew := by
    intro t ht hnew
    rcases List.mem_append.1 ht with hexec | hready
    · exact (h.exec_not_mem (Option.mem_toList.1 hexec)).1 hnew
    · exact (List.nodup_append.1 (List.nodup_append.1 h.nodup).2.1).2.2 t hnew t hready rfl
  have hfilter : ∀ ts : List ℕ, (∀ t ∈ ts, t ∉ s.queueNew) →
      ts.filter (fun t => t ∉ s.queueNew ∧ t ∉ finishedThreads os) = ts := by
    intro ts hts
    rw [List.filter_eq_self]
    intro t ht
    simp [hts t ht, h.finished]
  have hnew : s.queueNew.filter (fun t => t ∉ s.queueNew ∧ t ∉ finishedThreads os) = [] := by
    rw [List.filter_eq_nil_iff]
    intro t ht
    simp [ht]
  unfold admitted
  rw [← (h.perm.filter _).length_eq, List.filter_append, List.filter_append, hnew,
    hfilter _ fun t ht => hout t (List.mem_append_left _ ht),
    hfilter _ fun t ht => hout t (List.mem_append_right _ ht), List.nil_append,
    List.length_append]

theorem Undispatched.respectsLimit (h : Undispatched c os s) : RespectsLimit c os s := by
  have hadm := h.distributed.admitted_eq
  rw [h.exec, Option.toList_none, List.length_nil, Nat.zero_add] at hadm
  have hcounter := h.counter
  refine ⟨hadm ▸ h.bound, ?_⟩
  rw [hadm]
  omega

theorem Undispatched.start (hM : 0 ≤ c.maxMultiprog) : Undispatched c [] c.start where
  distributed := .start c
  exec := rfl
  counter := by simp [Load.start]
  bound := by simpa [Load.start] using hM

/-- With a limit above 0 the long-term scheduler admits only while twice the size of
`queue_ready` does not exceed it. -/
theorem undispatched_longTerm (h : Undispatched c os s)
    (hC : KeepsLimit c s .longTerm) :
    Undispatched c (os ++ [.longTerm]) (schedulerRunLongTermScheduler s) := by
  rcases hC with hnil | hM
  · have hsame := distributed_longTerm h.distributed
    rw [longTerm_of_not s (.inl hnil)] at hsame ⊢
    exact ⟨hsame, h.exec, h.counter, h.bound⟩
  · have hcount : (schedulerRunLongTermScheduler s).maxMultiprog +
          (schedulerRunLongTermScheduler s).queueReady.length = c.maxMultiprog ∧
        ((schedulerRunLongTermScheduler s).queueReady.length : ℤ) ≤ c.maxMultiprog := by
      apply longTerm_induction (P := fun u =>
        u.maxMultiprog + u.queueReady.length = c.maxMultiprog ∧
          (u.queueReady.length : ℤ) ≤ c.maxMultiprog)
      · rintro u i t ⟨hcounter, hbound⟩ _ hle
        simp only [SuseState.moveToReady, List.length_append, List.length_singleton]
        push_cast
        omega
      · exact ⟨h.counter, h.bound⟩
    exact ⟨distributed_longTerm h.distributed, (longTerm_frame s).2.2.trans h.exec,
      hcount.1, hcount.2⟩

/-- With a limit of 0 the long-term scheduler admits a new thread. -/
theorem longTerm_exceeds (hM : 0 ≤ c.maxMultiprog) (h : Undispatched c os s)
    (hP : RespectsLimit c (os ++ [.longTerm]) (schedulerRunLongTermScheduler s)) :
    KeepsLimit c s .longTerm := by
  by_contra hcon
  obtain ⟨hne, hpos⟩ := not_or.1 hcon
  obtain ⟨t, ts, hts⟩ := List.exists_cons_of_ne_nil hne
  have hcounter := h.counter
  have hbound := h.bound
  have hmem := longTerm_admits hts (by omega)
  have hready := List.length_pos_of_mem hmem
  have hlim := hP.1
  rw [(distributed_longTerm h.distributed).admitted_eq] at hlim
  omega

end

section

variable {ρ : Type*} [LinearOrder ρ] [Add ρ] [Sub ρ] [Mul ρ] [Zero ρ] [One ρ] [IntCast ρ]
variable {c : Load ρ} {os : List Operation} {s s' : SuseState ρ}

/-- A dispatch increments the counter although the thread is still admitted. -/
theorem shortTerm_miscounts (h : Undispatched c os s)
    (hP : RespectsLimit c (os ++ [.shortTerm]) (schedulerRunShortTermScheduler s)) :
    KeepsLimit c s .shortTerm := by
  have hrep := distributed_shortTerm h.distributed (.inr h.exec)
  rcases shortTerm_cases s with ⟨hnil, -⟩ | ⟨i, t, hi, heq⟩
  · exact hnil
  · exfalso
    obtain ⟨hlt, -⟩ := List.getElem?_eq_some_iff.1 hi
    have hcount := hP.2
    have hcounter := h.counter
    have hlen := List.length_eraseIdx_of_lt hlt
    rw [hrep.admitted_eq, heq] at hcount
    simp only [schedulerExecuteThread, Option.toList_some, List.length_singleton,
      SuseState.setState_queueReady] at hcount
    omega

theorem undispatched_shortTerm (h : Undispatched c os s) (hC : s.queueReady = []) :
    Undispatched c (os ++ [.shortTerm]) (schedulerRunShortTermScheduler s) := by
  have hrep := distributed_shortTerm h.distributed (.inl hC)
  rcases shortTerm_cases s with ⟨-, heq⟩ | ⟨i, t, hi, -⟩
  · rw [heq] at hrep ⊢
    exact ⟨hrep, h.exec, h.counter, h.bound⟩
  · simp [hC] at hi

/-- The step lemma of the limit. -/
theorem undispatched_step (hM : 0 ≤ c.maxMultiprog) {o : Operation} (h : Undispatched c os s)
    (hstep : SuseStep s o s') :
    (KeepsLimit c s o → Undispatched c (os ++ [o]) s') ∧
      (RespectsLimit c (os ++ [o]) s' → KeepsLimit c s o) := by
  cases o with
  | longTerm =>
      rw [suseStep_longTerm.1 hstep]
      exact ⟨undispatched_longTerm h, longTerm_exceeds hM h⟩
  | shortTerm =>
      rw [suseStep_shortTerm.1 hstep]
      exact ⟨undispatched_shortTerm h, shortTerm_miscounts h⟩
  | block t =>
      have ht := (suseStep_block.1 hstep).1
      simp [h.exec] at ht
  | setReady t =>
      have ht := (suseStep_setReady.1 hstep).1
      simp [h.distributed.blocked] at ht
  | finish t =>
      have ht := (suseStep_finish.1 hstep).1
      simp [h.exec] at ht

/-- The runs that never admit more than the limit and whose counter is always right are those
that dispatch no thread and, with a limit of 0, admit none. -/
theorem multiprogramming_limit (c : Load ρ) (hM : 0 ≤ c.maxMultiprog) {os : List Operation}
    {s : SuseState ρ} (h : Run SuseStep c.start os s) :
    Along SuseStep (RespectsLimit c) c.start os ↔
      EachStep SuseStep (KeepsLimit c) c.start os := by
  rw [along_iff (I := Undispatched c) (C := KeepsLimit c) SuseStep.deterministic
    (fun _ _ hI => hI.respectsLimit) (fun _ => Undispatched.start hM)
    (fun _ _ _ _ hI hstep => undispatched_step hM hI hstep) h]
  exact and_iff_right (Undispatched.start hM).respectsLimit

end

/-- Admitting the only thread keeps a limit of 2. -/
theorem multiprogramming_limit_one :
    Along SuseStep (RespectsLimit loadOne) loadOne.start ([] ++ [.longTerm]) := by
  have hrun : Run SuseStep loadOne.start ([] ++ [.longTerm])
      (schedulerRunLongTermScheduler loadOne.start) := .single rfl
  refine (multiprogramming_limit loadOne (by decide) hrun).2 ?_
  exact (eachStep_snoc SuseStep.deterministic (.nil _)).2 ⟨eachStep_nil, .inr (by decide)⟩

/-! ## A run that exceeds the limit -/

/-- Two threads and a limit of 1. -/
def loadTwo : Load ℤ where
  threads := [0, 1]
  nodup := by decide
  thread := fun _ => programCreateThread 0 1 0
  programs := [0]
  program := fun _ => ⟨1, .new⟩
  maxMultiprog := 1
  alphaSjf := 1

/-- Admit one thread, dispatch it, admitThreads the other: two are admitted and none has finished. -/
theorem limit_exceeded :
    ∃ s, Run SuseStep loadTwo.start [.longTerm, .shortTerm, .longTerm] s ∧
      ¬ RespectsLimit loadTwo [.longTerm, .shortTerm, .longTerm] s := by
  refine ⟨_, .cons rfl (.cons rfl (.cons rfl (.nil _))), fun h => ?_⟩
  exact absurd h.1 (by decide)

end Threaders.Suse
