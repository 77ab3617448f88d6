import Mathlib.Data.List.Nodup
import Mathlib.Data.Option.Basic
import Threaders.Suse.Multiprog
import Threaders.Suse.Selection

/-!
# When a program ends

`scheduler_finish_thread` finishes the program of its thread without a look at the other threads
of it, and nothing keeps a program from being finished again.  So a program enters `queue_exit`
once for each of its threads that finishes, with the first of them.

## Main definitions

* `ProgramStep` — an operation of the scheduler, `finish` on any thread.
* `ProgramEnds` — programs end with the last of their threads, and only once.
* `Alone` — a thread that is the only one of its program.
-/

namespace Threaders.Suse

open Lib

section
variable {ρ : Type*}

/-- `scheduler_destroy` hands the programs of `queue_exit` to `program_destroy` in turn. -/
def destroyedOfExit (s : SuseState ρ) : List ℕ := s.queueExit

/-- The program that `_scheduler_find_program_by_id` finds for a thread. -/
def programOf (c : Load ρ) (t : ℕ) : Option ℕ :=
  c.programs.find? fun p => decide ((c.thread t).pid = (c.program p).pid)

/-- A program that has entered `queue_exit` or the state `EXIT` has no unfinished thread, and
none is destroyed twice as an element of `queue_exit`. -/
structure ProgramEnds (c : Load ρ) (os : List Operation) (s : SuseState ρ) : Prop where
  inQueue : ∀ p ∈ s.queueExit, ∀ t ∈ c.threads, (c.thread t).pid = (c.program p).pid →
    t ∈ finishedThreads os
  inState : ∀ p, (s.program p).state = .exit → (c.program p).state ≠ .exit →
    ∀ t ∈ c.threads, (c.thread t).pid = (c.program p).pid → t ∈ finishedThreads os
  once : (destroyedOfExit s).Nodup

/-- The thread is the only one of its program. -/
def Alone (c : Load ρ) (t : ℕ) : Prop :=
  ∀ t' ∈ c.threads, (c.thread t').pid = (c.thread t).pid → t' = t

instance (c : Load ρ) (t : ℕ) : Decidable (Alone c t) :=
  inferInstanceAs (Decidable (∀ t' ∈ c.threads, _))

/-- What the operations leave of the load, and the programs that `finish` has put in
`queue_exit`. -/
structure Ending (c : Load ρ) (os : List Operation) (s : SuseState ρ) : Prop where
  programs : s.programs = c.programs
  pidThread : ∀ t, (s.thread t).pid = (c.thread t).pid
  pidProgram : ∀ p, (s.program p).pid = (c.program p).pid
  queue : (finishedThreads os).map (programOf c) = s.queueExit.map some
  state : ∀ p, (s.program p).state = .exit → (c.program p).state ≠ .exit → p ∈ s.queueExit

variable {c : Load ρ} {os : List Operation} {s s' : SuseState ρ} {t : ℕ}

theorem programOf_pid {p : ℕ} (h : programOf c t = some p) :
    (c.thread t).pid = (c.program p).pid := by
  have hfound := List.find?_some h
  exact of_decide_eq_true hfound

theorem programOf_congr {t' : ℕ} (h : (c.thread t').pid = (c.thread t).pid) :
    programOf c t' = programOf c t := by
  simp only [programOf, h]

namespace Ending

theorem start (c : Load ρ) : Ending c [] c.start where
  programs := rfl
  pidThread _ := rfl
  pidProgram _ := rfl
  queue := rfl
  state _ h hne := absurd h hne

/-- A finished thread has put its program in the queue. -/
theorem mem_queue (h : Ending c os s) (ht : t ∈ finishedThreads os) :
    ∃ p ∈ s.queueExit, programOf c t = some p := by
  have hmem := List.mem_map_of_mem (f := programOf c) ht
  rw [h.queue, List.mem_map] at hmem
  obtain ⟨p, hp, heq⟩ := hmem
  exact ⟨p, hp, heq.symm⟩

/-- A program in the queue has been put there by a finished thread. -/
theorem of_mem_queue (h : Ending c os s) {p : ℕ} (hp : p ∈ s.queueExit) :
    ∃ t ∈ finishedThreads os, programOf c t = some p := by
  have hmem := List.mem_map_of_mem (f := some) hp
  rw [← h.queue, List.mem_map] at hmem
  exact hmem

/-- Programs end as they should exactly when the finished threads are the only ones of
theirs. -/
theorem programEnds_iff (h : Ending c os s) (hnodup : (finishedThreads os).Nodup)
    (hthreads : ∀ t ∈ finishedThreads os, t ∈ c.threads) :
    ProgramEnds c os s ↔ ∀ t ∈ finishedThreads os, Alone c t := by
  constructor
  · intro hP t ht t' ht' hpid
    obtain ⟨p, hp, hprog⟩ := h.mem_queue ht
    have hfin := hP.inQueue p hp t' ht' (hpid.trans (programOf_pid hprog))
    have hmap : ((finishedThreads os).map (programOf c)).Nodup := by
      rw [h.queue]
      exact hP.once.map (Option.some_injective ℕ)
    exact List.inj_on_of_nodup_map hmap hfin ht (programOf_congr hpid)
  · intro halone
    have hqueue : ∀ p ∈ s.queueExit, ∀ t ∈ c.threads, (c.thread t).pid = (c.program p).pid →
        t ∈ finishedThreads os := by
      intro p hp t ht hpid
      obtain ⟨t₀, ht₀, hprog⟩ := h.of_mem_queue hp
      rw [halone t₀ ht₀ t ht (hpid.trans (programOf_pid hprog).symm)]
      exact ht₀
    refine ⟨hqueue, fun p hexit hne => hqueue p (h.state p hexit hne), ?_⟩
    have hmap : ((finishedThreads os).map (programOf c)).Nodup := by
      apply hnodup.map_on
      intro t ht t' ht' heq
      obtain ⟨p, -, hprog⟩ := h.mem_queue ht
      have hprog' : programOf c t' = some p := heq.symm.trans hprog
      exact halone t' ht' t (hthreads t ht)
        ((programOf_pid hprog).trans (programOf_pid hprog').symm)
    rw [h.queue] at hmap
    exact hmap.of_map

/-- An operation that finishes nobody and leaves the programs and the pids alone. -/
theorem frame {o : Operation} (h : Ending c os s) (hfin : finishedThreads [o] = [])
    (hprograms : s'.programs = s.programs) (hprogram : s'.program = s.program)
    (hexit : s'.queueExit = s.queueExit) (hpid : ∀ t, (s'.thread t).pid = (s.thread t).pid) :
    Ending c (os ++ [o]) s' where
  programs := hprograms.trans h.programs
  pidThread t := (hpid t).trans (h.pidThread t)
  pidProgram p := by rw [hprogram, h.pidProgram]
  queue := by rw [finishedThreads_snoc, hfin, List.append_nil, hexit, h.queue]
  state p hp hne := by
    rw [hprogram] at hp
    rw [hexit]
    exact h.state p hp hne

theorem pid_setState (s : SuseState ρ) (t : ℕ) (e : EStates) (t' : ℕ) :
    ((s.setState t e).thread t').pid = (s.thread t').pid := by
  simp only [SuseState.setState]
  split
  · next heq => rw [heq]
  · rfl

/-- The search finds the program of the load. -/
theorem find_eq (h : Ending c os s) (e : EStates) :
    schedulerFindProgramById (s.setState t e) ((s.setState t e).thread t).pid
      = programOf c t := by
  rw [schedulerFindProgramById, programOf, pid_setState, h.pidThread]
  simp only [SuseState.setState, h.programs, h.pidProgram]

/-- Finishing a thread puts its program in the queue. -/
theorem finish (h : Ending c os s) (hstep : schedulerFinishThread s t = some s') :
    Ending c (os ++ [.finish t]) s' := by
  obtain ⟨p, hfind, rfl⟩ := Option.map_eq_some_iff.mp hstep
  rw [h.find_eq] at hfind
  constructor
  · exact h.programs
  · intro t'
    exact (pid_setState s t .exit t').trans (h.pidThread t')
  · intro p'
    simp only [schedulerFinishProgram]
    split
    · next heq => rw [heq]; exact h.pidProgram p
    · exact h.pidProgram p'
  · rw [finishedThreads_snoc, List.map_append, h.queue]
    simp [finishedThreads, hfind, schedulerFinishProgram, SuseState.setState]
  · intro p' hp' hne
    simp only [schedulerFinishProgram] at hp' ⊢
    rw [List.mem_append, List.mem_singleton]
    by_cases heq : p' = p
    · exact Or.inr heq
    · rw [if_neg heq] at hp'
      exact Or.inl (h.state p' hp' hne)

end Ending

end

section
variable {ρ : Type*} [LinearOrder ρ] [Add ρ] [Sub ρ] [Mul ρ] [Zero ρ] [One ρ] [IntCast ρ]
  {c : Load ρ} {os : List Operation} {s s' : SuseState ρ}

/-- One operation of the scheduler; `finish` may come at any time and for any thread. -/
def ProgramStep (s : SuseState ρ) (o : Operation) (s' : SuseState ρ) : Prop :=
  match o with
  | .finish t => schedulerFinishThread s t = some s'
  | o => SuseStep s o s'

/-- The step lemma. -/
theorem Ending.step {o : Operation} (h : Ending c os s) (hstep : ProgramStep s o s') :
    Ending c (os ++ [o]) s' := by
  cases o with
  | longTerm =>
      obtain rfl := suseStep_longTerm.mp hstep
      rw [longTerm_eq]
      exact h.frame rfl rfl rfl rfl fun _ => rfl
  | shortTerm =>
      obtain rfl := suseStep_shortTerm.mp hstep
      rcases shortTerm_cases s with ⟨-, heq⟩ | ⟨i, t, -, heq⟩
      · rw [heq]
        exact h.frame rfl rfl rfl rfl fun _ => rfl
      · rw [heq]
        exact h.frame rfl rfl rfl rfl (Ending.pid_setState _ t .exec)
  | block t =>
      obtain ⟨-, rfl⟩ := suseStep_block.mp hstep
      exact h.frame rfl rfl rfl rfl (Ending.pid_setState s t .blocked)
  | setReady t =>
      obtain ⟨-, rfl⟩ := suseStep_setReady.mp hstep
      exact h.frame rfl rfl rfl rfl (Ending.pid_setState s t .ready)
  | finish t => exact h.finish hstep

/-- The run lemma. -/
theorem Ending.run (h : Run ProgramStep c.start os s) : Ending c os s := by
  induction os using List.reverseRecOn generalizing s with
  | nil =>
      obtain rfl := Run.nil_iff.mp h
      exact Ending.start c
  | append_singleton os o ih =>
      obtain ⟨u, hrun, hlast⟩ := Run.append_iff.mp h
      obtain ⟨s', hstep, hnil⟩ := Run.cons_iff.mp hlast
      obtain rfl := Run.nil_iff.mp hnil
      exact (ih hrun).step hstep

/-- **The end of a program.**  In every run, whatever the order in which threads are finished,
each once, the programs end with the last of their threads and only once if and only if every
finished thread is the only one of its program; and then they do so all along the run. -/
theorem program_ends_iff (c : Load ρ) {os : List Operation} {s : SuseState ρ}
    (h : Run ProgramStep c.start os s) (hnodup : (finishedThreads os).Nodup)
    (hthreads : ∀ t ∈ finishedThreads os, t ∈ c.threads) :
    (ProgramEnds c os s ↔ ∀ t ∈ finishedThreads os, Alone c t) ∧
      (Along ProgramStep (ProgramEnds c) c.start os ↔ ∀ t ∈ finishedThreads os, Alone c t) := by
  have hend := (Ending.run h).programEnds_iff hnodup hthreads
  refine ⟨hend, fun halong => hend.mp (halong os [] s (List.append_nil os).symm h), ?_⟩
  rintro halone fs gs u rfl hrun
  have hsub : ∀ t ∈ finishedThreads fs, t ∈ finishedThreads (fs ++ gs) := by
    intro t ht
    rw [finishedThreads, List.filterMap_append]
    exact List.mem_append_left _ ht
  have hfs : (finishedThreads fs).Nodup := by
    rw [finishedThreads, List.filterMap_append] at hnodup
    exact hnodup.of_append_left
  exact ((Ending.run hrun).programEnds_iff hfs fun t ht => hthreads t (hsub t ht)).mpr
    fun t ht => halone t (hsub t ht)

end

/-! ## A program of two threads -/

/-- The program of one thread ends with it. -/
theorem program_ends_one :
    ∃ s, Run ProgramStep loadOne.start [.longTerm, .shortTerm, .finish 0] s ∧
      ProgramEnds loadOne [.longTerm, .shortTerm, .finish 0] s := by
  have hfinish : (schedulerFinishThread loadOneExec 0).isSome = true := by decide
  obtain ⟨s, hs⟩ := Option.isSome_iff_exists.mp hfinish
  have hrun : Run ProgramStep loadOne.start [.longTerm, .shortTerm, .finish 0] s :=
    .cons rfl (.cons rfl (.cons hs (.nil s)))
  exact ⟨s, hrun, (program_ends_iff loadOne hrun (by decide) (by decide)).1.mpr (by decide)⟩

/-- A program of two threads is in `queue_exit` when the first has finished, and twice when both
have. -/
theorem program_destroyed_twice :
    (∃ s, Run ProgramStep loadTwo.start [.finish 0] s ∧ s.queueExit = [0] ∧
      ¬ ProgramEnds loadTwo [.finish 0] s) ∧
    ∃ s, Run ProgramStep loadTwo.start [.finish 0, .finish 1] s ∧
      destroyedOfExit s = [0, 0] ∧ ¬ ProgramEnds loadTwo [.finish 0, .finish 1] s := by
  constructor
  · refine ⟨_, .cons rfl (.nil _), rfl, fun h => ?_⟩
    exact absurd (h.inQueue 0 (by decide) 1 (by decide) (by decide)) (by decide)
  · refine ⟨_, .cons rfl (.cons rfl (.nil _)), rfl, fun h => ?_⟩
    exact absurd h.once (by decide)

end Threaders.Suse
