import Mathlib.Algebra.Ring.Int.Defs
import Mathlib.Algebra.Order.Group.Int
import Threaders.Suse.Scheduler

/-!
# Where the threads of SUSE are

Each operation moves a thread by updating some of the queues, `thread_exec` and the state
field; none updates all of them.  So a thread that is blocked stays in `thread_exec`, one that
is dispatched over pushes the executing one out of every place, a finished one stays in
`thread_exec`, and a thread admitted by the long-term scheduler keeps the state it had.

## Main definitions

* `Place`, `AtPlace` — the places and who is in them.
* `ConservesPlaces`, `Conserves` — every unfinished thread in exactly one place, without and
  with the state fields.
* `thread_conservation` — the runs that keep each of the two.
-/

namespace Threaders.Suse

open Lib

/-- The places of an unfinished thread. -/
inductive Place
  | new | ready | blocked | exec
  deriving DecidableEq, Repr

/-- The state that belongs to a place. -/
def Place.state : Place → EStates
  | .new => .new
  | .ready => .ready
  | .blocked => .blocked
  | .exec => .exec

section

variable {ρ : Type*}

/-- The thread is in the place. -/
def AtPlace (s : SuseState ρ) (t : ℕ) : Place → Prop
  | .new => t ∈ s.queueNew
  | .ready => t ∈ s.queueReady
  | .blocked => t ∈ s.queueBlocked
  | .exec => s.threadExec = some t

/-- Every unfinished thread is in exactly one place, every finished one in none. -/
def ConservesPlaces (c : Load ρ) (os : List Operation) (s : SuseState ρ) : Prop :=
  ∀ t ∈ c.threads, (t ∉ finishedThreads os → ∃! l, AtPlace s t l) ∧
    (t ∈ finishedThreads os → ∀ l, ¬ AtPlace s t l)

/-- Moreover the state field of every thread is the one of its place. -/
structure Conserves (c : Load ρ) (os : List Operation) (s : SuseState ρ) : Prop where
  places : ConservesPlaces c os s
  state : ∀ t ∈ c.threads, ∀ l, AtPlace s t l → (s.thread t).state = l.state

/-- The invariant of the runs that keep the places: the threads are dealt out between
`thread_exec`, `queue_new` and `queue_ready`, and no thread was blocked or finished. -/
structure Distributed (c : Load ρ) (os : List Operation) (s : SuseState ρ) : Prop where
  perm : (s.threadExec.toList ++ (s.queueNew ++ s.queueReady)).Perm c.threads
  blocked : s.queueBlocked = []
  finished : finishedThreads os = []

theorem finishedThreads_snoc (os : List Operation) (o : Operation) :
    finishedThreads (os ++ [o]) = finishedThreads os ++ finishedThreads [o] :=
  List.filterMap_append

namespace Distributed

variable {c : Load ρ} {os : List Operation} {s : SuseState ρ} {t : ℕ}

theorem nodup (h : Distributed c os s) :
    (s.threadExec.toList ++ (s.queueNew ++ s.queueReady)).Nodup :=
  h.perm.nodup_iff.2 c.nodup

theorem exec_mem (h : Distributed c os s) (ht : s.threadExec = some t) : t ∈ c.threads :=
  h.perm.subset (by simp [ht])

/-- The executing thread is in neither queue. -/
theorem exec_not_mem (h : Distributed c os s) (ht : s.threadExec = some t) :
    t ∉ s.queueNew ∧ t ∉ s.queueReady := by
  have hnd := h.nodup
  rw [ht, Option.toList_some, List.singleton_append, List.nodup_cons, List.mem_append] at hnd
  exact not_or.1 hnd.1

theorem conservesPlaces (h : Distributed c os s) : ConservesPlaces c os s := by
  intro t ht
  rw [h.finished]
  refine ⟨fun _ => ?_, fun hmem => absurd hmem List.not_mem_nil⟩
  have hblocked : t ∉ s.queueBlocked := by simp [h.blocked]
  have hqueues : ∀ u ∈ s.queueNew, u ∉ s.queueReady :=
    fun u hu hu' => (List.nodup_append.1 (List.nodup_append.1 h.nodup).2.1).2.2 u hu u hu' rfl
  have hmem := h.perm.symm.subset ht
  rw [List.mem_append, Option.mem_toList, List.mem_append] at hmem
  rcases hmem with hexec | hnew | hready
  · have hout := h.exec_not_mem hexec
    refine ⟨.exec, hexec, fun l hl => ?_⟩
    cases l with
    | new => exact absurd hl hout.1
    | ready => exact absurd hl hout.2
    | blocked => exact absurd hl hblocked
    | exec => rfl
  · refine ⟨.new, hnew, fun l hl => ?_⟩
    cases l with
    | new => rfl
    | ready => exact absurd hl (hqueues t hnew)
    | blocked => exact absurd hl hblocked
    | exec => exact absurd hnew (h.exec_not_mem hl).1
  · refine ⟨.ready, hready, fun l hl => ?_⟩
    cases l with
    | new => exact absurd hready (hqueues t hl)
    | ready => rfl
    | blocked => exact absurd hl hblocked
    | exec => exact absurd hready (h.exec_not_mem hl).2

theorem start (c : Load ρ) : Distributed c [] c.start where
  perm := by simp [Load.start]
  blocked := rfl
  finished := rfl

end Distributed

/-! ## The operations that dispatch nobody -/

variable {c : Load ρ} {os : List Operation} {s s' : SuseState ρ} {t : ℕ}

theorem distributed_longTerm (h : Distributed c os s) :
    Distributed c (os ++ [.longTerm]) (schedulerRunLongTermScheduler s) := by
  obtain ⟨-, hblocked, hexec⟩ := longTerm_frame s
  constructor
  · rw [hexec]
    exact ((longTerm_perm s).append_left _).trans h.perm
  · exact hblocked.trans h.blocked
  · rw [finishedThreads_snoc, h.finished]
    rfl

/-- A blocked thread is still the executing one. -/
theorem block_duplicates (h : Distributed c os s) (ht : s.threadExec = some t) :
    ¬ ConservesPlaces c (os ++ [.block t]) (schedulerBlockThread s t) := by
  intro hP
  have hfin : t ∉ finishedThreads (os ++ [.block t]) := by
    rw [finishedThreads_snoc, h.finished]
    simp [finishedThreads]
  have hblocked : AtPlace (schedulerBlockThread s t) t .blocked :=
    List.mem_append_right _ (List.mem_singleton_self t)
  have heq := ((hP t (h.exec_mem ht)).1 hfin).unique hblocked (show AtPlace _ t .exec from ht)
  simp at heq

/-- A finished thread is still the executing one. -/
theorem finish_stays (h : Distributed c os s) (ht : s.threadExec = some t)
    (hs' : schedulerFinishThread s t = some s') :
    ¬ ConservesPlaces c (os ++ [.finish t]) s' := by
  intro hP
  obtain ⟨-, -, -, hexec, -⟩ := finishThread_frame hs'
  have hfin : t ∈ finishedThreads (os ++ [.finish t]) := by
    rw [finishedThreads_snoc]
    simp [finishedThreads]
  exact (hP t (h.exec_mem ht)).2 hfin .exec (hexec.trans ht)

theorem conserves_start_iff (c : Load ρ) :
    Conserves c [] c.start ↔ ∀ t ∈ c.threads, (c.thread t).state = .new := by
  constructor
  · intro h t ht
    exact h.state t ht .new ht
  · intro h
    refine ⟨(Distributed.start c).conservesPlaces, fun t ht l hl => ?_⟩
    cases l with
    | new => exact h t ht
    | ready => simp [AtPlace, Load.start] at hl
    | blocked => simp [AtPlace, Load.start] at hl
    | exec => simp [AtPlace, Load.start] at hl

/-- A thread that the long-term scheduler admits is not marked `READY`. -/
theorem longTerm_keeps_state (hnew : ∀ t ∈ c.threads, (c.thread t).state = .new)
    (hP : Conserves c os (schedulerRunLongTermScheduler c.start)) :
    c.threads = [] ∨ c.maxMultiprog < 0 := by
  by_contra hcon
  obtain ⟨hne, hm⟩ := not_or.1 hcon
  obtain ⟨t, ts, hts⟩ := List.exists_cons_of_ne_nil hne
  have ht : t ∈ c.threads := by simp [hts]
  have hready := longTerm_admits (s := c.start) hts (Int.not_lt.1 hm)
  have hstate := hP.state t ht .ready hready
  rw [(longTerm_frame c.start).1] at hstate
  have : EStates.new = .ready := (hnew t ht).symm.trans hstate
  simp at this

end

section

variable {ρ : Type*} [LinearOrder ρ] [Add ρ] [Sub ρ] [Mul ρ] [Zero ρ] [One ρ] [IntCast ρ]

/-- The operations that keep every thread in exactly one place: the long-term scheduler, and
the short-term scheduler when it has nobody to dispatch or nobody executes. -/
def KeepsPlaces (s : SuseState ρ) : Operation → Prop
  | .longTerm => True
  | .shortTerm => s.queueReady = [] ∨ s.threadExec = none
  | _ => False

/-! ## The step lemmas -/

variable {c : Load ρ} {os : List Operation} {s s' : SuseState ρ}

/-- A thread dispatched while nobody executes changes its place. -/
theorem distributed_shortTerm (h : Distributed c os s)
    (hm : KeepsPlaces s .shortTerm) :
    Distributed c (os ++ [.shortTerm]) (schedulerRunShortTermScheduler s) := by
  have hfin : finishedThreads (os ++ [.shortTerm]) = [] := by
    rw [finishedThreads_snoc, h.finished]
    rfl
  rcases shortTerm_cases s with ⟨-, heq⟩ | ⟨i, t, hi, heq⟩
  · rw [heq]
    exact ⟨h.perm, h.blocked, hfin⟩
  · obtain ⟨hlt, rfl⟩ := List.getElem?_eq_some_iff.1 hi
    have hexec : s.threadExec = none := by
      rcases hm with hnil | hexec
      · simp [hnil] at hlt
      · exact hexec
    have hperm := h.perm
    rw [hexec, Option.toList_none, List.nil_append] at hperm
    rw [heq]
    refine ⟨?_, h.blocked, hfin⟩
    have hmove : (s.queueReady[i] :: s.queueReady.eraseIdx i).Perm s.queueReady :=
      List.getElem_cons_eraseIdx_perm hlt
    exact (List.perm_middle.symm.trans (hmove.append_left _)).trans hperm

/-- A thread dispatched over the executing one leaves that one in no place. -/
theorem shortTerm_loses (h : Distributed c os s)
    (hP : ConservesPlaces c (os ++ [.shortTerm]) (schedulerRunShortTermScheduler s)) :
    KeepsPlaces s .shortTerm := by
  rcases shortTerm_cases s with ⟨hnil, -⟩ | ⟨i, t, hi, heq⟩
  · exact .inl hnil
  · cases hexec : s.threadExec with
    | none => exact .inr hexec
    | some t' =>
        exfalso
        obtain ⟨hnew, hready⟩ := h.exec_not_mem hexec
        have hfin : t' ∉ finishedThreads (os ++ [.shortTerm]) := by
          rw [finishedThreads_snoc, h.finished]
          simp [finishedThreads]
        obtain ⟨l, hl, -⟩ := (hP t' (h.exec_mem hexec)).1 hfin
        rw [heq] at hl
        cases l with
        | new => exact hnew hl
        | ready => exact hready (List.mem_of_mem_eraseIdx hl)
        | blocked =>
            have hmem : t' ∈ s.queueBlocked := hl
            simp [h.blocked] at hmem
        | exec =>
            obtain rfl : t = t' := Option.some.inj hl
            exact hready (List.mem_of_getElem? hi)

/-- The step lemma of the places. -/
theorem distributed_step {o : Operation} (h : Distributed c os s) (hstep : SuseStep s o s') :
    (KeepsPlaces s o → Distributed c (os ++ [o]) s') ∧
      (ConservesPlaces c (os ++ [o]) s' → KeepsPlaces s o) := by
  cases o with
  | longTerm =>
      rw [suseStep_longTerm.1 hstep]
      exact ⟨fun _ => distributed_longTerm h, fun _ => trivial⟩
  | shortTerm =>
      rw [suseStep_shortTerm.1 hstep]
      exact ⟨distributed_shortTerm h, shortTerm_loses h⟩
  | block t =>
      obtain ⟨ht, rfl⟩ := suseStep_block.1 hstep
      exact ⟨False.elim, fun hP => block_duplicates h ht hP⟩
  | setReady t =>
      have ht := (suseStep_setReady.1 hstep).1
      simp [h.blocked] at ht
  | finish t =>
      obtain ⟨ht, hs'⟩ := suseStep_finish.1 hstep
      exact ⟨False.elim, fun hP => finish_stays h ht hs' hP⟩

/-- The step lemma of the state fields: as long as they are right nothing has moved. -/
theorem conserves_step {o : Operation} (hnew : ∀ t ∈ c.threads, (c.thread t).state = .new)
    (hfin : finishedThreads os = []) (hstep : SuseStep c.start o s') :
    ((o = .longTerm → c.threads = [] ∨ c.maxMultiprog < 0) →
        s' = c.start ∧ finishedThreads (os ++ [o]) = []) ∧
      (Conserves c (os ++ [o]) s' → o = .longTerm → c.threads = [] ∨ c.maxMultiprog < 0) := by
  cases o with
  | longTerm =>
      rw [suseStep_longTerm.1 hstep]
      constructor
      · intro h
        rw [finishedThreads_snoc, hfin]
        exact ⟨longTerm_of_not _ (h rfl), rfl⟩
      · intro hP _
        exact longTerm_keeps_state hnew hP
  | shortTerm =>
      rw [suseStep_shortTerm.1 hstep]
      refine ⟨fun _ => ?_, by simp⟩
      rw [finishedThreads_snoc, hfin]
      exact ⟨rfl, rfl⟩
  | block t => simp [suseStep_block, Load.start] at hstep
  | setReady t => simp [suseStep_setReady, Load.start] at hstep
  | finish t => simp [suseStep_finish, Load.start] at hstep

/-! ## Every run -/

/-- The runs of the scheduler that keep every unfinished thread in exactly one place, with the
state field of its place, are those of threads marked `NEW` that none is ever admitted from;
the ones that keep the places alone are those without `block` and `finish` that dispatch only
while nobody executes. -/
theorem thread_conservation (c : Load ρ) {os : List Operation} {s : SuseState ρ}
    (h : Run SuseStep c.start os s) :
    (Along SuseStep (Conserves c) c.start os ↔
        (∀ t ∈ c.threads, (c.thread t).state = .new) ∧
          (c.threads = [] ∨ c.maxMultiprog < 0 ∨ .longTerm ∉ os)) ∧
      (Along SuseStep (ConservesPlaces c) c.start os ↔
        EachStep SuseStep KeepsPlaces c.start os) := by
  constructor
  · rw [along_iff (I := fun os s => s = c.start ∧ finishedThreads os = [] ∧
        ∀ t ∈ c.threads, (c.thread t).state = .new)
      (C := fun _ o => o = .longTerm → c.threads = [] ∨ c.maxMultiprog < 0)
      SuseStep.deterministic _ _ _ h, eachStep_label h, conserves_start_iff]
    · refine and_congr_right fun _ => ⟨fun hos => ?_, fun hos o ho hlong => ?_⟩
      · by_cases hmem : Operation.longTerm ∈ os
        · exact (hos _ hmem rfl).imp_right .inl
        · exact .inr (.inr hmem)
      · rcases hos with hnil | hneg | hmem
        · exact .inl hnil
        · exact .inr hneg
        · exact absurd (hlong ▸ ho) hmem
    · rintro fs s ⟨rfl, hfin, hnew⟩
      have hstart := (conserves_start_iff c).2 hnew
      refine ⟨fun t ht => ?_, hstart.state⟩
      rw [hfin]
      exact hstart.places t ht
    · intro hstart
      exact ⟨rfl, rfl, (conserves_start_iff c).1 hstart⟩
    · rintro fs o s s' ⟨rfl, hfin, hnew⟩ hstep
      obtain ⟨hkeep, hbreak⟩ := conserves_step hnew hfin hstep
      exact ⟨fun hC => ⟨(hkeep hC).1, (hkeep hC).2, hnew⟩, hbreak⟩
  · rw [along_iff (I := Distributed c) (C := KeepsPlaces) SuseStep.deterministic
      (fun _ _ hI => hI.conservesPlaces) (fun _ => Distributed.start c)
      (fun _ _ _ _ hI hstep => distributed_step hI hstep) h]
    exact and_iff_right (Distributed.start c).conservesPlaces

end

/-! ## A run that blocks -/

/-- One thread as `program_create_thread` leaves it. -/
def loadOne : Load ℤ where
  threads := [0]
  nodup := by decide
  thread := fun _ => programCreateThread 0 1 0
  programs := [0]
  program := fun _ => ⟨1, .new⟩
  maxMultiprog := 2
  alphaSjf := 1

/-- The state after admitting and dispatching it. -/
def loadOneExec : SuseState ℤ :=
  schedulerRunShortTermScheduler (schedulerRunLongTermScheduler loadOne.start)

theorem loadOne_run : Run SuseStep loadOne.start [.longTerm, .shortTerm] loadOneExec :=
  .cons rfl (.cons rfl (.nil _))

theorem loadOne_eachStep :
    EachStep SuseStep KeepsPlaces loadOne.start [.longTerm, .shortTerm] := by
  have hfirst : EachStep SuseStep KeepsPlaces loadOne.start ([] ++ [.longTerm]) :=
    (eachStep_snoc SuseStep.deterministic (.nil _)).2 ⟨eachStep_nil, trivial⟩
  have hrun : Run SuseStep loadOne.start [.longTerm]
      (schedulerRunLongTermScheduler loadOne.start) := .single rfl
  exact (eachStep_snoc SuseStep.deterministic hrun).2 ⟨hfirst, .inr rfl⟩

/-- Admitting and dispatching the thread keeps it in one place, but not its state field. -/
theorem thread_conservation_one :
    Along SuseStep (ConservesPlaces loadOne) loadOne.start [.longTerm, .shortTerm] ∧
      ¬ Along SuseStep (Conserves loadOne) loadOne.start [.longTerm, .shortTerm] := by
  obtain ⟨hall, hplaces⟩ := thread_conservation loadOne loadOne_run
  refine ⟨hplaces.2 loadOne_eachStep, fun h => ?_⟩
  have hnew := (hall.1 h).1 0 (by decide)
  simp [loadOne, programCreateThread] at hnew

/-- Then blocking it leaves it blocked and executing. -/
theorem thread_in_two_places :
    ∃ s, Run SuseStep loadOne.start ([.longTerm, .shortTerm] ++ [.block 0]) s ∧
      ¬ Conserves loadOne ([.longTerm, .shortTerm] ++ [.block 0]) s := by
  have hexec : loadOneExec.threadExec = some 0 := by decide
  refine ⟨_, loadOne_run.snoc (suseStep_block.2 ⟨hexec, rfl⟩), fun h => ?_⟩
  have hone := (h.places 0 (by decide)).1 (by decide)
  have hblocked : AtPlace (schedulerBlockThread loadOneExec 0) 0 .blocked :=
    List.mem_append_right _ (List.mem_singleton_self 0)
  have heq := hone.unique hblocked (show AtPlace _ 0 .exec from hexec)
  simp at heq

end Threaders.Suse
