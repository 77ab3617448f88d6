import Threaders.Hilolay.Ults

/-!
# The ready queue of the green threads

`lib_enqueue` and `lib_get_next_ult` are `push` and `pop` on the links of the TCBs, so
the queue is a list wherever its tail pointer is stale.  `Scheduled s q` adds what ties
the list to the states while an operation is under way, `ReadyQueue s q` what holds
between operations: exactly the READY TCBs are queued, the current one alone is RUNNING,
and the main one is never FREE.

## Main definitions

* `Scheduled`, `ReadyQueue` — the invariants.
* `QueueEffect` — what one operation does to the queue.
* `fifo_order` — the queue is served in order, whatever else happens meanwhile.
-/

namespace Threaders.Hilolay

open Lib

/-! ## The two queue primitives -/

section Primitives
variable (s : Globals) (ult : Ult)

theorem links_libEnqueue : (libEnqueue s ult).links = s.links.push ult := by
  cases hhead : s.readyQueueHead <;> cases htail : s.readyQueueTail <;>
    simp [libEnqueue, Links.push, Globals.links, hhead, htail]

@[simp] theorem state_libEnqueue :
    (libEnqueue s ult).state = Function.update s.state ult .ready := by
  cases hhead : s.readyQueueHead <;> cases htail : s.readyQueueTail <;>
    simp [libEnqueue, hhead, htail]

@[simp] theorem context_libEnqueue : (libEnqueue s ult).context = s.context := by
  cases hhead : s.readyQueueHead <;> cases htail : s.readyQueueTail <;>
    simp [libEnqueue, hhead, htail]

@[simp] theorem currentUlt_libEnqueue : (libEnqueue s ult).currentUlt = s.currentUlt := by
  cases hhead : s.readyQueueHead <;> cases htail : s.readyQueueTail <;>
    simp [libEnqueue, hhead, htail]

@[simp] theorem contexts_libEnqueue : (libEnqueue s ult).contexts = s.contexts := by
  cases hhead : s.readyQueueHead <;> cases htail : s.readyQueueTail <;>
    simp [libEnqueue, hhead, htail]

@[simp] theorem links_libSummarizeBurst (now : ℤ) :
    (libSummarizeBurst s now).links = s.links := by
  simp only [Globals.links, libSummarizeBurst, Globals.next_setTCB]
  rw [show (s.ults s.currentUlt).next = s.next s.currentUlt from rfl, Function.update_eq_self]
  rfl

@[simp] theorem state_libSummarizeBurst (now : ℤ) :
    (libSummarizeBurst s now).state = s.state :=
  (Globals.state_setTCB ..).trans (Function.update_eq_self s.currentUlt s.state)

@[simp] theorem context_libSummarizeBurst (now : ℤ) :
    (libSummarizeBurst s now).context = s.context :=
  (Globals.context_setTCB ..).trans (Function.update_eq_self s.currentUlt s.context)

@[simp] theorem currentUlt_libSummarizeBurst (now : ℤ) :
    (libSummarizeBurst s now).currentUlt = s.currentUlt := rfl

@[simp] theorem contexts_libSummarizeBurst (now : ℤ) :
    (libSummarizeBurst s now).contexts = s.contexts := rfl

variable {s ult}

/-- `lib_enqueue` appends. -/
theorem rep_libEnqueue {q : List Ult} (h : Rep s.links q) (hult : ult ∉ q) :
    Rep (libEnqueue s ult).links (q ++ [ult]) := by
  rw [links_libEnqueue]
  exact h.push hult

/-- `lib_get_next_ult` takes the head of the list off. -/
theorem rep_libGetNextUlt {q : List Ult} (h : Rep s.links q) :
    (libGetNextUlt s).1 = q.head? ∧ Rep (libGetNextUlt s).2.links q.tail := by
  have hhead : s.readyQueueHead = q.head? := h.head_eq
  cases q with
  | nil =>
      replace hhead : s.readyQueueHead = none := hhead
      exact ⟨by simp [libGetNextUlt, hhead], by simpa [libGetNextUlt, hhead] using h⟩
  | cons a q =>
      replace hhead : s.readyQueueHead = some a := hhead
      exact ⟨by simp [libGetNextUlt, hhead],
        by simpa [libGetNextUlt, hhead, Globals.links] using h.pop_cons.2⟩

end Primitives

/-! ## The invariants -/

/-- The queue while an operation is under way: the current ULT may have been set FREE. -/
structure Scheduled (s : Globals) (q : List Ult) : Prop where
  rep : Rep s.links q
  mem_iff : ∀ ult, ult ∈ q ↔ s.state ult = .ready
  eq_current : ∀ ult, s.state ult = .running → ult = s.currentUlt
  current : s.state s.currentUlt ≠ .ready

/-- The ready queue between operations. -/
structure ReadyQueue (s : Globals) (q : List Ult) : Prop extends Scheduled s q where
  running : s.state s.currentUlt = .running
  main_live : s.state mainUlt ≠ .free

namespace Scheduled

variable {s s' : Globals} {q : List Ult}

theorem current_not_mem (h : Scheduled s q) : s.currentUlt ∉ q :=
  fun hmem => h.current ((h.mem_iff _).mp hmem)

theorem nodup (h : Scheduled s q) : q.Nodup := h.rep.nodup

/-- The invariant speaks of the links, the states and the current ULT only. -/
theorem congr (h : Scheduled s q) (hlinks : s'.links = s.links) (hstate : s'.state = s.state)
    (hcurrent : s'.currentUlt = s.currentUlt) : Scheduled s' q where
  rep := hlinks ▸ h.rep
  mem_iff := hstate ▸ h.mem_iff
  eq_current := by rw [hstate, hcurrent]; exact h.eq_current
  current := by rw [hstate, hcurrent]; exact h.current

end Scheduled

namespace ReadyQueue

variable {s s' : Globals} {q q' : List Ult}

theorem unique (h : ReadyQueue s q) (h' : ReadyQueue s q') : q = q' := h.rep.unique h'.rep

theorem running_iff (h : ReadyQueue s q) (ult : Ult) :
    s.state ult = .running ↔ ult = s.currentUlt :=
  ⟨h.eq_current ult, fun heq => heq ▸ h.running⟩

theorem congr (h : ReadyQueue s q) (hlinks : s'.links = s.links) (hstate : s'.state = s.state)
    (hcurrent : s'.currentUlt = s.currentUlt) : ReadyQueue s' q where
  toScheduled := h.toScheduled.congr hlinks hstate hcurrent
  running := by rw [hstate, hcurrent]; exact h.running
  main_live := by rw [hstate]; exact h.main_live

/-- The main ULT runs or waits in the queue. -/
theorem main_mem (h : ReadyQueue s q) (hmain : s.currentUlt ≠ mainUlt) : mainUlt ∈ q := by
  rw [h.mem_iff]
  cases hstate : s.state mainUlt with
  | free => exact absurd hstate h.main_live
  | running => exact absurd (h.eq_current _ hstate).symm hmain
  | ready => rfl

end ReadyQueue

/-! ## `th_yield` -/

/-- What `th_yield` puts back in the queue: the current ULT, unless it has finished. -/
def requeued (s : Globals) : List Ult :=
  if s.state s.currentUlt = .free then [] else [s.currentUlt]

theorem mem_requeued {s : Globals} {ult : Ult} :
    ult ∈ requeued s ↔ ult = s.currentUlt ∧ s.state s.currentUlt ≠ .free := by
  by_cases hfree : s.state s.currentUlt = .free <;> simp [requeued, hfree]

section Requeue
variable (s : Globals)

@[simp] theorem currentUlt_requeueCurrent : (requeueCurrent s).currentUlt = s.currentUlt := by
  unfold requeueCurrent
  split <;> simp

@[simp] theorem context_requeueCurrent : (requeueCurrent s).context = s.context := by
  unfold requeueCurrent
  split <;> simp

@[simp] theorem contexts_requeueCurrent : (requeueCurrent s).contexts = s.contexts := by
  unfold requeueCurrent
  split <;> simp

theorem state_requeueCurrent (ult : Ult) : (requeueCurrent s).state ult =
    if ult ∈ requeued s then .ready else s.state ult := by
  by_cases hfree : s.state s.currentUlt = .free
  · simp [requeueCurrent, requeued, hfree]
  · by_cases hult : ult = s.currentUlt <;> simp [requeueCurrent, requeued, hfree, hult]

theorem rep_requeueCurrent {s : Globals} {q : List Ult} (h : Rep s.links q)
    (hcur : s.currentUlt ∉ q) : Rep (requeueCurrent s).links (q ++ requeued s) := by
  by_cases hfree : s.state s.currentUlt = .free
  · simpa [requeueCurrent, requeued, hfree] using h
  · simpa [requeueCurrent, requeued, hfree] using rep_libEnqueue h hcur

end Requeue

/-- With nobody waiting `th_yield` returns false and changes nothing. -/
theorem thYield_nil {s : Globals} (h : Scheduled s []) (t₁ t₂ : ℤ) :
    thYield s t₁ t₂ = (none, s) := by
  have hhead : s.readyQueueHead = none := h.rep.head_eq
  simp [thYield, libGetNextUlt, hhead]

/-- What `th_yield` leaves behind once the head `a` of the queue has been selected. -/
structure Dispatches (s : Globals) (a : Ult) (rest : List Ult) (s' : Globals) : Prop where
  rep : Rep s'.links (rest ++ requeued s)
  state : ∀ ult, s'.state ult =
    if ult = a then .running else if ult ∈ requeued s then .ready else s.state ult
  current : s'.currentUlt = a
  context : s'.context = s.context
  contexts : s'.contexts = s.contexts

/-- Otherwise it switches from the current ULT to the head of the queue. -/
theorem thYield_cons {s : Globals} {a : Ult} {rest : List Ult} (h : Scheduled s (a :: rest))
    (t₁ t₂ : ℤ) :
    ∃ s', thYield s t₁ t₂ = (some ⟨s.context s.currentUlt, s.context a⟩, s') ∧
      Dispatches s a rest s' := by
  have hhead : s.readyQueueHead = some a := h.rep.head_eq
  have hcur : s.currentUlt ∉ rest := fun hm => h.current_not_mem (List.mem_cons_of_mem a hm)
  have hrep : Rep (s.setHead (s.next a)).links rest := h.rep.pop_cons.2
  refine ⟨_, by simp [thYield, libGetNextUlt, hhead]; rfl, ?_, fun ult => ?_, rfl, ?_, ?_⟩
  · have hlinks := links_libSummarizeBurst (requeueCurrent (s.setHead (s.next a))) t₁
    have hreq : Rep (requeueCurrent (s.setHead (s.next a))).links (rest ++ requeued s) :=
      rep_requeueCurrent hrep hcur
    simp only [Globals.links, Links.mk.injEq] at hlinks
    simpa [Globals.links, hlinks] using hreq
  · have hstate : (requeueCurrent (s.setHead (s.next a))).state ult
        = if ult ∈ requeued s then .ready else s.state ult :=
      state_requeueCurrent (s.setHead (s.next a)) ult
    by_cases hult : ult = a <;> simp [hult, hstate]
  · simp
  · simp

namespace Dispatches

variable {s s' : Globals} {a : Ult} {rest : List Ult}

/-- `th_yield` neither frees a TCB nor takes a free one. -/
theorem free_iff (hd : Dispatches s a rest s') (h : Scheduled s (a :: rest)) (ult : Ult) :
    s'.state ult = .free ↔ s.state ult = .free := by
  rw [hd.state ult]
  split
  · next heq =>
      have hready := (h.mem_iff a).mp List.mem_cons_self
      simp [heq, hready]
  · split
    · next hmem =>
        obtain ⟨rfl, hfree⟩ := mem_requeued.mp hmem
        simp [hfree]
    · rfl

/-- The invariant between operations holds after a dispatch. -/
theorem readyQueue (hd : Dispatches s a rest s') (h : Scheduled s (a :: rest))
    (hmain : s.state mainUlt ≠ .free) : ReadyQueue s' (rest ++ requeued s) := by
  have hnodup := h.nodup
  obtain ⟨harest, -⟩ := List.nodup_cons.mp hnodup
  have hne : a ≠ s.currentUlt := fun heq => h.current_not_mem (heq ▸ List.mem_cons_self)
  have hrunning : s'.state a = .running := by simp [hd.state a]
  refine ⟨⟨hd.rep, fun ult => ?_, fun ult hrun => ?_, ?_⟩, ?_, ?_⟩
  · rw [List.mem_append, hd.state ult]
    split
    · next heq =>
        subst heq
        simp [mem_requeued, harest, hne]
    · next hua =>
        split
        · next hmem => simp [hmem]
        · next hmem => simpa [hmem, hua] using h.mem_iff ult
  · rw [hd.current]
    by_contra hua
    rw [hd.state ult, if_neg hua] at hrun
    split at hrun
    · cases hrun
    · next hmem =>
        refine hmem (mem_requeued.mpr ⟨h.eq_current ult hrun, fun hfree => ?_⟩)
        rw [h.eq_current ult hrun, hfree] at hrun
        cases hrun
  · rw [hd.current, hrunning]
    decide
  · rw [hd.current, hrunning]
  · rwa [Ne, hd.free_iff h]

end Dispatches

/-! ## `th_create` -/

section Create
variable (s : Globals) (ult : Ult)

@[simp] theorem state_thCreateContext : (thCreateContext s ult).state = s.state :=
  (Globals.state_setTCB ..).trans (Function.update_eq_self ult s.state)
@[simp] theorem next_thCreateContext : (thCreateContext s ult).next = s.next :=
  (Globals.next_setTCB ..).trans (Function.update_eq_self ult s.next)
@[simp] theorem context_thCreateContext :
    (thCreateContext s ult).context = Function.update s.context ult (some s.contexts) :=
  Globals.context_setTCB ..
@[simp] theorem readyQueueHead_thCreateContext :
    (thCreateContext s ult).readyQueueHead = s.readyQueueHead := rfl
@[simp] theorem readyQueueTail_thCreateContext :
    (thCreateContext s ult).readyQueueTail = s.readyQueueTail := rfl
@[simp] theorem currentUlt_thCreateContext :
    (thCreateContext s ult).currentUlt = s.currentUlt := rfl
@[simp] theorem contexts_thCreateContext : (thCreateContext s ult).contexts = s.contexts + 1 := rfl

@[simp] theorem state_writeNextTCB :
    (writeNextTCB s ult).state = Function.update s.state ult .ready := Globals.state_setTCB ..
@[simp] theorem next_writeNextTCB :
    (writeNextTCB s ult).next = Function.update s.next ult none := Globals.next_setTCB ..
@[simp] theorem context_writeNextTCB : (writeNextTCB s ult).context = s.context :=
  (Globals.context_setTCB ..).trans (Function.update_eq_self ult s.context)
@[simp] theorem readyQueueHead_writeNextTCB :
    (writeNextTCB s ult).readyQueueHead = s.readyQueueHead := rfl
@[simp] theorem readyQueueTail_writeNextTCB :
    (writeNextTCB s ult).readyQueueTail = s.readyQueueTail := rfl
@[simp] theorem currentUlt_writeNextTCB : (writeNextTCB s ult).currentUlt = s.currentUlt := rfl
@[simp] theorem contexts_writeNextTCB : (writeNextTCB s ult).contexts = s.contexts := rfl

@[simp] theorem currentUlt_thCreateAt : (thCreateAt s ult).currentUlt = s.currentUlt := by
  simp [thCreateAt]
@[simp] theorem contexts_thCreateAt : (thCreateAt s ult).contexts = s.contexts + 1 := by
  simp [thCreateAt]
@[simp] theorem state_thCreateAt :
    (thCreateAt s ult).state = Function.update s.state ult .ready := by
  simp [thCreateAt]
@[simp] theorem context_thCreateAt :
    (thCreateAt s ult).context = Function.update s.context ult (some s.contexts) := by
  simp [thCreateAt]

variable {s ult}

/-- Writing a TCB that is not queued leaves the queue alone. -/
theorem rep_writeNextTCB {q : List Ult} (h : Rep s.links q) (hult : ult ∉ q) :
    Rep (writeNextTCB (thCreateContext s ult) ult).links q := by
  refine h.congr rfl rfl fun a ha => ?_
  have hne : a ≠ ult := fun heq => hult (heq ▸ ha)
  simp [Globals.links, hne]

/-- `th_create` appends the new ULT. -/
theorem readyQueue_thCreateAt {q : List Ult} (h : ReadyQueue s q) (hfree : s.state ult = .free) :
    ReadyQueue (thCreateAt s ult) (q ++ [ult]) := by
  have hult : ult ∉ q := fun hmem => by simp [(h.mem_iff ult).mp hmem] at hfree
  have hcur : s.currentUlt ≠ ult := fun heq => by simp [← heq, h.running] at hfree
  refine ⟨⟨rep_libEnqueue (rep_writeNextTCB h.rep hult) hult, fun v => ?_, fun v hv => ?_, ?_⟩,
    ?_, ?_⟩
  · by_cases hv : v = ult <;> simp [hv, h.mem_iff v]
  · rcases eq_or_ne v ult with rfl | hne
    · simp at hv
    · rw [currentUlt_thCreateAt]
      exact h.eq_current v (by simpa [hne] using hv)
  · simp [hcur, h.running]
  · simp [hcur, h.running]
  · rcases eq_or_ne mainUlt ult with heq | hne
    · simp [heq]
    · simpa [hne] using h.main_live

end Create

theorem state_of_firstFree {s : Globals} {ult : Ult} (h : firstFree s = some ult) :
    s.state ult = .free := by
  simpa using List.find?_some h

theorem thCreate_of_none {s : Globals} (h : firstFree s = none) (t₁ t₂ : ℤ) :
    thCreate s t₁ t₂ = (none, none, s) := by
  unfold thCreate
  rw [h]

theorem thCreate_of_some {s : Globals} {ult : Ult} (h : firstFree s = some ult) (t₁ t₂ : ℤ) :
    thCreate s t₁ t₂ = (some ult, thYield (thCreateAt s ult) t₁ t₂) := by
  unfold thCreate
  rw [h]

/-! ## One operation -/

/-- The current ULT has given its TCB back. -/
structure Finished (s p : Globals) : Prop where
  links : p.links = s.links
  state : p.state = Function.update s.state s.currentUlt .free
  current : p.currentUlt = s.currentUlt
  context : p.context = s.context
  contexts : p.contexts = s.contexts

theorem finished_setState (s : Globals) : Finished s (s.setState s.currentUlt .free) :=
  ⟨by simp [Globals.links], by simp, by simp, by simp, by simp⟩

theorem finished_libSummarizeBurst (s : Globals) (now : ℤ) :
    Finished s ((libSummarizeBurst s now).setState s.currentUlt .free) := by
  have hlinks := links_libSummarizeBurst s now
  exact ⟨by rw [← hlinks]; simp [Globals.links], by simp, by simp, by simp, by simp⟩

/-- What an operation does before its `th_yield`: nothing, the creation of a ULT, or the
end of the current one. -/
inductive Prepares (s : Globals) (q : List Ult) : Globals → List Ult → Prop
  | keep : Prepares s q s q
  | create {ult : Ult} (hfree : s.state ult = .free) : Prepares s q (thCreateAt s ult) (q ++ [ult])
  | finish {p : Globals} (hmain : s.currentUlt ≠ mainUlt) (hfinished : Finished s p) :
      Prepares s q p q

namespace Prepares

variable {s p : Globals} {q q' : List Ult}

theorem scheduled (hp : Prepares s q p q') (h : ReadyQueue s q) : Scheduled p q' := by
  cases hp with
  | keep => exact h.toScheduled
  | create hfree => exact (readyQueue_thCreateAt h hfree).toScheduled
  | finish hmain hf =>
      refine ⟨hf.links ▸ h.rep, fun ult => ?_, fun ult hrun => ?_, by simp [hf.current, hf.state]⟩
      · rcases eq_or_ne ult s.currentUlt with rfl | hne
        · simpa [hf.state] using h.current_not_mem
        · simpa [hf.state, hne] using h.mem_iff ult
      · rcases eq_or_ne ult s.currentUlt with rfl | hne
        · exact hf.current.symm
        · rw [hf.current]
          exact h.eq_current ult (by simpa [hf.state, hne] using hrun)

theorem main_live (hp : Prepares s q p q') (h : ReadyQueue s q) : p.state mainUlt ≠ .free := by
  cases hp with
  | keep => exact h.main_live
  | create hfree => exact (readyQueue_thCreateAt h hfree).main_live
  | finish hmain hf => simpa [hf.state, hmain.symm] using h.main_live

theorem currentUlt_eq (hp : Prepares s q p q') : p.currentUlt = s.currentUlt := by
  cases hp with
  | keep => rfl
  | create => simp
  | finish hmain hf => exact hf.current

/-- Whatever is done first, the queue is at most extended. -/
theorem eq_append (hp : Prepares s q p q') : ∃ xs, q' = q ++ xs := by
  cases hp with
  | keep => exact ⟨[], by simp⟩
  | create hfree => exact ⟨_, rfl⟩
  | finish => exact ⟨[], by simp⟩

end Prepares

/-- A step either finds nobody to switch to and leaves the library as it was, or prepares
the queue and switches to its head. -/
inductive StepEffect (s : System) (q : List Ult) : Option Switch → System → Prop
  | stay {t : System} (hlib : t.lib = s.lib) (haborted : t.status ≠ .aborted)
      (hexited : t.status = .exited → s.lib.currentUlt = mainUlt ∧ q = []) : StepEffect s q none t
  | switch {t : System} {p : Globals} {a : Ult} {rest : List Ult}
      (hprepares : Prepares s.lib q p (a :: rest)) (hdispatches : Dispatches p a rest t.lib)
      (hstatus : t.status = .running) :
      StepEffect s q (some ⟨p.context s.lib.currentUlt, p.context a⟩) t

/-- Once the queue is prepared and not empty, the `th_yield` of an operation switches. -/
theorem Prepares.yields {s : Globals} {p : Globals} {q q' : List Ult} (hp : Prepares s q p q')
    (h : ReadyQueue s q) (hne : q' ≠ []) (t₁ t₂ : ℤ) :
    ∃ a rest s', q' = a :: rest ∧ Dispatches p a rest s' ∧
      thYield p t₁ t₂ = (some ⟨p.context s.currentUlt, p.context a⟩, s') := by
  obtain ⟨a, rest, rfl⟩ := List.exists_cons_of_ne_nil hne
  obtain ⟨s', hyield, hd⟩ := thYield_cons (hp.scheduled h) t₁ t₂
  exact ⟨a, rest, s', rfl, hd, by rw [hyield, hp.currentUlt_eq]⟩

/-- A `th_yield` of the running ULT, whether or not it finds somebody. -/
theorem yield_effect {s : System} {q : List Ult} (h : ReadyQueue s.lib q) (t₁ t₂ : ℤ)
    {t : System} (hlib : t.lib = (thYield s.lib t₁ t₂).2)
    (hswitch : (thYield s.lib t₁ t₂).1 ≠ none → t.status = .running)
    (hstay : (thYield s.lib t₁ t₂).1 = none → t.status ≠ .aborted)
    (hexited : (thYield s.lib t₁ t₂).1 = none → t.status = .exited →
      s.lib.currentUlt = mainUlt) :
    StepEffect s q (thYield s.lib t₁ t₂).1 t := by
  rcases q.eq_nil_or_concat' with hnil | ⟨_, _, hcons⟩
  · subst hnil
    rw [thYield_nil h.toScheduled] at hlib hstay hexited ⊢
    exact .stay hlib (hstay rfl) fun hex => ⟨hexited rfl hex, rfl⟩
  · obtain ⟨a, rest, s', rfl, hd, hyield⟩ :=
      (Prepares.keep (s := s.lib)).yields h (by simp [hcons]) t₁ t₂
    rw [hyield] at hlib hswitch ⊢
    exact .switch .keep (hlib ▸ hd) (hswitch (by simp))

/-- An operation that ends the current ULT gives the TCB back and yields; it must not
come back. -/
theorem exec_of_finishes {s : System} {op : Op} (hop : s.Finishes op) :
    ∃ p t₁ t₂, Finished s.lib p ∧ s.exec op = ((thYield p t₁ t₂).1,
      ⟨(thYield p t₁ t₂).2, s.draining,
        if (thYield p t₁ t₂).1 = none then .aborted else .running⟩) := by
  cases hop with
  | ret hmain t₁ t₂ =>
      exact ⟨_, t₁, t₂, finished_setState s.lib, by simp [System.exec, System.thReturn, hmain]⟩
  | stop hmain t₀ t₁ t₂ =>
      refine ⟨_, t₁, t₂, finished_libSummarizeBurst s.lib t₀, ?_⟩
      rw [System.exec, System.thReturn, if_neg (by simpa using hmain)]
      rfl

/-- A ULT that finishes finds the main one in the queue, so its `th_yield` switches. -/
theorem step_of_finishes {s t : System} {op : Op} {switch : Option Switch} {q : List Ult}
    (h : ReadyQueue s.lib q) (hop : s.Finishes op) (hstep : System.Step s (op, switch) t) :
    ∃ p a rest, q = a :: rest ∧ Finished s.lib p ∧ Dispatches p a rest t.lib ∧
      switch = some ⟨s.lib.context s.lib.currentUlt, s.lib.context a⟩ ∧ t.status = .running := by
  obtain ⟨p, t₁, t₂, hf, hexec⟩ := exec_of_finishes hop
  have hne : q ≠ [] := List.ne_nil_of_mem (h.main_mem hop.not_main)
  obtain ⟨a, rest, s', rfl, hd, hyield⟩ := (Prepares.finish hop.not_main hf).yields h hne t₁ t₂
  rw [hyield] at hexec
  obtain ⟨rfl, rfl⟩ := Prod.mk.inj (hexec.symm.trans hstep.2)
  exact ⟨p, a, rest, rfl, hf, hd, by rw [hf.context], by simp⟩

theorem finishes_effect {s t : System} {op : Op} {switch : Option Switch} {q : List Ult}
    (h : ReadyQueue s.lib q) (hop : s.Finishes op) (hstep : System.Step s (op, switch) t) :
    StepEffect s q switch t := by
  obtain ⟨p, a, rest, rfl, hf, hd, rfl, hstatus⟩ := step_of_finishes h hop hstep
  rw [← hf.context]
  exact .switch (.finish hop.not_main hf) hd hstatus

theorem step_effect {s t : System} {op : Op} {switch : Option Switch} {q : List Ult}
    (h : ReadyQueue s.lib q) (hstep : System.Step s (op, switch) t) :
    StepEffect s q switch t := by
  obtain ⟨⟨hstatus, -, hstop⟩, hexec⟩ := id hstep
  simp only at hexec hstop
  cases op with
  | create t₁ t₂ =>
      cases hfirst : firstFree s.lib with
      | none =>
          simp only [System.exec, thCreate_of_none hfirst] at hexec
          obtain ⟨rfl, rfl⟩ := Prod.mk.inj hexec
          exact .stay rfl (by simp [hstatus]) (by simp [hstatus])
      | some ult =>
          obtain ⟨a, rest, lib, hq, hd, hyield⟩ :=
            (Prepares.create (state_of_firstFree hfirst)).yields h (by simp) t₁ t₂
          simp only [System.exec, thCreate_of_some hfirst, hyield] at hexec
          obtain ⟨rfl, rfl⟩ := Prod.mk.inj hexec
          have hp : Prepares s.lib q (thCreateAt s.lib ult) (q ++ [ult]) :=
            .create (state_of_firstFree hfirst)
          exact .switch (hq ▸ hp) hd hstatus
  | yield t₁ t₂ =>
      obtain ⟨rfl, rfl⟩ : _ = switch ∧ _ = t := by simpa [System.exec] using hexec
      exact yield_effect h t₁ t₂ rfl (fun _ => hstatus) (fun _ => by simp [hstatus])
        fun _ hex => by simp [hstatus] at hex
  | ret t₁ t₂ =>
      by_cases hmain : s.lib.currentUlt = mainUlt
      · obtain ⟨rfl, rfl⟩ : _ = switch ∧ _ = t := by
          simpa [System.exec, System.thReturn, hmain] using hexec
        refine yield_effect h t₁ t₂ rfl (fun hsome => ?_) (fun hnone => ?_) fun _ _ => hmain
        · simp [hsome]
        · simp [hnone]
      · exact finishes_effect h (.ret hmain t₁ t₂) hstep
  | stop t₀ t₁ t₂ =>
      exact finishes_effect h (.stop (fun hmain => hstop hmain t₀ t₁ t₂ rfl) t₀ t₁ t₂) hstep

/-! ## Runs -/

/-- Every step keeps the invariant, and takes at most the head off the queue. -/
theorem ReadyQueue.step {s t : System} {label : Op × Option Switch} {q : List Ult}
    (h : ReadyQueue s.lib q) (hstep : System.Step s label t) :
    (label.2 = none ∧ ReadyQueue t.lib q) ∨
    (label.2 ≠ none ∧ ∃ xs ys a rest, q ++ xs = a :: rest ∧ t.lib.currentUlt = a ∧
      ReadyQueue t.lib (rest ++ ys)) := by
  obtain ⟨op, switch⟩ := label
  cases step_effect h hstep with
  | stay hlib => exact .inl ⟨rfl, hlib ▸ h⟩
  | switch hprepares hdispatches =>
      obtain ⟨xs, hxs⟩ := hprepares.eq_append
      exact .inr ⟨by simp, xs, _, _, _, hxs.symm, hdispatches.current,
        hdispatches.readyQueue (hprepares.scheduled h) (hprepares.main_live h)⟩

theorem readyQueue_libInit (now : ℤ) : ReadyQueue (libInit now) [] := by
  have hstate : ∀ ult, (libInit now).state ult = if ult = mainUlt then .running else .free := by
    intro ult
    by_cases hult : ult = mainUlt <;>
      simp [libInit, Globals.state, libWriteTCB, TCB.zero, hult]
  have hcurrent : (libInit now).currentUlt = mainUlt := rfl
  refine ⟨⟨⟨rfl, fun hne => absurd rfl hne⟩, fun ult => ?_, fun ult hrun => ?_, ?_⟩, ?_, ?_⟩
  · rw [hstate]
    split <;> simp
  · by_contra hne
    rw [hcurrent] at hne
    rw [hstate, if_neg hne] at hrun
    cases hrun
  · rw [hstate]
    split <;> simp
  · rw [hcurrent, hstate, if_pos rfl]
  · rw [hstate, if_pos rfl]
    simp

/-- The invariant holds in every state the process reaches. -/
theorem readyQueue_of_reachable {now : ℤ} {s : System}
    (hs : Reachable System.Step (System.init now) s) : ∃ q, ReadyQueue s.lib q := by
  refine hs.invariant (P := fun s => ∃ q, ReadyQueue s.lib q) ?_ ⟨[], readyQueue_libInit now⟩
  rintro s label t ⟨q, hq⟩ hstep
  rcases hq.step hstep with ⟨-, ht⟩ | ⟨-, xs, ys, a, rest, -, -, ht⟩
  · exact ⟨q, ht⟩
  · exact ⟨_, ht⟩

/-- The number of successful yields in a run. -/
def switches (labels : List (Op × Option Switch)) : ℕ := labels.countP fun label => label.2.isSome

/-- While at most as many yields succeed as there are ULTs ahead, a queued ULT moves up by
one place with each of them. -/
theorem position_of_run {s t : System} {labels : List (Op × Option Switch)}
    (hrun : Run System.Step s labels t) {as bs : List Ult} {ult : Ult}
    (h : ReadyQueue s.lib (as ++ ult :: bs)) (hle : switches labels ≤ as.length) :
    ∃ as' bs', ReadyQueue t.lib (as' ++ ult :: bs') ∧ as'.length + switches labels = as.length := by
  induction hrun generalizing as bs with
  | nil s => exact ⟨as, bs, h, rfl⟩
  | @cons s t u label labels hstep _ ih =>
      rcases h.step hstep with ⟨hnone, ht⟩ | ⟨hsome, xs, ys, a, rest, hq, -, ht⟩
      · have hcount : switches (label :: labels) = switches labels := by
          simp [switches, hnone]
        rw [hcount] at hle ⊢
        exact ih ht hle
      · have hcount : switches (label :: labels) = switches labels + 1 := by
          simp [switches, Option.isSome_iff_ne_none.mpr hsome]
        rw [hcount] at hle ⊢
        cases as with
        | nil => simp at hle
        | cons b as =>
            obtain ⟨-, rfl⟩ : b = a ∧ as ++ ult :: (bs ++ xs) = rest := by simpa using hq
            have hlen : switches labels ≤ as.length := by simpa using hle
            have hmoved : ReadyQueue t.lib (as ++ ult :: (bs ++ xs ++ ys)) := by simpa using ht
            obtain ⟨as', bs', hu, hcount'⟩ := ih hmoved hlen
            exact ⟨as', bs', hu, by rw [List.length_cons]; omega⟩

/-- The ULT at the head of the queue is the one a successful yield switches to. -/
theorem current_of_switch {s t : System} {label : Op × Option Switch} {ult : Ult} {bs : List Ult}
    (h : ReadyQueue s.lib (ult :: bs)) (hstep : System.Step s label t) (hlabel : label.2 ≠ none) :
    t.lib.currentUlt = ult := by
  rcases h.step hstep with ⟨hnone, -⟩ | ⟨-, xs, ys, a, rest, hq, hcurrent, -⟩
  · exact absurd hnone hlabel
  · obtain ⟨rfl, -⟩ : ult = a ∧ bs ++ xs = rest := by simpa using hq
    exact hcurrent

/-- The queue is served in order: a ULT with `as` ahead of it stays queued while at most
`as.length` yields succeed, and the next successful one runs it. -/
theorem fifo_order {s : System} {as bs : List Ult} {ult : Ult}
    (h : ReadyQueue s.lib (as ++ ult :: bs)) :
    (∀ labels t, Run System.Step s labels t → switches labels ≤ as.length →
      t.lib.state ult = .ready ∧ t.lib.currentUlt ≠ ult) ∧
    (∀ labels label t, Run System.Step s (labels ++ [label]) t →
      switches labels = as.length → label.2 ≠ none → t.lib.currentUlt = ult) := by
  constructor
  · intro labels t hrun hle
    obtain ⟨as', bs', ht, -⟩ := position_of_run hrun h hle
    have hmem : ult ∈ as' ++ ult :: bs' := by simp
    exact ⟨(ht.mem_iff ult).mp hmem, fun heq => ht.current_not_mem (heq ▸ hmem)⟩
  · intro labels label t hrun hcount hlabel
    obtain ⟨m, hrun, hlast⟩ := Run.append_iff.mp hrun
    obtain ⟨as', bs', hm, hlen⟩ := position_of_run hrun h hcount.le
    obtain rfl : as' = [] := List.eq_nil_of_length_eq_zero (by omega)
    cases hlast with
    | cons hstep hnil =>
        cases hnil
        exact current_of_switch hm hstep hlabel

/-- In every state the process reaches, the chain from `READY_QUEUE_HEAD` is a list without
repetition that holds exactly the READY TCBs and ends at `READY_QUEUE_TAIL`, the current
ULT alone is RUNNING and is not on it, and the list is served in order.  `lib_enqueue` and
`lib_get_next_ult` append to such a list and take its head. -/
theorem ready_queue_is_fifo {now : ℤ} {s : System}
    (hs : Reachable System.Step (System.init now) s) :
    (∃ q : List Ult,
      Chain s.lib.next s.lib.readyQueueHead q ∧ q.Nodup ∧
      (∀ ult, ult ∈ q ↔ s.lib.state ult = .ready) ∧
      (q ≠ [] → s.lib.readyQueueTail = q.getLast?) ∧
      (∀ ult, s.lib.state ult = .running ↔ ult = s.lib.currentUlt) ∧
      s.lib.currentUlt ∉ q ∧
      ∀ as ult bs, q = as ++ ult :: bs →
        (∀ labels t, Run System.Step s labels t → switches labels ≤ as.length →
          t.lib.state ult = .ready ∧ t.lib.currentUlt ≠ ult) ∧
        (∀ labels label t, Run System.Step s (labels ++ [label]) t →
          switches labels = as.length → label.2 ≠ none → t.lib.currentUlt = ult)) ∧
    (∀ (g : Globals) (q : List Ult), Rep g.links q →
      (∀ ult, ult ∉ q → Rep (libEnqueue g ult).links (q ++ [ult])) ∧
      (libGetNextUlt g).1 = q.head? ∧ Rep (libGetNextUlt g).2.links q.tail) := by
  obtain ⟨q, hq⟩ := readyQueue_of_reachable hs
  refine ⟨⟨q, hq.rep.chain, hq.nodup, hq.mem_iff, hq.rep.tail_eq, hq.running_iff,
    hq.current_not_mem, ?_⟩, fun g q hrep => ⟨fun ult hult => rep_libEnqueue hrep hult,
    rep_libGetNextUlt hrep⟩⟩
  rintro as ult bs rfl
  exact fifo_order hq

theorem ready_queue_is_fifo_after_create :
    ∃ q, Chain ((System.init 0).exec (.create 1 2)).2.lib.next
        ((System.init 0).exec (.create 1 2)).2.lib.readyQueueHead q ∧
      ((System.init 0).exec (.create 1 2)).2.lib.currentUlt ∉ q := by
  have hs : Reachable System.Step (System.init 0) ((System.init 0).exec (.create 1 2)).2 :=
    (Reachable.refl _).step_right (System.Step.of_enabled ⟨rfl, nofun, nofun⟩)
  obtain ⟨⟨q, hchain, -, -, -, -, hcurrent, -⟩, -⟩ := ready_queue_is_fifo hs
  exact ⟨q, hchain, hcurrent⟩

end Threaders.Hilolay
