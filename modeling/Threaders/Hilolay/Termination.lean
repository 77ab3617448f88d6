import Threaders.Hilolay.ReadyQueue

/-!
# The end of green threads

A ULT that finishes gives its TCB back before it yields for the last time, and a later
`th_create` may take that TCB with a context of its own.  The live TCBs own pairwise
different contexts, and a context that no live TCB owns is never switched to.  The main
ULT is live for good, so a ULT that finishes finds it in the queue.

## Main definitions

* `ContextsOwned` — every live TCB owns a context of its own.
* `Retired` — a context that was allocated and has lost its owner.
-/

namespace Threaders.Hilolay

open Lib

/-! ## Contexts and their owners -/

/-- Every live TCB owns a context, and no two own the same one. -/
structure ContextsOwned (s : Globals) : Prop where
  allocated : ∀ ult, s.state ult ≠ .free → ∃ c < s.contexts, s.context ult = some c
  inj : ∀ ult v, s.state ult ≠ .free → s.state v ≠ .free → s.context ult = s.context v → ult = v

/-- The context was allocated, and no live TCB owns it. -/
structure Retired (s : Globals) (c : ℕ) : Prop where
  allocated : c < s.contexts
  unowned : ∀ ult, s.state ult ≠ .free → s.context ult ≠ some c

theorem contextsOwned_libInit (now : ℤ) : ContextsOwned (libInit now) := by
  have hlive : ∀ ult, (libInit now).state ult ≠ .free → ult = mainUlt := by
    intro ult hult
    by_contra hne
    exact hult (by simp [libInit, Globals.state, TCB.zero, hne])
  refine ⟨fun ult hult => ⟨0, by simp [libInit], ?_⟩, fun ult v hult hv _ => ?_⟩
  · obtain rfl := hlive ult hult
    simp [libInit, Globals.context, libWriteTCB]
  · rw [hlive ult hult, hlive v hv]

namespace Prepares

variable {s p : Globals} {q q' : List Ult}

theorem contexts_le (hp : Prepares s q p q') : s.contexts ≤ p.contexts := by
  cases hp with
  | keep => rfl
  | create => simp
  | finish _ hf => exact hf.contexts.ge

/-- A TCB that is live once the queue is prepared was live before, with the context it
has, or has just been given the newly allocated one. -/
theorem live (hp : Prepares s q p q') {ult : Ult} (hult : p.state ult ≠ .free) :
    (s.state ult ≠ .free ∧ p.context ult = s.context ult) ∨
    (p.contexts = s.contexts + 1 ∧ p.context ult = some s.contexts ∧
      ∀ v, p.state v ≠ .free → v ≠ ult → s.state v ≠ .free ∧ p.context v = s.context v) := by
  cases hp with
  | keep => exact .inl ⟨hult, rfl⟩
  | @create u hfree =>
      rcases eq_or_ne ult u with rfl | hne
      · exact .inr ⟨by simp, by simp, fun v hv hne => ⟨by simpa [hne] using hv, by simp [hne]⟩⟩
      · exact .inl ⟨by simpa [hne] using hult, by simp [hne]⟩
  | finish _ hf =>
      refine .inl ⟨fun hfree => hult ?_, by rw [hf.context]⟩
      rcases eq_or_ne ult s.currentUlt with rfl | hne
      · simp [hf.state]
      · simpa [hf.state, hne] using hfree

theorem contextsOwned (hp : Prepares s q p q') (h : ContextsOwned s) : ContextsOwned p := by
  refine ⟨fun ult hult => ?_, fun ult v hult hv heq => ?_⟩
  · rcases hp.live hult with ⟨hs, hcontext⟩ | ⟨hcontexts, hcontext, -⟩
    · obtain ⟨c, hc, hown⟩ := h.allocated ult hs
      exact ⟨c, hc.trans_le hp.contexts_le, hcontext.trans hown⟩
    · exact ⟨s.contexts, by omega, hcontext⟩
  · -- an old context lies below the count, the new one is the count itself
    have hold : ∀ w, s.state w ≠ .free → s.context w ≠ some s.contexts := by
      intro w hw heq'
      obtain ⟨c, hc, hown⟩ := h.allocated w hw
      have hcc : c = s.contexts := by simpa [hown] using heq'
      omega
    rcases hp.live hult with ⟨hs, hcontext⟩ | ⟨-, hcontext, hrest⟩
    · rcases hp.live hv with ⟨hs', hcontext'⟩ | ⟨-, hcontext', -⟩
      · exact h.inj ult v hs hs' (by rw [← hcontext, ← hcontext', heq])
      · exact absurd (by rw [← hcontext, heq, hcontext']) (hold ult hs)
    · by_contra hne
      obtain ⟨hs', hcontext'⟩ := hrest v hv (Ne.symm hne)
      exact absurd (by rw [← hcontext', ← heq, hcontext]) (hold v hs')

theorem retired (hp : Prepares s q p q') {c : ℕ} (h : Retired s c) : Retired p c := by
  refine ⟨h.allocated.trans_le hp.contexts_le, fun ult hult hown => ?_⟩
  rcases hp.live hult with ⟨hs, hcontext⟩ | ⟨-, hcontext, -⟩
  · exact h.unowned ult hs (hcontext ▸ hown)
  · have hc : s.contexts = c := by simpa [hcontext] using hown
    exact absurd h.allocated (by omega)

end Prepares

/-! ## Dispatches -/

namespace Dispatches

variable {s s' : Globals} {a : Ult} {rest : List Ult}

theorem contextsOwned (hd : Dispatches s a rest s') (hq : Scheduled s (a :: rest))
    (h : ContextsOwned s) : ContextsOwned s' := by
  refine ⟨fun ult hult => ?_, fun ult v hult hv heq => ?_⟩
  · rw [hd.context, hd.contexts]
    exact h.allocated ult (by rwa [Ne, ← hd.free_iff hq])
  · rw [hd.context] at heq
    exact h.inj ult v (by rwa [Ne, ← hd.free_iff hq]) (by rwa [Ne, ← hd.free_iff hq]) heq

theorem retired (hd : Dispatches s a rest s') (hq : Scheduled s (a :: rest)) {c : ℕ}
    (h : Retired s c) : Retired s' c := by
  refine ⟨hd.contexts ▸ h.allocated, fun ult hult => ?_⟩
  rw [hd.context]
  exact h.unowned ult (by rwa [Ne, ← hd.free_iff hq])

end Dispatches

/-! ## Runs -/

/-- What the steps of the process preserve: the ready queue, the ownership of contexts, and
that no thread has come back from the end. -/
structure Orderly (s : System) : Prop where
  queue : ∃ q, ReadyQueue s.lib q
  contexts : ContextsOwned s.lib
  not_aborted : s.status ≠ .aborted
  exited : s.status = .exited →
    s.lib.currentUlt = mainUlt ∧ ∀ ult, ult ≠ mainUlt → s.lib.state ult = .free

theorem orderly_init (now : ℤ) : Orderly (System.init now) where
  queue := ⟨[], readyQueue_libInit now⟩
  contexts := contextsOwned_libInit now
  not_aborted := nofun
  exited := nofun

/-- With an empty queue every TCB but the current one is FREE. -/
theorem ReadyQueue.free_of_nil {s : Globals} (h : ReadyQueue s []) {ult : Ult}
    (hult : ult ≠ s.currentUlt) : s.state ult = .free := by
  cases hstate : s.state ult with
  | free => rfl
  | running => exact absurd (h.eq_current ult hstate) hult
  | ready => exact absurd ((h.mem_iff ult).mpr hstate) List.not_mem_nil

theorem Orderly.step {s t : System} {label : Op × Option Switch} (h : Orderly s)
    (hstep : System.Step s label t) : Orderly t := by
  obtain ⟨op, switch⟩ := label
  obtain ⟨q, hq⟩ := h.queue
  cases step_effect hq hstep with
  | stay hlib haborted hexited =>
      refine ⟨⟨q, hlib ▸ hq⟩, hlib ▸ h.contexts, haborted, fun hex => ?_⟩
      obtain ⟨hmain, rfl⟩ := hexited hex
      rw [hlib]
      exact ⟨hmain, fun ult hult => hq.free_of_nil (hmain ▸ hult)⟩
  | switch hprepares hdispatches hstatus =>
      have hsched := hprepares.scheduled hq
      refine ⟨⟨_, hdispatches.readyQueue hsched (hprepares.main_live hq)⟩,
        hdispatches.contextsOwned hsched (hprepares.contextsOwned h.contexts), ?_, ?_⟩ <;>
        simp [hstatus]

theorem Retired.step {s t : System} {label : Op × Option Switch} {c : ℕ}
    (hs : Retired s.lib c) (h : Orderly s) (hstep : System.Step s label t) : Retired t.lib c := by
  obtain ⟨op, switch⟩ := label
  obtain ⟨q, hq⟩ := h.queue
  cases step_effect hq hstep with
  | stay hlib => exact hlib ▸ hs
  | switch hprepares hdispatches =>
      exact hdispatches.retired (hprepares.scheduled hq) (hprepares.retired hs)

/-- No step switches to a retired context. -/
theorem Retired.not_selected {s t : System} {op : Op} {old new : Option ℕ} {c : ℕ}
    (hs : Retired s.lib c) (h : Orderly s) (hstep : System.Step s (op, some ⟨old, new⟩) t) :
    new ≠ some c := by
  obtain ⟨q, hq⟩ := h.queue
  generalize hswitch : some (Switch.mk old new) = switch at hstep
  cases step_effect hq hstep with
  | stay => cases hswitch
  | @switch _ p a rest hprepares =>
      obtain ⟨-, rfl⟩ : old = _ ∧ new = p.context a := by simpa using hswitch
      have hready := ((hprepares.scheduled hq).mem_iff a).mp List.mem_cons_self
      exact (hprepares.retired hs).unowned a (by simp [hready])

/-- The context a finished ULT leaves behind is retired. -/
theorem retired_of_finishes {s t : System} {op : Op} {switch : Option Switch} (h : Orderly s)
    (hop : s.Finishes op) (hstep : System.Step s (op, switch) t) :
    ∃ c new, switch = some ⟨some c, new⟩ ∧ Retired t.lib c := by
  obtain ⟨q, hq⟩ := h.queue
  obtain ⟨p, a, rest, rfl, hf, hd, rfl, -⟩ := step_of_finishes hq hop hstep
  have hlive : s.lib.state s.lib.currentUlt ≠ .free := by simp [hq.running]
  obtain ⟨c, hc, hown⟩ := h.contexts.allocated _ hlive
  refine ⟨c, _, by rw [hown], hd.retired ((Prepares.finish hop.not_main hf).scheduled hq) ?_⟩
  refine ⟨hf.contexts ▸ hc, fun ult hult hown' => ?_⟩
  rcases eq_or_ne ult s.lib.currentUlt with rfl | hne
  · simp [hf.state] at hult
  · rw [hf.state, Function.update_of_ne hne] at hult
    rw [hf.context] at hown'
    exact hne (h.contexts.inj _ _ hult hlive (hown'.trans hown.symm))

/-- Along a run a retired context stays retired. -/
theorem Retired.run {s t : System} {labels : List (Op × Option Switch)} {c : ℕ}
    (hs : Retired s.lib c) (h : Orderly s) (hrun : Run System.Step s labels t) :
    Retired t.lib c ∧ Orderly t :=
  hrun.invariant (P := fun s => Retired s.lib c ∧ Orderly s)
    (fun _ _ _ hP hstep => ⟨hP.1.step hP.2 hstep, hP.2.step hstep⟩) ⟨hs, h⟩

/-- In every state the process reaches: no thread has come back from its end, and the next
one to end finds the queue non-empty and switches; the context it leaves is selected by no
later `th_yield`; and the process has exited only if every TCB but the main one is FREE. -/
theorem ults_end_safely {now : ℤ} {s : System}
    (hs : Reachable System.Step (System.init now) s) :
    s.status ≠ .aborted ∧
    (∀ op switch t, s.Finishes op → System.Step s (op, switch) t →
      s.lib.readyQueueHead ≠ none ∧ switch ≠ none ∧ t.status = .running) ∧
    (∀ op old new t, s.Finishes op → System.Step s (op, some ⟨old, new⟩) t →
      ∀ labels u op' old' new' v, Run System.Step t labels u →
        System.Step u (op', some ⟨old', new'⟩) v → new' ≠ old) ∧
    (s.status = .exited → s.lib.currentUlt = mainUlt ∧
      ∀ ult, ult ≠ mainUlt → s.lib.state ult = .free) := by
  have h : Orderly s := hs.invariant (fun _ _ _ h => h.step) (orderly_init now)
  refine ⟨h.not_aborted, fun op switch t hop hstep => ?_,
    fun op old new t hop hstep labels u op' old' new' v hrun hstep' => ?_, h.exited⟩
  · obtain ⟨q, hq⟩ := h.queue
    obtain ⟨p, a, rest, rfl, -, -, rfl, hstatus⟩ := step_of_finishes hq hop hstep
    have hhead : s.lib.readyQueueHead = some a := hq.rep.head_eq
    exact ⟨by simp [hhead], by simp, hstatus⟩
  · obtain ⟨c, new'', hswitch, hretired⟩ := retired_of_finishes h hop hstep
    obtain ⟨rfl, -⟩ : old = some c ∧ new = new'' := by simpa using hswitch
    obtain ⟨hu, hou⟩ := hretired.run (h.step hstep) hrun
    exact hu.not_selected hou hstep'

theorem ults_end_safely_after_create :
    ((System.init 0).exec (.create 1 2)).2.status ≠ .aborted := by
  have henabled : (System.init 0).Enabled (.create 1 2) := ⟨rfl, nofun, nofun⟩
  exact (ults_end_safely ((Reachable.refl _).step_right (.of_enabled henabled))).1

end Threaders.Hilolay
