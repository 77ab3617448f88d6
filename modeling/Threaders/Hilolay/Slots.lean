import Threaders.Hilolay.Preemption
import Threaders.Hilolay.ReadyQueue

/-!
# Slots, contexts and stacks

What holds of the ULTs whatever the queue looks like: the slots and the contexts of those that
have not finished are their own, the stacks saved in the contexts may be resumed, and what a
`th_create` under way has made is nobody else's.  A ULT that is preempted in the middle of
`th_create` keeps the slot it has found on its stack, so it is the stacks that say which slots
and contexts are taken.

## Main definitions

* `Parked` — the statements of a stack that may be left waiting.
* `EnqueueAt.finish` — what the rest of `lib_enqueue` does.
* `Numbered` — the invariant.
-/

namespace Threaders.Hilolay

open Lib

/-! ## Statements under way -/

/-- A `th_create` under way: the context it has made, the slot it has found, and whether the
TCB is written. -/
structure Creation where
  context : ℕ
  slot : Ult
  written : Bool

def Frame.creation : Frame → Option Creation
  | .createTCB newUlt context => some ⟨context, newUlt, false⟩
  | .enqueue _ ult (.create context) => some ⟨context, ult, true⟩
  | _ => none

def creations (fs : List Frame) : List Creation := fs.filterMap Frame.creation

/-- A statement in front of which another ULT may run. -/
def Frame.Calm : Frame → Prop
  | .nextReturn selectedUlt | .yieldTest selectedUlt => selectedUlt = none
  | .yieldRequeue _ | .yieldSummarize _ | .yieldRunning _ | .yieldBurst _ | .yieldOld _
  | .yieldNew _ _ | .yieldCurrent _ _ _ | .yieldSwap _ _ | .returnAssert => False
  | .enqueue point _ caller => point ∈ [.ready, .headTest, .tailTest, .link] ∧
      ∃ context, caller = .create context
  | _ => True

/-- A statement of a handler, or of a `th_yield` that has taken nobody off the queue. -/
def Frame.Waiting : Frame → Prop
  | .nextRead | .nextTest _ | .nextPop _ | .handler | .handlerEnd => True
  | .nextReturn selectedUlt | .yieldTest selectedUlt => selectedUlt = none
  | _ => False

/-- A statement of a handler that finds the queue empty. -/
def Frame.Idle : Frame → Prop
  | .nextRead | .handler | .handlerEnd => True
  | .nextTest selectedUlt | .nextReturn selectedUlt | .yieldTest selectedUlt => selectedUlt = none
  | _ => False

/-- The statements of a stack that may be left waiting.  That of a ULT that has finished is
never resumed, and is only known down to the end of `th_return`. -/
def Parked : Bool → List Frame → Prop
  | false, fs => ∀ f ∈ fs, f.Calm
  | true, fs => ∃ as bs, fs = as ++ .returnAssert :: bs ∧ ∀ f ∈ as, f.Waiting

section Parked
variable {dying : Bool} {f : Frame} {k : List Frame}

theorem Frame.Waiting.calm (h : f.Waiting) : f.Calm := by
  cases f <;> first | exact h | trivial

theorem Parked.cons (h : Parked dying k) (hf : f.Waiting) : Parked dying (f :: k) := by
  cases dying with
  | false =>
      intro g hg
      rcases List.mem_cons.1 hg with rfl | hg
      · exact hf.calm
      · exact h g hg
  | true =>
      obtain ⟨as, bs, rfl, has⟩ := h
      refine ⟨f :: as, bs, rfl, fun g hg => ?_⟩
      rcases List.mem_cons.1 hg with rfl | hg
      · exact hf
      · exact has g hg

theorem Parked.cons_calm (h : Parked false k) (hf : f.Calm) : Parked false (f :: k) := by
  intro g hg
  rcases List.mem_cons.1 hg with rfl | hg
  · exact hf
  · exact h g hg

/-- What is on top of a stack that may be left, and what is below. -/
theorem Parked.cons_inv (h : Parked dying (f :: k)) :
    f = .returnAssert ∨ (f.Calm ∧ (dying = true → f.Waiting) ∧ Parked dying k) := by
  cases dying with
  | false =>
      exact .inr ⟨h f List.mem_cons_self, nofun, fun g hg => h g (List.mem_cons_of_mem f hg)⟩
  | true =>
      obtain ⟨as, bs, hfs, has⟩ := h
      cases as with
      | nil => exact .inl (List.cons.inj hfs).1
      | cons a as =>
          obtain ⟨rfl, rfl⟩ := List.cons.inj hfs
          have hf := has f List.mem_cons_self
          exact .inr ⟨hf.calm, fun _ => hf, as, bs, rfl,
            fun g hg => has g (List.mem_cons_of_mem f hg)⟩

theorem Parked.yieldReturns (h : Parked dying k) (result : Bool) :
    Parked dying (yieldReturns result k) := by
  unfold Hilolay.yieldReturns
  split
  · rename_i k
    rcases h.cons_inv with hf | ⟨-, hf, hk⟩
    · cases hf
    · cases dying with
      | true => exact (hf rfl).elim
      | false =>
          cases result with
          | true => exact h.cons trivial
          | false => exact fun g hg => absurd hg List.not_mem_nil
  · exact h

@[simp] theorem creations_nil : creations [] = [] := rfl

theorem creations_cons : creations (f :: k) = f.creation.toList ++ creations k := by
  cases hf : f.creation <;> simp [creations, hf]

theorem creations_yieldReturns (result : Bool) :
    (creations (yieldReturns result k)).Sublist (creations k) := by
  unfold Hilolay.yieldReturns
  split
  · cases result with
    | true => exact List.Sublist.refl _
    | false => exact List.nil_sublist _
  · exact List.Sublist.refl _

end Parked

/-! ## The rest of `lib_enqueue` -/

/-- What the statements of `lib_enqueue` from this one on do to the links. -/
def EnqueueAt.finish (l : Links Ult) (ult : Ult) : EnqueueAt → Links Ult
  | .ready | .headTest => l.push ult
  | .head => { l.push ult with head := some ult }
  | .tailTest => { l.push ult with head := l.head }
  | .link => match l.tail with
      | none => l
      | some last => ⟨Function.update (Function.update l.next last (some ult)) ult none, l.head,
          some ult⟩
  | .tail => ⟨Function.update l.next ult none, l.head, some ult⟩
  | .close => match l.tail with
      | none => l
      | some last => { l with next := Function.update l.next last none }

section Enqueue
variable {s s' : Globals} {ult : Ult} {point point' : EnqueueAt}

/-- Each statement leaves the rest to do. -/
theorem finish_enqueueStmt (h : enqueueStmt s ult point = some (s', some point')) :
    point'.finish s'.links ult = point.finish s.links ult := by
  cases point with
  | ready =>
      obtain ⟨rfl, rfl⟩ : _ = s' ∧ _ = point' := by simpa [enqueueStmt] using h
      simp [EnqueueAt.finish, Globals.links]
  | headTest =>
      obtain ⟨rfl, rfl⟩ : _ = s' ∧ _ = point' := by simpa [enqueueStmt] using h
      by_cases hhead : s.readyQueueHead = none <;>
        simp [EnqueueAt.finish, Globals.links, Links.push, hhead]
  | head =>
      obtain ⟨rfl, rfl⟩ : _ = s' ∧ _ = point' := by simpa [enqueueStmt] using h
      simp [EnqueueAt.finish, Globals.links, Links.push]
  | tailTest =>
      obtain ⟨rfl, rfl⟩ : _ = s' ∧ _ = point' := by simpa [enqueueStmt] using h
      cases htail : s.readyQueueTail <;>
        simp [EnqueueAt.finish, Globals.links, Links.push, htail]
  | link =>
      cases htail : s.readyQueueTail with
      | none => simp [enqueueStmt, htail] at h
      | some tail =>
          obtain ⟨rfl, rfl⟩ : _ = s' ∧ _ = point' := by simpa [enqueueStmt, htail] using h
          simp [EnqueueAt.finish, Globals.links, htail]
  | tail =>
      obtain ⟨rfl, rfl⟩ : _ = s' ∧ _ = point' := by simpa [enqueueStmt] using h
      simp [EnqueueAt.finish, Globals.links]
  | close => cases htail : s.readyQueueTail <;> simp [enqueueStmt, htail] at h

/-- Behind the last one it is done. -/
theorem links_enqueueStmt (h : enqueueStmt s ult point = some (s', none)) :
    s'.links = point.finish s.links ult := by
  cases point with
  | close =>
      cases htail : s.readyQueueTail with
      | none => simp [enqueueStmt, htail] at h
      | some tail =>
          obtain rfl : _ = s' := by simpa [enqueueStmt, htail] using h
          simp [EnqueueAt.finish, Globals.links, htail]
  | link => cases htail : s.readyQueueTail <;> simp [enqueueStmt, htail] at h
  | _ => simp [enqueueStmt] at h

/-- `lib_enqueue` changes links, and the state of its ULT. -/
theorem enqueueStmt_frame {next : Option EnqueueAt}
    (h : enqueueStmt s ult point = some (s', next)) :
    s'.currentUlt = s.currentUlt ∧ s'.contexts = s.contexts ∧ s'.context = s.context ∧
      ∀ v, s.state v ≠ .free → s'.state v ≠ .free := by
  have hready : ∀ v, s.state v ≠ .free → Function.update s.state ult .ready v ≠ .free := by
    intro v hv
    by_cases hult : v = ult <;> simp [hult, hv]
  cases point with
  | ready =>
      obtain ⟨rfl, rfl⟩ : _ = s' ∧ _ = next := by simpa [enqueueStmt] using h
      simpa using hready
  | link =>
      cases htail : s.readyQueueTail with
      | none => simp [enqueueStmt, htail] at h
      | some tail =>
          obtain ⟨rfl, rfl⟩ : _ = s' ∧ _ = next := by simpa [enqueueStmt, htail] using h
          simp
  | close =>
      cases htail : s.readyQueueTail with
      | none => simp [enqueueStmt, htail] at h
      | some tail =>
          obtain ⟨rfl, rfl⟩ : _ = s' ∧ _ = next := by simpa [enqueueStmt, htail] using h
          simp
  | _ =>
      obtain ⟨rfl, rfl⟩ : _ = s' ∧ _ = next := by simpa [enqueueStmt] using h
      simp

/-- In front of the first assignment to `READY_QUEUE_HEAD`. -/
def EnqueueAt.Early : EnqueueAt → Prop
  | .ready | .headTest | .head => True
  | _ => False

theorem early_enqueueStmt (h : enqueueStmt s ult point = some (s', some point'))
    (hearly : point'.Early) : point.Early ∧ s'.links = s.links := by
  cases point with
  | ready =>
      obtain ⟨rfl, rfl⟩ : _ = s' ∧ _ = point' := by simpa [enqueueStmt] using h
      exact ⟨trivial, by simp [Globals.links]⟩
  | headTest =>
      obtain ⟨rfl, rfl⟩ : _ = s' ∧ _ = point' := by simpa [enqueueStmt] using h
      exact ⟨trivial, rfl⟩
  | tailTest =>
      obtain ⟨rfl, rfl⟩ : _ = s' ∧ _ = point' := by simpa [enqueueStmt] using h
      split at hearly <;> exact hearly.elim
  | link =>
      cases htail : s.readyQueueTail with
      | none => simp [enqueueStmt, htail] at h
      | some last =>
          obtain ⟨rfl, rfl⟩ : _ = s' ∧ _ = point' := by simpa [enqueueStmt, htail] using h
          exact hearly.elim
  | close => cases htail : s.readyQueueTail <;> simp [enqueueStmt, htail] at h
  | _ =>
      obtain ⟨rfl, rfl⟩ : _ = s' ∧ _ = point' := by simpa [enqueueStmt] using h
      exact hearly.elim

/-- Behind it the head stays. -/
theorem head_finish (h : ¬ point.Early) (l : Links Ult) : (point.finish l ult).head = l.head := by
  cases point with
  | ready | headTest | head => exact absurd trivial h
  | tailTest | tail => rfl
  | link | close => cases htail : l.tail <;> simp [EnqueueAt.finish, htail]

/-- To put a ULT that is alone in the queue behind itself changes nothing. -/
theorem rep_finish_alone {l : Links Ult} (h : ¬ point.Early) (hrep : Rep l [ult]) :
    Rep (point.finish l ult) [ult] := by
  have hhead : l.head = some ult := hrep.head_eq
  have htail : l.tail = some ult := hrep.tail_eq (by simp)
  cases point with
  | ready | headTest | head => exact absurd trivial h
  | tailTest | link | tail | close =>
      constructor <;> simp [EnqueueAt.finish, Links.push, hhead, htail]

end Enqueue

/-! ## Slots and contexts -/

namespace Machine

/-- The pending statements of a ULT. -/
def framesOf (m : Machine) (ult : ℕ) : List Frame :=
  if ult = m.running.ult then m.running.frames else (m.saved ult).frames

/-- What a `th_create` under way has made is ready, and nobody else's. -/
structure Creating (m : Machine) (x : Creation) : Prop where
  lt : x.context < m.lib.contexts
  ne_running : x.context ≠ m.running.ult
  fresh : m.saved x.context = ⟨x.context, [.own]⟩
  written : x.written = true →
    (x.context, x.slot) ∈ m.written ∧ (x.context, x.slot) ∉ m.enqueued
  unwritten : x.written = false → ∀ p ∈ m.written, p.1 ≠ x.context

/-- The ULTs have slots and contexts of their own, and the stacks in the contexts may be
resumed. -/
structure Numbered (m : Machine) : Prop where
  subset : ∀ p ∈ m.enqueued, p ∈ m.written
  contexts_nodup : (m.written.map Prod.fst).Nodup
  slots_nodup : (m.written.map Prod.snd).Nodup
  enqueued_nodup : (m.enqueued.map Prod.snd).Nodup
  alive : ∀ p ∈ m.written,
    p.1 < m.lib.contexts ∧ m.lib.state p.2 ≠ .free ∧ m.lib.context p.2 = some p.1
  parked : ∀ p ∈ m.enqueued, p.1 ≠ m.running.ult →
    (m.saved p.1).ult = p.1 ∧ Parked false (m.saved p.1).frames
  running_lt : m.running.ult < m.lib.contexts
  creating : ∀ p ∈ m.enqueued, ∀ x ∈ creations (m.framesOf p.1), m.Creating x
  creations_nodup : ∀ p ∈ m.enqueued, ((creations (m.framesOf p.1)).map Creation.context).Nodup
  creations_unique : ∀ p ∈ m.enqueued, ∀ p' ∈ m.enqueued, ∀ x ∈ creations (m.framesOf p.1),
    ∀ x' ∈ creations (m.framesOf p'.1), x.context = x'.context → p.1 = p'.1

section Numbered
variable {m : Machine} {lib : Globals} {fs k : List Frame} {ult : Ult} {n : ℕ}

theorem framesOf_running : m.framesOf m.running.ult = m.running.frames := if_pos rfl

theorem framesOf_of_ne {u : ℕ} (h : u ≠ m.running.ult) : m.framesOf u = (m.saved u).frames :=
  if_neg h

namespace Numbered

theorem eq_of_context (h : m.Numbered) {p p' : ℕ × Ult} (hp : p ∈ m.written)
    (hp' : p' ∈ m.written) (heq : p.1 = p'.1) : p = p' :=
  List.inj_on_of_nodup_map h.contexts_nodup hp hp' heq

theorem eq_of_slot (h : m.Numbered) {p p' : ℕ × Ult} (hp : p ∈ m.written)
    (hp' : p' ∈ m.written) (heq : p.2 = p'.2) : p = p' :=
  List.inj_on_of_nodup_map h.slots_nodup hp hp' heq

/-- Statements that leave slots and contexts as they are. -/
theorem goto (h : m.Numbered) (hcontexts : lib.contexts = m.lib.contexts)
    (hcontext : lib.context = m.lib.context)
    (hstate : ∀ v, m.lib.state v ≠ .free → lib.state v ≠ .free)
    (hsub : (creations fs).Sublist (creations m.running.frames)) : (m.goto lib fs).Numbered := by
  have hframes : ∀ u, (creations ((m.goto lib fs).framesOf u)).Sublist
      (creations (m.framesOf u)) := by
    intro u
    by_cases hu : u = m.running.ult
    · have hframes : (m.goto lib fs).framesOf u = fs := if_pos hu
      rw [hframes, hu, framesOf_running]
      exact hsub
    · have hframes : (m.goto lib fs).framesOf u = (m.saved u).frames := if_neg hu
      rw [hframes, framesOf_of_ne hu]
  constructor
  · exact h.subset
  · exact h.contexts_nodup
  · exact h.slots_nodup
  · exact h.enqueued_nodup
  · intro p hp
    obtain ⟨hlt, hfree, hctx⟩ := h.alive p hp
    exact ⟨hcontexts ▸ hlt, hstate _ hfree, hcontext ▸ hctx⟩
  · exact h.parked
  · exact hcontexts ▸ h.running_lt
  · intro p hp x hx
    have hx := h.creating p hp x ((hframes p.1).subset hx)
    exact ⟨hcontexts ▸ hx.lt, hx.ne_running, hx.fresh, hx.written, hx.unwritten⟩
  · intro p hp
    exact ((hframes p.1).map _).nodup (h.creations_nodup p hp)
  · intro p hp p' hp' x hx x' hx'
    exact h.creations_unique p hp p' hp' x ((hframes p.1).subset hx) x'
      ((hframes p'.1).subset hx')

/-- The context that the statement on top has made is in no other statement. -/
theorem creation_ne (h : m.Numbered) (hlive : (m.running.ult, ult) ∈ m.enqueued) {f : Frame}
    {x₀ : Creation} (hframes : m.running.frames = f :: k) (hf : f.creation = some x₀) :
    (∀ x ∈ creations k, x.context ≠ x₀.context) ∧
      ∀ p ∈ m.enqueued, p.1 ≠ m.running.ult → ∀ x ∈ creations (m.framesOf p.1),
        x.context ≠ x₀.context := by
  have hrunning : creations (m.framesOf m.running.ult) = x₀ :: creations k := by
    rw [framesOf_running, hframes, creations_cons, hf]
    rfl
  constructor
  · intro x hx heq
    have hnodup := h.creations_nodup _ hlive
    rw [hrunning, List.map_cons, List.nodup_cons] at hnodup
    exact hnodup.1 (heq ▸ List.mem_map_of_mem hx)
  · intro p hp hne x hx heq
    exact hne (h.creations_unique p hp _ hlive x hx x₀ (hrunning ▸ List.mem_cons_self) heq)

/-- `th_create_context` makes a context of its own. -/
theorem createContext (h : m.Numbered) (hframes : m.running.frames = .createContext ult :: k)
    (hfree : m.lib.state ult = .free) :
    (m.createContext ult k).Numbered := by
  have hsaved : ∀ u < m.lib.contexts, Function.update m.saved m.lib.contexts
      ⟨m.lib.contexts, [.own]⟩ u = m.saved u :=
    fun u hu => Function.update_of_ne hu.ne _ _
  have hk : creations (m.framesOf m.running.ult) = creations k := by
    rw [framesOf_running, hframes]
    rfl
  -- the new creation, and what the stacks had under way before
  have hcases : ∀ p ∈ m.enqueued, ∀ x ∈ creations ((m.createContext ult k).framesOf p.1),
      (p.1 = m.running.ult ∧ x = ⟨m.lib.contexts, ult, false⟩) ∨
        x ∈ creations (m.framesOf p.1) := by
    intro p hp x hx
    by_cases hu : p.1 = m.running.ult
    · replace hx : x ∈ creations (.createTCB ult m.lib.contexts :: k) := by
        rwa [framesOf, Machine.createContext, if_pos hu] at hx
      rw [hu, hk]
      rcases List.mem_cons.1 hx with rfl | hx
      · exact .inl ⟨rfl, rfl⟩
      · exact .inr hx
    · rw [framesOf, Machine.createContext, if_neg hu] at hx
      rw [framesOf_of_ne hu, ← hsaved p.1 (h.alive p (h.subset p hp)).1]
      exact .inr hx
  have hlt : ∀ p ∈ m.enqueued, ∀ x ∈ creations (m.framesOf p.1), x.context < m.lib.contexts :=
    fun p hp x hx => (h.creating p hp x hx).lt
  constructor
  · exact h.subset
  · exact h.contexts_nodup
  · exact h.slots_nodup
  · exact h.enqueued_nodup
  · intro p hp
    obtain ⟨hlt, hstate, hctx⟩ := h.alive p hp
    have hne : p.2 ≠ ult := fun heq => hstate (heq ▸ hfree)
    refine ⟨Nat.lt_succ_of_lt hlt, by simpa [Machine.createContext] using hstate, ?_⟩
    simpa [Machine.createContext, hne] using hctx
  · intro p hp hne
    have hp' := h.parked p hp hne
    rwa [← hsaved p.1 (h.alive p (h.subset p hp)).1] at hp'
  · exact Nat.lt_succ_of_lt h.running_lt
  · intro p hp x hx
    rcases hcases p hp x hx with ⟨-, rfl⟩ | hx
    · refine ⟨Nat.lt_succ_self _, h.running_lt.ne', Function.update_self .., nofun, ?_⟩
      exact fun _ p' hp' => (h.alive p' hp').1.ne
    · have hx := h.creating p hp x hx
      exact ⟨Nat.lt_succ_of_lt hx.lt, hx.ne_running, (hsaved _ hx.lt).trans hx.fresh,
        hx.written, hx.unwritten⟩
  · intro p hp
    have hnodup := h.creations_nodup p hp
    by_cases hu : p.1 = m.running.ult
    · rw [hu, hk] at hnodup
      rw [framesOf, Machine.createContext, if_pos hu]
      refine List.nodup_cons.2 ⟨fun hmem => ?_, hnodup⟩
      obtain ⟨x, hx, heq⟩ := List.mem_map.1 hmem
      refine (hlt p hp x ?_).ne heq
      rwa [hu, hk]
    · rw [framesOf_of_ne hu, ← hsaved p.1 (h.alive p (h.subset p hp)).1] at hnodup
      rwa [framesOf, Machine.createContext, if_neg hu]
  · intro p hp p' hp' x hx x' hx' heq
    rcases hcases p hp x hx with ⟨hu, rfl⟩ | hx
    · rcases hcases p' hp' x' hx' with ⟨hu', -⟩ | hx'
      · rw [hu, hu']
      · exact absurd heq (hlt p' hp' x' hx').ne'
    · rcases hcases p' hp' x' hx' with ⟨-, rfl⟩ | hx'
      · exact absurd heq (hlt p hp x hx).ne
      · exact h.creations_unique p hp p' hp' x hx x' hx' heq

/-- `lib_write_TCB` gives the slot to the new ULT. -/
theorem createTCB (h : m.Numbered) {slot : Ult} (hlive : (m.running.ult, slot) ∈ m.enqueued)
    (hframes : m.running.frames = .createTCB ult n :: k) (hfree : m.lib.state ult = .free)
    (hcontext : m.lib.context ult = some n) : (m.createTCB ult n k).Numbered := by
  have hk : creations (m.framesOf m.running.ult) = ⟨n, ult, false⟩ :: creations k := by
    rw [framesOf_running, hframes]
    rfl
  have hnew := h.creating _ hlive ⟨n, ult, false⟩ (hk ▸ List.mem_cons_self)
  obtain ⟨hnek, hneu⟩ := h.creation_ne hlive hframes rfl
  have hslot : ∀ p ∈ m.written, p.2 ≠ ult := by
    intro p hp heq
    exact (h.alive p hp).2.1 (heq ▸ hfree)
  -- the creation on top is written now, and all the others are as they were
  have hcases : ∀ p ∈ m.enqueued, ∀ x ∈ creations ((m.createTCB ult n k).framesOf p.1),
      (p.1 = m.running.ult ∧ x = ⟨n, ult, true⟩) ∨
        (x ∈ creations (m.framesOf p.1) ∧ x.context ≠ n) := by
    intro p hp x hx
    by_cases hu : p.1 = m.running.ult
    · rw [framesOf, Machine.createTCB, if_pos hu] at hx
      rw [hu, hk]
      rcases List.mem_cons.1 hx with rfl | hx
      · exact .inl ⟨rfl, rfl⟩
      · exact .inr ⟨List.mem_cons_of_mem _ hx, hnek x hx⟩
    · rw [framesOf, Machine.createTCB, if_neg hu] at hx
      rw [← framesOf_of_ne hu] at hx
      exact .inr ⟨hx, hneu p hp hu x hx⟩
  constructor
  · exact fun p hp => List.mem_append_left _ (h.subset p hp)
  · rw [Machine.createTCB, List.map_append, List.map_singleton, ← List.concat_eq_append,
      List.nodup_concat]
    refine ⟨fun hmem => ?_, h.contexts_nodup⟩
    obtain ⟨p, hp, heq⟩ := List.mem_map.1 hmem
    exact hnew.unwritten rfl p hp heq
  · rw [Machine.createTCB, List.map_append, List.map_singleton, ← List.concat_eq_append,
      List.nodup_concat]
    refine ⟨fun hmem => ?_, h.slots_nodup⟩
    obtain ⟨p, hp, heq⟩ := List.mem_map.1 hmem
    exact hslot p hp heq
  · exact h.enqueued_nodup
  · intro p hp
    rcases List.mem_append.1 hp with hp | hp
    · obtain ⟨hlt, hstate, hctx⟩ := h.alive p hp
      exact ⟨hlt, by simpa [Machine.createTCB, hslot p hp] using hstate,
        by simpa [Machine.createTCB] using hctx⟩
    · obtain rfl := List.mem_singleton.1 hp
      exact ⟨hnew.lt, by simp [Machine.createTCB], by simpa [Machine.createTCB] using hcontext⟩
  · exact h.parked
  · exact h.running_lt
  · intro p hp x hx
    rcases hcases p hp x hx with ⟨-, rfl⟩ | ⟨hx, hne⟩
    · refine ⟨hnew.lt, hnew.ne_running, hnew.fresh, fun _ => ⟨by simp [Machine.createTCB], ?_⟩,
        nofun⟩
      exact fun hmem => hnew.unwritten rfl _ (h.subset _ hmem) rfl
    · have hx := h.creating p hp x hx
      refine ⟨hx.lt, hx.ne_running, hx.fresh, fun hw => ?_, fun hw p' hp' => ?_⟩
      · exact ⟨List.mem_append_left _ (hx.written hw).1, (hx.written hw).2⟩
      · rcases List.mem_append.1 hp' with hp' | hp'
        · exact hx.unwritten hw p' hp'
        · obtain rfl := List.mem_singleton.1 hp'
          exact hne.symm
  · intro p hp
    have hnodup := h.creations_nodup p hp
    by_cases hu : p.1 = m.running.ult
    · rw [hu, hk] at hnodup
      rw [framesOf, Machine.createTCB, if_pos hu]
      exact hnodup
    · rw [framesOf_of_ne hu] at hnodup
      rwa [framesOf, Machine.createTCB, if_neg hu]
  · intro p hp p' hp' x hx x' hx' heq
    rcases hcases p hp x hx with ⟨hu, rfl⟩ | ⟨hx, hne⟩
    · rcases hcases p' hp' x' hx' with ⟨hu', -⟩ | ⟨-, hne'⟩
      · rw [hu, hu']
      · exact absurd heq.symm hne'
    · rcases hcases p' hp' x' hx' with ⟨-, rfl⟩ | ⟨hx', -⟩
      · exact absurd heq hne
      · exact h.creations_unique p hp p' hp' x hx x' hx' heq

/-- `lib_enqueue` completes in `th_create`: the new ULT is one of them. -/
theorem enqueueReturns (h : m.Numbered) {slot : Ult} {point : EnqueueAt}
    (hlive : (m.running.ult, slot) ∈ m.enqueued)
    (hframes : m.running.frames = .enqueue point ult (.create n) :: k)
    (hcontexts : lib.contexts = m.lib.contexts) (hcontext : lib.context = m.lib.context)
    (hstate : ∀ v, m.lib.state v ≠ .free → lib.state v ≠ .free) :
    (m.enqueueReturns lib ult k (.create n)).Numbered ∧ ult ∉ m.enqueued.map Prod.snd := by
  have hk : creations (m.framesOf m.running.ult) = ⟨n, ult, true⟩ :: creations k := by
    rw [framesOf_running, hframes]
    rfl
  have hnew := h.creating _ hlive ⟨n, ult, true⟩ (hk ▸ List.mem_cons_self)
  obtain ⟨hwritten, henqueued⟩ := hnew.written rfl
  obtain ⟨hnek, hneu⟩ := h.creation_ne hlive hframes rfl
  have hult : ult ∉ m.enqueued.map Prod.snd := by
    intro hmem
    obtain ⟨p, hp, heq⟩ := List.mem_map.1 hmem
    exact henqueued (h.eq_of_slot (h.subset p hp) hwritten heq ▸ hp)
  -- the new stack has nothing under way
  have hcases : ∀ p ∈ m.enqueued ++ [(n, ult)],
      ∀ x ∈ creations ((m.enqueueReturns lib ult k (.create n)).framesOf p.1),
      p ∈ m.enqueued ∧ x ∈ creations (m.framesOf p.1) ∧ x.context ≠ n := by
    intro p hp x hx
    by_cases hu : p.1 = m.running.ult
    · rw [framesOf, Machine.enqueueReturns, if_pos hu] at hx
      rcases List.mem_append.1 hp with hp | hp
      · rw [hu, hk]
        exact ⟨hp, List.mem_cons_of_mem _ hx, hnek x hx⟩
      · obtain rfl := List.mem_singleton.1 hp
        exact absurd hu hnew.ne_running
    · rw [framesOf, Machine.enqueueReturns, if_neg hu] at hx
      rcases List.mem_append.1 hp with hp | hp
      · rw [← framesOf_of_ne hu] at hx
        exact ⟨hp, hx, hneu p hp hu x hx⟩
      · obtain rfl := List.mem_singleton.1 hp
        rw [hnew.fresh] at hx
        cases hx
  refine ⟨?_, hult⟩
  constructor
  · intro p hp
    rcases List.mem_append.1 hp with hp | hp
    · exact h.subset p hp
    · obtain rfl := List.mem_singleton.1 hp
      exact hwritten
  · exact h.contexts_nodup
  · exact h.slots_nodup
  · rw [Machine.enqueueReturns, List.map_append, List.map_singleton, ← List.concat_eq_append,
      List.nodup_concat]
    exact ⟨hult, h.enqueued_nodup⟩
  · intro p hp
    obtain ⟨hlt, hfree, hctx⟩ := h.alive p hp
    exact ⟨hcontexts ▸ hlt, hstate _ hfree, hcontext ▸ hctx⟩
  · intro p hp hne
    rcases List.mem_append.1 hp with hp | hp
    · exact h.parked p hp hne
    · obtain rfl := List.mem_singleton.1 hp
      refine ⟨congrArg Stack.ult hnew.fresh, ?_⟩
      rw [Machine.enqueueReturns, hnew.fresh]
      exact fun f hf => List.mem_singleton.1 hf ▸ trivial
  · exact hcontexts ▸ h.running_lt
  · intro p hp x hx
    obtain ⟨hp, hx, hne⟩ := hcases p hp x hx
    have hx := h.creating p hp x hx
    refine ⟨hcontexts ▸ hx.lt, hx.ne_running, hx.fresh, fun hw => ?_, hx.unwritten⟩
    refine ⟨(hx.written hw).1, fun hmem => ?_⟩
    rcases List.mem_append.1 hmem with hmem | hmem
    · exact (hx.written hw).2 hmem
    · exact hne (Prod.mk.inj (List.mem_singleton.1 hmem)).1
  · intro p hp
    by_cases hu : p.1 = m.running.ult
    · have hnodup := h.creations_nodup _ hlive
      rw [hk] at hnodup
      rw [framesOf, Machine.enqueueReturns, if_pos hu]
      exact (List.nodup_cons.1 hnodup).2
    · rw [framesOf, Machine.enqueueReturns, if_neg hu]
      rcases List.mem_append.1 hp with hp | hp
      · have hnodup := h.creations_nodup p hp
        rwa [framesOf_of_ne hu] at hnodup
      · obtain rfl := List.mem_singleton.1 hp
        rw [hnew.fresh]
        exact List.nodup_nil
  · intro p hp p' hp' x hx x' hx' heq
    obtain ⟨hp, hx, -⟩ := hcases p hp x hx
    obtain ⟨hp', hx', -⟩ := hcases p' hp' x' hx'
    exact h.creations_unique p hp p' hp' x hx x' hx' heq

/-- A ULT that finishes gives its slot back. -/
theorem returnFree (h : m.Numbered) (hlive : (m.running.ult, m.lib.currentUlt) ∈ m.enqueued)
    (hframes : m.running.frames = .returnFree :: k) : (m.returnFree k).Numbered := by
  have hmem : ∀ (ps : List (ℕ × Ult)) p, p ∈ ps.filter (·.1 ≠ m.running.ult) ↔
      p ∈ ps ∧ p.1 ≠ m.running.ult := by
    intro ps p
    simp [List.mem_filter]
  have hcreations : ∀ u, creations ((m.returnFree k).framesOf u) = creations (m.framesOf u) := by
    intro u
    by_cases hu : u = m.running.ult
    · rw [framesOf, Machine.returnFree, if_pos hu, hu, framesOf_running, hframes]
      rfl
    · rw [framesOf, Machine.returnFree, if_neg hu, framesOf_of_ne hu]
  constructor
  · intro p hp
    obtain ⟨hp, hne⟩ := (hmem _ _).1 hp
    exact (hmem _ _).2 ⟨h.subset p hp, hne⟩
  · exact (List.filter_sublist.map _).nodup h.contexts_nodup
  · exact (List.filter_sublist.map _).nodup h.slots_nodup
  · exact (List.filter_sublist.map _).nodup h.enqueued_nodup
  · intro p hp
    obtain ⟨hp, hne⟩ := (hmem _ _).1 hp
    obtain ⟨hlt, hstate, hctx⟩ := h.alive p hp
    have hslot : p.2 ≠ m.lib.currentUlt := by
      intro heq
      exact hne (congrArg Prod.fst (h.eq_of_slot hp (h.subset _ hlive) heq))
    exact ⟨hlt, by simpa [Machine.returnFree, hslot] using hstate,
      by simpa [Machine.returnFree] using hctx⟩
  · intro p hp hne
    exact h.parked p ((hmem _ _).1 hp).1 hne
  · exact h.running_lt
  · intro p hp x hx
    rw [hcreations] at hx
    have hx := h.creating p ((hmem _ _).1 hp).1 x hx
    refine ⟨hx.lt, hx.ne_running, hx.fresh, fun hw => ⟨?_, fun hmem' => ?_⟩, fun hw p' hp' => ?_⟩
    · exact (hmem _ _).2 ⟨(hx.written hw).1, hx.ne_running⟩
    · exact (hx.written hw).2 ((hmem _ _).1 hmem').1
    · exact hx.unwritten hw p' ((hmem _ _).1 hp').1
  · intro p hp
    rw [hcreations]
    exact h.creations_nodup p ((hmem _ _).1 hp).1
  · intro p hp p' hp' x hx x' hx' heq
    rw [hcreations] at hx hx'
    exact h.creations_unique p ((hmem _ _).1 hp).1 p' ((hmem _ _).1 hp').1 x hx x' hx' heq

/-- `swapcontext` goes on with the stack of another ULT. -/
theorem swapcontext (h : m.Numbered) {v : ℕ} {slot : Ult} {new : Option ℕ}
    (hnew : (v, slot) ∈ m.enqueued) (hne : v ≠ m.running.ult)
    (hframes : m.running.frames = .yieldSwap (some m.running.ult) new :: k)
    (hparked : (∃ p ∈ m.enqueued, p.1 = m.running.ult) → Parked false k) :
    (m.swapcontext m.running.ult v k).Numbered ∧
      (m.swapcontext m.running.ult v k).running = m.saved v := by
  have hrunning : (m.swapcontext m.running.ult v k).running = m.saved v :=
    Function.update_of_ne hne _ _
  obtain ⟨hv, -⟩ := h.parked _ hnew hne
  have hult : (m.swapcontext m.running.ult v k).running.ult = v := by rw [hrunning, hv]
  have hcreations : ∀ u, creations ((m.swapcontext m.running.ult v k).framesOf u)
      = creations (m.framesOf u) := by
    intro u
    by_cases hu : u = v
    · rw [framesOf, if_pos (hu.trans hult.symm), hrunning, hu, framesOf_of_ne hne]
    · rw [framesOf, if_neg fun heq => hu (heq.trans hult)]
      by_cases hold : u = m.running.ult
      · have hsaved : (m.swapcontext m.running.ult v k).saved m.running.ult
            = ⟨m.running.ult, .yieldTrue :: k⟩ := Function.update_self ..
        rw [hold, framesOf_running, hframes, hsaved]
        rfl
      · have hsaved : (m.swapcontext m.running.ult v k).saved u = m.saved u :=
          Function.update_of_ne hold ..
        rw [framesOf_of_ne hold, hsaved]
  refine ⟨?_, hrunning⟩
  constructor
  · exact h.subset
  · exact h.contexts_nodup
  · exact h.slots_nodup
  · exact h.enqueued_nodup
  · exact h.alive
  · intro p hp hpne
    rw [hult] at hpne
    by_cases hold : p.1 = m.running.ult
    · rw [Machine.swapcontext, hold]
      simp only [Function.update_self, true_and]
      exact (hparked ⟨p, hp, hold⟩).cons_calm trivial
    · rw [Machine.swapcontext]
      simp only [Function.update_of_ne hold]
      exact h.parked p hp hold
  · rw [hult]
    exact (h.alive _ (h.subset _ hnew)).1
  · intro p hp x hx
    rw [hcreations] at hx
    have hx := h.creating p hp x hx
    refine ⟨hx.lt, ?_, ?_, hx.written, hx.unwritten⟩
    · rw [hult]
      intro heq
      cases hw : x.written with
      | false => exact hx.unwritten hw _ (h.subset _ hnew) heq.symm
      | true =>
          obtain ⟨hwritten, henqueued⟩ := hx.written hw
          exact henqueued (h.eq_of_context (h.subset _ hnew) hwritten heq.symm ▸ hnew)
    · exact (Function.update_of_ne hx.ne_running ..).trans hx.fresh
  · intro p hp
    rw [hcreations]
    exact h.creations_nodup p hp
  · intro p hp p' hp' x hx x' hx' heq
    rw [hcreations] at hx hx'
    exact h.creations_unique p hp p' hp' x hx x' hx' heq

/-- A ULT may switch to itself. -/
theorem swapcontext_self (h : m.Numbered) {new : Option ℕ}
    (hframes : m.running.frames = .yieldSwap (some m.running.ult) new :: k) :
    (m.swapcontext m.running.ult m.running.ult k).Numbered ∧
      (m.swapcontext m.running.ult m.running.ult k).running = ⟨m.running.ult, .yieldTrue :: k⟩ := by
  have hrunning : (m.swapcontext m.running.ult m.running.ult k).running
      = ⟨m.running.ult, .yieldTrue :: k⟩ := Function.update_self ..
  have hult := congrArg Stack.ult hrunning
  have hsaved : ∀ u, u ≠ m.running.ult →
      (m.swapcontext m.running.ult m.running.ult k).saved u = m.saved u :=
    fun u hu => Function.update_of_ne hu ..
  have hcreations : ∀ u, creations ((m.swapcontext m.running.ult m.running.ult k).framesOf u)
      = creations (m.framesOf u) := by
    intro u
    by_cases hu : u = m.running.ult
    · rw [framesOf, if_pos (hu.trans hult.symm), hrunning, hu, framesOf_running, hframes]
      rfl
    · rw [framesOf, if_neg fun heq => hu (heq.trans hult), framesOf_of_ne hu, hsaved u hu]
  refine ⟨?_, hrunning⟩
  constructor
  · exact h.subset
  · exact h.contexts_nodup
  · exact h.slots_nodup
  · exact h.enqueued_nodup
  · exact h.alive
  · intro p hp hne
    have hne : p.1 ≠ m.running.ult := fun heq => hne (heq.trans hult.symm)
    rw [hsaved p.1 hne]
    exact h.parked p hp hne
  · rw [hult]
    exact h.running_lt
  · intro p hp x hx
    rw [hcreations] at hx
    have hx := h.creating p hp x hx
    exact ⟨hx.lt, fun heq => hx.ne_running (heq.trans hult), (hsaved _ hx.ne_running).trans hx.fresh,
      hx.written, hx.unwritten⟩
  · intro p hp
    rw [hcreations]
    exact h.creations_nodup p hp
  · intro p hp p' hp' x hx x' hx' heq
    rw [hcreations] at hx hx'
    exact h.creations_unique p hp p' hp' x hx x' hx' heq

end Numbered

end Numbered

end Machine

end Threaders.Hilolay
