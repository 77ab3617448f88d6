import Threaders.Hilolay.Slots
import Threaders.Hilolay.Termination

/-!
# Green threads that are not interrupted in the library

The statements of the library, executed one by one while no signal comes in between them, against
its operations taken as single steps; a signal in the code of a ULT is a `th_yield` there.  In the
middle of an operation the state that the operation started from is remembered, with what its
statements have done so far; the step is taken where the operation switches to another ULT or
returns.

A ULT that was switched away from resumes behind its `swapcontext`, so between two operations
its stack is its own code or the way back to it.

## Main definitions

* `Yielding` — what the statements of `th_yield` have done so far.
* `Resting` — the stacks between two operations.
* `Prepared` — the operation that a `th_yield` belongs to.
* `Simulates` — the operations that the statements have come to.
-/

namespace Threaders.Hilolay

open Lib

/-! ## The statements of `lib_enqueue` -/

/-- The second half of `lib_enqueue`: the ULT behind the tail. -/
def linkTail (s : Globals) (ult : Ult) : Globals :=
  let s := match s.readyQueueTail with
    | none => s
    | some last => s.setNext last (some ult)
  (s.setTail (some ult)).setNext ult none

/-- What `lib_enqueue` does from a statement on. -/
def EnqueueAt.complete (s : Globals) (ult : Ult) : EnqueueAt → Globals
  | .ready => libEnqueue s ult
  | .headTest => linkTail (if s.readyQueueHead = none then s.setHead (some ult) else s) ult
  | .head => linkTail (s.setHead (some ult)) ult
  | .tailTest | .link => linkTail s ult
  | .tail => (s.setTail (some ult)).setNext ult none
  | .close => s.setNext ult none

/-- What the statement relies on: the tail it goes through is there. -/
def EnqueueAt.TailSet (s : Globals) (ult : Ult) : EnqueueAt → Prop
  | .link => s.readyQueueTail ≠ none
  | .close => s.readyQueueTail = some ult
  | _ => True

/-- The statements that are left behind one. -/
def EnqueueAt.left : EnqueueAt → ℕ
  | .ready => 6
  | .headTest => 5
  | .head => 4
  | .tailTest => 3
  | .link => 2
  | .tail => 1
  | .close => 0

section Enqueue
variable {s s' : Globals} {ult : Ult} {point point' : EnqueueAt}

theorem left_enqueueStmt (h : enqueueStmt s ult point = some (s', some point')) :
    point'.left < point.left := by
  cases point with
  | ready | head | tail =>
      obtain ⟨-, rfl⟩ : _ = s' ∧ _ = point' := by simpa [enqueueStmt] using h
      decide
  | headTest | tailTest =>
      obtain ⟨-, rfl⟩ : _ = s' ∧ _ = point' := by simpa [enqueueStmt] using h
      split <;> decide
  | link =>
      obtain ⟨-, -, -, rfl⟩ : ∃ tail, _ ∧ _ = s' ∧ _ = point' := by simpa [enqueueStmt] using h
      decide
  | close => simp [enqueueStmt] at h

/-- Each statement leaves the rest to do. -/
theorem complete_enqueueStmt (h : enqueueStmt s ult point = some (s', some point')) :
    point'.complete s' ult = point.complete s ult ∧ point'.TailSet s' ult := by
  cases point with
  | ready =>
      obtain ⟨rfl, rfl⟩ : _ = s' ∧ _ = point' := by simpa [enqueueStmt] using h
      exact ⟨rfl, trivial⟩
  | headTest =>
      obtain ⟨rfl, rfl⟩ : _ = s' ∧ _ = point' := by simpa [enqueueStmt] using h
      by_cases hhead : s.readyQueueHead = none <;>
        simp [EnqueueAt.complete, EnqueueAt.TailSet, hhead]
  | head =>
      obtain ⟨rfl, rfl⟩ : _ = s' ∧ _ = point' := by simpa [enqueueStmt] using h
      exact ⟨rfl, trivial⟩
  | tailTest =>
      obtain ⟨rfl, rfl⟩ : _ = s' ∧ _ = point' := by simpa [enqueueStmt] using h
      cases htail : s.readyQueueTail <;>
        simp [EnqueueAt.complete, linkTail, EnqueueAt.TailSet, htail]
  | link =>
      cases htail : s.readyQueueTail with
      | none => simp [enqueueStmt, htail] at h
      | some tail =>
          obtain ⟨rfl, rfl⟩ : _ = s' ∧ _ = point' := by simpa [enqueueStmt, htail] using h
          simp [EnqueueAt.complete, linkTail, EnqueueAt.TailSet, htail]
  | tail =>
      obtain ⟨rfl, rfl⟩ : _ = s' ∧ _ = point' := by simpa [enqueueStmt] using h
      exact ⟨rfl, rfl⟩
  | close => cases htail : s.readyQueueTail <;> simp [enqueueStmt, htail] at h

/-- Behind the last one it is done. -/
theorem eq_complete (htail : point.TailSet s ult) (h : enqueueStmt s ult point = some (s', none)) :
    s' = point.complete s ult := by
  cases point with
  | close =>
      replace htail : s.readyQueueTail = some ult := htail
      obtain rfl : _ = s' := by simpa [enqueueStmt, htail] using h
      rfl
  | link => cases htail' : s.readyQueueTail <;> simp [enqueueStmt, htail'] at h
  | _ => simp [enqueueStmt] at h

/-- No statement goes through a null pointer. -/
theorem exists_enqueueStmt (htail : point.TailSet s ult) :
    ∃ s' next, enqueueStmt s ult point = some (s', next) := by
  cases point with
  | link =>
      obtain ⟨tail, hsome⟩ := Option.ne_none_iff_exists'.mp htail
      exact ⟨_, _, by simp [enqueueStmt, hsome]; exact ⟨rfl, rfl⟩⟩
  | close =>
      replace htail : s.readyQueueTail = some ult := htail
      exact ⟨_, _, by simp [enqueueStmt, htail]; exact ⟨rfl, rfl⟩⟩
  | _ => exact ⟨_, _, rfl⟩

end Enqueue

/-! ## The statements of `th_yield` -/

/-- The library once the ULT selected is set RUNNING and its burst has begun. -/
def selected (g : Globals) (a : Ult) (summaryTime startTime : ℤ) : Globals :=
  ((libSummarizeBurst (requeueCurrent g) summaryTime).setState a .running).setBurstStart a startTime

/-- What the statements of a `th_yield` that found the library as `p` have done so far. -/
inductive Yielding (p : Globals) : Globals → Frame → Prop
  | nextRead : Yielding p p .nextRead
  | nextTest : Yielding p p (.nextTest p.readyQueueHead)
  | nextPop {a : Ult} (hhead : p.readyQueueHead = some a) : Yielding p p (.nextPop (some a))
  | nextReturn {sel : Option Ult} {g : Globals} (hnext : libGetNextUlt p = (sel, g)) :
      Yielding p g (.nextReturn sel)
  | yieldTest {sel : Option Ult} {g : Globals} (hnext : libGetNextUlt p = (sel, g)) :
      Yielding p g (.yieldTest sel)
  | yieldRequeue {a : Ult} {g : Globals} (hnext : libGetNextUlt p = (some a, g)) :
      Yielding p g (.yieldRequeue a)
  | enqueue {a : Ult} {g lib : Globals} {point : EnqueueAt}
      (hnext : libGetNextUlt p = (some a, g)) (hlive : g.state g.currentUlt ≠ .free)
      (htail : point.TailSet lib g.currentUlt)
      (hlib : point.complete lib g.currentUlt = libEnqueue g g.currentUlt) :
      Yielding p lib (.enqueue point g.currentUlt (.yield a))
  | yieldSummarize {a : Ult} {g : Globals} (hnext : libGetNextUlt p = (some a, g)) :
      Yielding p (requeueCurrent g) (.yieldSummarize a)
  | yieldRunning {a : Ult} {g : Globals} (hnext : libGetNextUlt p = (some a, g)) (t₁ : ℤ) :
      Yielding p (libSummarizeBurst (requeueCurrent g) t₁) (.yieldRunning a)
  | yieldBurst {a : Ult} {g : Globals} (hnext : libGetNextUlt p = (some a, g)) (t₁ : ℤ) :
      Yielding p ((libSummarizeBurst (requeueCurrent g) t₁).setState a .running) (.yieldBurst a)
  | yieldOld {a : Ult} {g : Globals} (hnext : libGetNextUlt p = (some a, g)) (t₁ t₂ : ℤ) :
      Yielding p (selected g a t₁ t₂) (.yieldOld a)
  | yieldNew {a : Ult} {g lib : Globals} (hnext : libGetNextUlt p = (some a, g)) {t₁ t₂ : ℤ}
      (hlib : lib = selected g a t₁ t₂) :
      Yielding p lib (.yieldNew a (lib.context lib.currentUlt))
  | yieldCurrent {a : Ult} {g lib : Globals} (hnext : libGetNextUlt p = (some a, g)) {t₁ t₂ : ℤ}
      (hlib : lib = selected g a t₁ t₂) :
      Yielding p lib (.yieldCurrent a (lib.context lib.currentUlt) (lib.context a))
  | yieldSwap {switch : Switch} {lib : Globals} {t₁ t₂ : ℤ}
      (hyield : thYield p t₁ t₂ = (some switch, lib)) :
      Yielding p lib (.yieldSwap switch.old switch.new)

/-- The switch that a statement makes. -/
def Frame.switch : Frame → Option Switch
  | .yieldSwap old new => some ⟨old, new⟩
  | _ => none

/-- What a statement of a `th_yield` does: the `th_yield` goes on, or returns false, or switches
to the ULT it has selected. -/
inductive YieldStep (p : Globals) (m : Machine) (f : Frame) (k : List Frame) (m' : Machine) : Prop
  | on {lib : Globals} {f' : Frame} (hyielding : Yielding p lib f') (hm : m' = m.goto lib (f' :: k))
      (hf : f.switch = none)
  | returns (hhead : p.readyQueueHead = none) (hm : m' = m.goto p (yieldReturns false k))
      (hf : f.switch = none)
  | switches {old new : ℕ} {t₁ t₂ : ℤ}
      (hyield : thYield p t₁ t₂ = (some ⟨some old, some new⟩, m.lib))
      (hm : m' = m.swapcontext old new k) (hf : f.switch = some ⟨some old, some new⟩)

section Yield
variable {p g lib : Globals} {m m' : Machine} {f : Frame} {k : List Frame} {a : Ult} {time : ℤ}

theorem libGetNextUlt_of_none (h : p.readyQueueHead = none) : libGetNextUlt p = (none, p) := by
  simp [libGetNextUlt, h]

theorem libGetNextUlt_of_some (h : p.readyQueueHead = some a) :
    libGetNextUlt p = (some a, p.setHead (p.next a)) := by
  simp [libGetNextUlt, h]

theorem thYield_selected (hnext : libGetNextUlt p = (some a, g)) (t₁ t₂ : ℤ) :
    thYield p t₁ t₂ = (some ⟨(selected g a t₁ t₂).context (selected g a t₁ t₂).currentUlt,
      (selected g a t₁ t₂).context a⟩, (selected g a t₁ t₂).setCurrent a) := by
  simp only [thYield, hnext]
  rfl

theorem Yielding.ne_own (hy : Yielding p lib f) : f ≠ .own := by
  rintro rfl
  generalize hf : Frame.own = f at hy
  cases hy <;> cases hf

/-- One statement of a `th_yield`. -/
theorem Yielding.exec (hy : Yielding p lib f) (hlib : m.lib = lib)
    (h : m.exec time k f = some m') : YieldStep p m f k m' := by
  subst hlib
  generalize hm : m.lib = lib at hy
  cases hy with
  | nextRead =>
      obtain rfl : _ = m' := by simpa [Machine.exec] using h
      exact .on .nextTest (by rw [hm]) rfl
  | nextTest =>
      obtain rfl : _ = m' := by simpa [Machine.exec] using h
      cases hhead : p.readyQueueHead with
      | none => exact .on (.nextReturn (libGetNextUlt_of_none hhead)) (by simp [hm, hhead]) rfl
      | some a => exact .on (.nextPop hhead) (by simp [hm, hhead]) rfl
  | @nextPop a hhead =>
      obtain rfl : _ = m' := by simpa [Machine.exec, hm, hhead] using h
      exact .on (.nextReturn (libGetNextUlt_of_some hhead)) rfl rfl
  | nextReturn hnext =>
      obtain rfl : _ = m' := by simpa [Machine.exec] using h
      exact .on (.yieldTest hnext) (by rw [hm]) rfl
  | @yieldTest sel g hnext =>
      cases sel with
      | none =>
          obtain rfl : _ = m' := by simpa [Machine.exec] using h
          cases hhead : p.readyQueueHead with
          | none =>
              rw [libGetNextUlt_of_none hhead] at hnext
              obtain rfl : p = lib := (Prod.mk.inj hnext).2
              exact .returns hhead (by rw [hm]) rfl
          | some a =>
              rw [libGetNextUlt_of_some hhead] at hnext
              cases (Prod.mk.inj hnext).1
      | some a =>
          obtain rfl : _ = m' := by simpa [Machine.exec] using h
          exact .on (.yieldRequeue hnext) (by rw [hm]) rfl
  | @yieldRequeue a g hnext =>
      obtain rfl : _ = m' := by simpa [Machine.exec] using h
      by_cases hfree : lib.state lib.currentUlt = .free
      · have hrequeue : requeueCurrent lib = lib := by simp [requeueCurrent, hfree]
        exact .on (.yieldSummarize hnext) (by simp [hm, hfree, hrequeue]) rfl
      · have hrequeuing : Yielding p lib (.enqueue .ready lib.currentUlt (.yield a)) :=
          .enqueue hnext hfree trivial rfl
        exact .on hrequeuing (by simp [hm, hfree]) rfl
  | @enqueue a g lib point hnext hlive htail hlib =>
      obtain ⟨lib', next, hstmt⟩ := exists_enqueueStmt htail
      simp only [Machine.exec, hm, hstmt, Option.map_some, Option.some.injEq] at h
      cases next with
      | none =>
          obtain rfl : _ = m' := h
          have hdone : lib' = requeueCurrent g := by
            rw [eq_complete htail hstmt, hlib, requeueCurrent, if_pos hlive]
          exact .on (.yieldSummarize hnext) (by rw [← hdone]; rfl) rfl
      | some point' =>
          obtain rfl : _ = m' := h
          obtain ⟨hcomplete, htail'⟩ := complete_enqueueStmt hstmt
          exact .on (.enqueue hnext hlive htail' (hcomplete.trans hlib)) rfl rfl
  | yieldSummarize hnext =>
      obtain rfl : _ = m' := by simpa [Machine.exec] using h
      exact .on (.yieldRunning hnext time) (by rw [hm]) rfl
  | yieldRunning hnext t₁ =>
      obtain rfl : _ = m' := by simpa [Machine.exec] using h
      exact .on (.yieldBurst hnext t₁) (by rw [hm]) rfl
  | yieldBurst hnext t₁ =>
      obtain rfl : _ = m' := by simpa [Machine.exec] using h
      exact .on (.yieldOld hnext t₁ time) (by rw [hm]; rfl) rfl
  | yieldOld hnext t₁ t₂ =>
      obtain rfl : _ = m' := by simpa [Machine.exec] using h
      exact .on (.yieldNew hnext rfl) (by rw [hm]) rfl
  | yieldNew hnext hlib =>
      obtain rfl : _ = m' := by simpa [Machine.exec] using h
      exact .on (.yieldCurrent hnext hlib) (by rw [hm]) rfl
  | @yieldCurrent a g lib hnext t₁ t₂ hlib =>
      obtain rfl : _ = m' := by simpa [Machine.exec] using h
      subst hlib
      exact .on (.yieldSwap (thYield_selected hnext t₁ t₂)) (by rw [hm]) rfl
  | @yieldSwap switch lib t₁ t₂ hyield =>
      obtain ⟨old, new⟩ := switch
      cases old with
      | none => cases h
      | some old =>
          cases new with
          | none => cases h
          | some new =>
              obtain rfl : _ = m' := by simpa [Machine.exec] using h
              exact .switches (hm ▸ hyield) rfl rfl

/-- No statement of a `th_yield` gets stuck, up to a switch between contexts that exist. -/
theorem Yielding.exists_exec (hy : Yielding p m.lib f)
    (hswap : ∀ switch t₁ t₂ lib, thYield p t₁ t₂ = (some switch, lib) →
      switch.old ≠ none ∧ switch.new ≠ none) (time : ℤ) (k : List Frame) :
    ∃ m', m.exec time k f = some m' := by
  generalize hm : m.lib = lib at hy
  cases hy with
  | nextPop hhead => exact ⟨_, by simp [Machine.exec, hm, hhead]; rfl⟩
  | @yieldTest sel g hnext => cases sel <;> exact ⟨_, rfl⟩
  | enqueue hnext hlive htail hlib =>
      obtain ⟨lib', next, hstmt⟩ := exists_enqueueStmt htail
      exact ⟨_, by simp [Machine.exec, hm, hstmt]; rfl⟩
  | @yieldSwap switch lib t₁ t₂ hyield =>
      obtain ⟨old, new⟩ := switch
      obtain ⟨hold, hnew⟩ := hswap _ t₁ t₂ lib hyield
      obtain ⟨old, rfl⟩ := Option.ne_none_iff_exists'.mp hold
      obtain ⟨new, rfl⟩ := Option.ne_none_iff_exists'.mp hnew
      exact ⟨_, rfl⟩
  | _ => exact ⟨_, rfl⟩

end Yield

/-! ## Between two operations -/

/-- The stacks between two operations: own code, or the way back to it.  A main thread inside
`th_return` is on its way back to the loop. -/
inductive Resting (draining : Bool) (ult : Ult) : List Frame → Prop
  | own (hopen : draining = true → ult ≠ mainUlt) : Resting draining ult [.own]
  | yielded (hopen : draining = true → ult ≠ mainUlt) : Resting draining ult [.yieldTrue, .own]
  | created (hopen : draining = true → ult ≠ mainUlt) :
      Resting draining ult [.yieldTrue, .createReturn, .own]
  | creates (hopen : draining = true → ult ≠ mainUlt) : Resting draining ult [.createReturn, .own]
  | interrupted (hopen : draining = true → ult ≠ mainUlt) :
      Resting draining ult [.yieldTrue, .handlerEnd, .own]
  | resumed (hopen : draining = true → ult ≠ mainUlt) : Resting draining ult [.handlerEnd, .own]
  | drains (hdraining : draining = true) (hmain : ult = mainUlt) :
      Resting draining ult [.yieldTrue, .returnLoop, .own]

/-- The library in front of a `th_return`, where its `th_yield` is that of the operation: if
`th_stop` has come before it has summarized the burst. -/
inductive Ending (s : System) : Globals → (ℤ → ℤ → Op) → Prop
  | ret : Ending s s.lib .ret
  | stop (hmain : s.lib.currentUlt ≠ mainUlt) (t₀ : ℤ) :
      Ending s (libSummarizeBurst s.lib t₀) (.stop t₀)

/-- The `th_yield` of an operation that started in `s`: the library it finds, the statements it
returns to, and the operation. -/
inductive Prepared (s : System) : Globals → List Frame → (ℤ → ℤ → Op) → Prop
  | yield (hopen : s.draining = true → s.lib.currentUlt ≠ mainUlt) : Prepared s s.lib [.own] .yield
  | handler (hopen : s.draining = true → s.lib.currentUlt ≠ mainUlt) :
      Prepared s s.lib [.handlerEnd, .own] .yield
  | create {ult : Ult} (hopen : s.draining = true → s.lib.currentUlt ≠ mainUlt)
      (hfirst : firstFree s.lib = some ult) :
      Prepared s (thCreateAt s.lib ult) [.createReturn, .own] .create
  | drain (hmain : s.lib.currentUlt = mainUlt) : Prepared s s.lib [.returnLoop, .own] .ret
  | finish {lib : Globals} {op : ℤ → ℤ → Op} (hmain : s.lib.currentUlt ≠ mainUlt)
      (hending : Ending s lib op) :
      Prepared s (lib.setState lib.currentUlt .free) [.returnAssert, .own] op

section Prepared
variable {s : System} {p lib : Globals} {k : List Frame} {op : ℤ → ℤ → Op} {t₁ t₂ : ℤ}
  {switch : Switch} {ult : Ult}

theorem Resting.of_ne {draining : Bool} {fs : List Frame} (h : Resting draining ult fs)
    (hmain : ult ≠ mainUlt) (draining' : Bool) : Resting draining' ult fs := by
  cases h with
  | own => exact .own fun _ => hmain
  | yielded => exact .yielded fun _ => hmain
  | created => exact .created fun _ => hmain
  | creates => exact .creates fun _ => hmain
  | interrupted => exact .interrupted fun _ => hmain
  | resumed => exact .resumed fun _ => hmain
  | drains _ hult => exact absurd hult hmain

theorem Ending.currentUlt (h : Ending s lib op) : lib.currentUlt = s.lib.currentUlt := by
  cases h with
  | ret => rfl
  | stop => rfl

theorem Ending.eq_of_main (h : Ending s lib op) (hmain : s.lib.currentUlt = mainUlt) :
    lib = s.lib := by
  cases h with
  | ret => rfl
  | stop hne => exact absurd hmain hne

theorem Ending.finished (h : Ending s lib op) :
    Finished s.lib (lib.setState lib.currentUlt .free) := by
  cases h with
  | ret => exact finished_setState s.lib
  | stop _ t₀ => exact finished_libSummarizeBurst s.lib t₀

theorem Prepared.prepares (h : Prepared s p k op) (q : List Ult) : ∃ q', Prepares s.lib q p q' := by
  cases h with
  | yield | handler | drain => exact ⟨q, .keep⟩
  | create _ hfirst => exact ⟨_, .create (state_of_firstFree hfirst)⟩
  | finish hmain hending => exact ⟨q, .finish hmain hending.finished⟩

/-- No ULT in the queue owns the context of the current one. -/
theorem Prepared.context_ne (h : Prepared s p k op) (hs : Orderly s)
    (hready : p.state ult = .ready) :
    p.context ult ≠ p.context p.currentUlt := by
  intro heq
  obtain ⟨q, hq⟩ := hs.queue
  obtain ⟨q', hp⟩ := h.prepares q
  have hcur : ult ≠ p.currentUlt := fun hult => (hp.scheduled hq).current (hult ▸ hready)
  cases h with
  | yield | handler | drain =>
      exact hcur (hs.contexts.inj _ _ (by simp [hready]) (by simp [hq.running]) heq)
  | @create u _ hfirst =>
      have hlive := (readyQueue_thCreateAt hq (state_of_firstFree hfirst)).running
      exact hcur ((hp.contextsOwned hs.contexts).inj _ _ (by simp [hready]) (by rw [hlive]; decide)
        heq)
  | finish _ hending =>
      have hf := hending.finished
      rw [hf.current] at hcur heq
      rw [hf.context] at heq
      rw [hf.state, Function.update_of_ne hcur] at hready
      exact hcur (hs.contexts.inj _ _ (by simp [hready]) (by simp [hq.running]) heq)

/-- The operation is open to the current ULT. -/
theorem Prepared.enabled (h : Prepared s p k op) (hs : s.status = .running) (t₁ t₂ : ℤ) :
    s.Enabled (op t₁ t₂) := by
  cases h with
  | yield hopen | handler hopen | create hopen => exact ⟨hs, fun hd hm => absurd hm (hopen hd), nofun⟩
  | drain => exact ⟨hs, fun _ _ => ⟨t₁, t₂, rfl⟩, nofun⟩
  | finish hmain => exact ⟨hs, fun _ hm => absurd hm hmain, fun hm => absurd hm hmain⟩

/-- The step of the operation, where its `th_yield` switches. -/
theorem Prepared.switches (h : Prepared s p k op) (hs : s.status = .running)
    (hyield : thYield p t₁ t₂ = (some switch, lib)) :
    ∃ draining, System.Step s (op t₁ t₂, some switch) ⟨lib, draining, .running⟩ ∧
      (∀ u fs, u ≠ p.currentUlt → Resting s.draining u fs → Resting draining u fs) ∧
      (p.state p.currentUlt ≠ .free → Resting draining p.currentUlt (.yieldTrue :: k)) := by
  have henabled := h.enabled hs t₁ t₂
  cases h with
  | yield hopen =>
      refine ⟨s.draining, ⟨henabled, ?_⟩, fun _ _ _ hrest => hrest, fun _ => .yielded hopen⟩
      simp [System.exec, hyield, hs]
  | handler hopen =>
      refine ⟨s.draining, ⟨henabled, ?_⟩, fun _ _ _ hrest => hrest, fun _ => .interrupted hopen⟩
      simp [System.exec, hyield, hs]
  | @create u hopen hfirst =>
      have hcur : (thCreateAt s.lib u).currentUlt = s.lib.currentUlt :=
        currentUlt_thCreateAt s.lib u
      refine ⟨s.draining, ⟨henabled, ?_⟩, fun _ _ _ hrest => hrest,
        fun _ => .created (hcur ▸ hopen)⟩
      simp [System.exec, thCreate_of_some hfirst, hyield, hs]
  | drain hmain =>
      refine ⟨true, ⟨henabled, ?_⟩, fun u _ hu hrest => hrest.of_ne (hmain ▸ hu) true,
        fun _ => .drains rfl hmain⟩
      simp [System.exec, System.thReturn, hmain, hyield]
  | finish hmain hending =>
      refine ⟨s.draining, ⟨henabled, ?_⟩, fun _ _ _ hrest => hrest,
        fun hlive => absurd (by simp) hlive⟩
      cases hending with
      | ret => simp [System.exec, System.thReturn, hmain, hyield]
      | stop _ t₀ =>
          rw [currentUlt_libSummarizeBurst] at hyield
          simp [System.exec, System.thReturn, hmain, hyield]

/-- The step of the operation, where its `th_yield` returns false: it was a `th_yield` of own
code or of the handler, or the last round of the main thread. -/
theorem Prepared.returns (h : Prepared s p k op) (hs : Orderly s) (hstatus : s.status = .running)
    (hhead : p.readyQueueHead = none) (t₁ t₂ : ℤ) : p = s.lib ∧
    (yieldReturns false k = k ∧ Resting s.draining s.lib.currentUlt k ∧
        System.Step s (op t₁ t₂, none) s ∨
      k = [.returnLoop, .own] ∧ System.Step s (op t₁ t₂, none) ⟨s.lib, true, .exited⟩) := by
  obtain ⟨q, hq⟩ := hs.queue
  have henabled := h.enabled hstatus t₁ t₂
  have hyield : thYield p t₁ t₂ = (none, p) := by simp [thYield, libGetNextUlt, hhead]
  cases h with
  | yield hopen => exact ⟨rfl, .inl ⟨rfl, .own hopen, henabled, by simp [System.exec, hyield]⟩⟩
  | handler hopen =>
      exact ⟨rfl, .inl ⟨rfl, .resumed hopen, henabled, by simp [System.exec, hyield]⟩⟩
  | @create u _ hfirst =>
      have hrep := (readyQueue_thCreateAt hq (state_of_firstFree hfirst)).rep.head_eq
      replace hrep : (thCreateAt s.lib u).readyQueueHead = (q ++ [u]).head? := hrep
      simp [hhead] at hrep
  | drain hmain =>
      refine ⟨rfl, .inr ⟨rfl, henabled, ?_⟩⟩
      simp [System.exec, System.thReturn, hmain, hyield]
  | @finish lib op hmain hending =>
      have hmem := hq.main_mem hmain
      have hrep := (hending.finished.links ▸ hq.rep :).head_eq
      replace hrep : (lib.setState lib.currentUlt .free).readyQueueHead = q.head? := hrep
      rw [hhead, eq_comm, List.head?_eq_none_iff] at hrep
      simp [hrep] at hmem

end Prepared

/-! ## The simulation -/

theorem Prepares.context_main {s p : Globals} {q q' : List Ult} (hp : Prepares s q p q')
    (h : ReadyQueue s q) : p.context mainUlt = s.context mainUlt := by
  cases hp with
  | keep => rfl
  | @create ult hfree =>
      have hne : mainUlt ≠ ult := fun heq => h.main_live (heq ▸ hfree)
      simp [hne]
  | finish _ hf => rw [hf.context]

/-- Between two operations the main thread has the first context. -/
structure Rooted (s : System) : Prop extends Orderly s where
  main : s.lib.context mainUlt = some 0

theorem rooted_init (now : ℤ) : Rooted (System.init now) :=
  ⟨orderly_init now, by simp [System.init, libInit, Globals.context, libWriteTCB]⟩

theorem Rooted.step {s t : System} {label : Op × Option Switch} (h : Rooted s)
    (hstep : System.Step s label t) : Rooted t := by
  obtain ⟨op, switch⟩ := label
  obtain ⟨q, hq⟩ := h.queue
  refine ⟨h.toOrderly.step hstep, ?_⟩
  cases step_effect hq hstep with
  | stay hlib => rw [hlib, h.main]
  | switch hprepares hdispatches => rw [hdispatches.context, hprepares.context_main hq, h.main]

namespace Machine

/-- The stack that executes is that of the current ULT, and the one that a queued ULT goes on
with is saved in its context. -/
structure Stacks (m : Machine) (p : Globals) (draining : Bool) : Prop where
  running : p.context p.currentUlt = some m.running.ult
  saved : ∀ ult c, p.state ult = .ready → p.context ult = some c →
    (m.saved c).ult = c ∧ Resting draining ult (m.saved c).frames

/-- The operation under way started in `s`, and `p` is the library between two of its parts. -/
structure Within (m : Machine) (s : System) (p : Globals) : Prop where
  rooted : Rooted s
  status : s.status = .running
  stacked : m.Stacks p s.draining

/-- The machine is between two operations. -/
structure Rests (m : Machine) (s : System) : Prop where
  within : m.Within s s.lib
  lib_eq : m.lib = s.lib
  frames : Resting s.draining s.lib.currentUlt m.running.frames

/-- The process has exited. -/
structure Over (m : Machine) (s : System) : Prop where
  rooted : Rooted s
  status : s.status = .exited
  lib_eq : m.lib = s.lib
  frames : m.running.frames = []

/-- The operations completed have led to `s`, and the statements executed since are the first
ones of the next operation. -/
inductive Simulates (m : Machine) (s : System) : Prop
  | rest (h : m.Rests s) : Simulates m s
  | scan {i : ℕ} (h : m.Within s s.lib) (hlib : m.lib = s.lib)
      (hopen : s.draining = true → s.lib.currentUlt ≠ mainUlt)
      (hused : ∀ ult : Ult, ult.val < i → s.lib.state ult ≠ .free)
      (hframes : m.running.frames = [.createScan i, .own]) : Simulates m s
  | context {ult : Ult} (h : m.Within s s.lib) (hlib : m.lib = s.lib)
      (hopen : s.draining = true → s.lib.currentUlt ≠ mainUlt)
      (hfirst : firstFree s.lib = some ult)
      (hframes : m.running.frames = [.createContext ult, .own]) : Simulates m s
  | tcb {ult : Ult} (h : m.Within s s.lib) (hlib : m.lib = thCreateContext s.lib ult)
      (hopen : s.draining = true → s.lib.currentUlt ≠ mainUlt)
      (hfirst : firstFree s.lib = some ult)
      (hsaved : m.saved s.lib.contexts = ⟨s.lib.contexts, [.own]⟩)
      (hframes : m.running.frames = [.createTCB ult s.lib.contexts, .own]) : Simulates m s
  | enqueue {ult : Ult} {point : EnqueueAt} (h : m.Within s s.lib)
      (hlib : point.complete m.lib ult = thCreateAt s.lib ult) (htail : point.TailSet m.lib ult)
      (hopen : s.draining = true → s.lib.currentUlt ≠ mainUlt)
      (hfirst : firstFree s.lib = some ult)
      (hsaved : m.saved s.lib.contexts = ⟨s.lib.contexts, [.own]⟩)
      (hframes : m.running.frames = [.enqueue point ult (.create s.lib.contexts), .own]) :
      Simulates m s
  | created {ult : Ult} (h : m.Within s (thCreateAt s.lib ult))
      (hlib : m.lib = thCreateAt s.lib ult)
      (hopen : s.draining = true → s.lib.currentUlt ≠ mainUlt)
      (hfirst : firstFree s.lib = some ult)
      (hframes : m.running.frames = [.createYield, .own]) : Simulates m s
  | handler (h : m.Within s s.lib) (hlib : m.lib = s.lib)
      (hopen : s.draining = true → s.lib.currentUlt ≠ mainUlt)
      (hframes : m.running.frames = [.handler, .own]) : Simulates m s
  | stop (h : m.Within s s.lib) (hlib : m.lib = s.lib) (hmain : s.lib.currentUlt ≠ mainUlt)
      (hframes : m.running.frames = [.stopSummarize, .own]) : Simulates m s
  | ret {op : ℤ → ℤ → Op} (h : m.Within s s.lib) (hending : Ending s m.lib op)
      (hopen : s.draining = true → s.lib.currentUlt ≠ mainUlt)
      (hframes : m.running.frames = [.returnTest, .own]) : Simulates m s
  | free {op : ℤ → ℤ → Op} (h : m.Within s s.lib) (hending : Ending s m.lib op)
      (hmain : s.lib.currentUlt ≠ mainUlt)
      (hframes : m.running.frames = [.returnFree, .own]) : Simulates m s
  | yielding {p : Globals} {f : Frame} {k : List Frame} {op : ℤ → ℤ → Op} (h : m.Within s p)
      (hp : Prepared s p k op)
      (hy : Yielding p m.lib f) (hframes : m.running.frames = f :: k) : Simulates m s
  | exited (h : m.Over s) : Simulates m s

section Simulates
variable {m m' : Machine} {s : System} {p lib : Globals} {k fs : List Frame} {f : Frame}
  {op : ℤ → ℤ → Op} {a ult : Ult} {rest : List Ult} {time : ℤ} {label : Label}

/-- A switch leads from one rest to another: the current stack is saved behind its
`swapcontext`, and the one selected was at rest. -/
theorem Within.switch {old new : ℕ} {t₁ t₂ : ℤ} (h : m.Within s p) (hp : Prepared s p k op)
    (hyield : thYield p t₁ t₂ = (some ⟨some old, some new⟩, m.lib)) :
    ∃ t, System.Step s (op t₁ t₂, some ⟨some old, some new⟩) t ∧
      (m.swapcontext old new k).Rests t := by
  obtain ⟨q, hq⟩ := h.rooted.queue
  obtain ⟨q', hprepares⟩ := hp.prepares q
  have hsched := hprepares.scheduled hq
  obtain ⟨draining, hstep, hothers, hcurrent⟩ := hp.switches h.status hyield
  -- the queue is not empty, and its head is the ULT selected
  obtain ⟨a, rest, lib, rfl, hd, hyield'⟩ :=
    hprepares.yields hq (fun hnil => by
      subst hnil
      rw [thYield_nil hsched] at hyield
      cases hyield) t₁ t₂
  rw [hyield', Prod.mk.injEq, Option.some.injEq, Switch.mk.injEq, ← hprepares.currentUlt_eq]
    at hyield
  obtain ⟨⟨hold, hnew⟩, rfl⟩ := hyield
  have ha : p.state a = .ready := (hsched.mem_iff a).mp List.mem_cons_self
  have hne : ∀ u c, p.state u = .ready → p.context u = some c → c ≠ old := by
    intro u c hready hc heq
    exact hp.context_ne h.rooted.toOrderly hready (by rw [hc, hold, heq])
  have hacur : a ≠ p.currentUlt := fun heq => hsched.current (heq ▸ ha)
  have hrunning : (m.swapcontext old new k).running = m.saved new :=
    Function.update_of_ne (hne a new ha hnew) ..
  obtain ⟨hult, hresting⟩ := h.stacked.saved a new ha hnew
  refine ⟨_, hstep, ⟨h.rooted.step hstep, rfl, ?_, fun u c hready hc => ?_⟩, rfl, ?_⟩
  · rw [hrunning, hult, hd.context, hd.current, hnew]
  · rw [hd.context] at hc
    rw [hd.state] at hready
    split at hready
    · cases hready
    split at hready
    · next hmem =>
        obtain ⟨rfl, hlive⟩ := mem_requeued.mp hmem
        obtain rfl : old = c := by simpa [hold] using hc
        have hself : m.running.ult = old := by simpa [hold] using h.stacked.running.symm
        have hsaved : (m.swapcontext old new k).saved old = ⟨m.running.ult, .yieldTrue :: k⟩ :=
          Function.update_self ..
        rw [hsaved]
        exact ⟨hself, hcurrent hlive⟩
    · next hmem =>
        have hsaved : (m.swapcontext old new k).saved c = m.saved c :=
          Function.update_of_ne (hne u c hready hc) ..
        obtain ⟨hult, hresting⟩ := h.stacked.saved u c hready hc
        rw [hsaved]
        exact ⟨hult, hothers u _ (fun heq => hsched.current (heq ▸ hready)) hresting⟩
  · rw [hrunning, hd.current]
    exact hothers a _ hacur hresting

/-- What the statements do to the library leaves the stacks as they are. -/
theorem Within.goto (h : m.Within s p) (lib : Globals) (fs : List Frame) :
    (m.goto lib fs).Within s p := ⟨h.rooted, h.status, h.stacked.running, h.stacked.saved⟩

/-- A `th_yield` that returns false leads back to own code, or out of the process. -/
theorem Within.returns (h : m.Within s p) (hp : Prepared s p k op)
    (hhead : p.readyQueueHead = none) (t₁ t₂ : ℤ) :
    ∃ t, System.Step s (op t₁ t₂, none) t ∧
      ((m.goto p (yieldReturns false k)).Rests t ∨ (m.goto p (yieldReturns false k)).Over t) := by
  obtain ⟨rfl, ⟨hreturns, hrest, hop⟩ | ⟨rfl, hop⟩⟩ :=
    hp.returns h.rooted.toOrderly h.status hhead t₁ t₂
  · exact ⟨s, hop, .inl ⟨h.goto .., rfl, hreturns.symm ▸ hrest⟩⟩
  · exact ⟨_, hop, .inr ⟨h.rooted.step hop, rfl, rfl, rfl⟩⟩

theorem Within.main_of_context (h : m.Within s s.lib) (hult : m.running.ult = 0) :
    s.lib.currentUlt = mainUlt := by
  obtain ⟨q, hq⟩ := h.rooted.queue
  refine h.rooted.contexts.inj _ _ (by simp [hq.running]) hq.main_live ?_
  rw [h.stacked.running, h.rooted.main, hult]

theorem Within.main_context (h : m.Within s s.lib) (hmain : s.lib.currentUlt = mainUlt) :
    m.running.ult = 0 := by
  have hrunning := h.stacked.running
  rw [hmain, h.rooted.main] at hrunning
  exact (Option.some.inj hrunning).symm

theorem Within.ne_current (h : m.Within s s.lib) (hfirst : firstFree s.lib = some ult) :
    s.lib.currentUlt ≠ ult := by
  obtain ⟨q, hq⟩ := h.rooted.queue
  intro heq
  have hfree := state_of_firstFree hfirst
  rw [← heq, hq.running] at hfree
  cases hfree

/-- The context of a ULT that is made is a new one. -/
theorem Within.createContext (h : m.Within s s.lib) (hlib : m.lib = s.lib) (k : List Frame) :
    (m.createContext ult k).Within s s.lib := by
  refine ⟨h.rooted, h.status, h.stacked.running, fun u c hready hc => ?_⟩
  obtain ⟨c', hlt, hc'⟩ := h.rooted.contexts.allocated u (by simp [hready])
  obtain rfl : c' = c := by simpa [hc'] using hc
  have hsaved : (m.createContext ult k).saved c' = m.saved c' :=
    Function.update_of_ne (by rw [hlib]; exact hlt.ne) ..
  rw [hsaved]
  exact h.stacked.saved u c' hready hc

/-- Behind `lib_enqueue` the ULT that was made is in the queue, with its own code to execute. -/
theorem Within.created (h : m.Within s s.lib) (hfirst : firstFree s.lib = some ult)
    (hsaved : m.saved s.lib.contexts = ⟨s.lib.contexts, [.own]⟩) :
    m.Within s (thCreateAt s.lib ult) := by
  obtain ⟨q, hq⟩ := h.rooted.queue
  have hmain : ult ≠ mainUlt := fun heq => hq.main_live (heq ▸ state_of_firstFree hfirst)
  refine ⟨h.rooted, h.status, ?_, fun u c hready hc => ?_⟩
  · simpa [h.ne_current hfirst] using h.stacked.running
  · rcases eq_or_ne u ult with rfl | hne
    · obtain rfl : s.lib.contexts = c := by simpa using hc
      rw [hsaved]
      exact ⟨rfl, .own fun _ => hmain⟩
    · exact h.stacked.saved u c (by simpa [hne] using hready) (by simpa [hne] using hc)

/-- A TCB that is given back is the one of the current ULT. -/
theorem Within.finished (h : m.Within s s.lib) (hf : Finished s.lib p) : m.Within s p := by
  refine ⟨h.rooted, h.status, ?_, fun u c hready hc => ?_⟩
  · rw [hf.context, hf.current]
    exact h.stacked.running
  · rcases eq_or_ne u s.lib.currentUlt with rfl | hne
    · simp [hf.state] at hready
    · rw [hf.context] at hc
      exact h.stacked.saved u c (by simpa [hf.state, hne] using hready) hc

/-- The loop of `th_create` stops at the first free TCB. -/
theorem firstFree_eq_some (hfree : lib.state ult = .free)
    (hused : ∀ u : Ult, u.val < ult.val → lib.state u ≠ .free) : firstFree lib = some ult := by
  rw [firstFree, List.find?_eq_some_iff_getElem]
  refine ⟨by simpa using hfree, ult.val, by simp, by simp, fun j hj => ?_⟩
  simpa using hused ⟨j, hj.trans ult.isLt⟩ hj

theorem firstFree_eq_none (hused : ∀ u : Ult, lib.state u ≠ .free) : firstFree lib = none := by
  simpa [firstFree, List.find?_eq_none] using hused

/-- The operations that a step completes: none, or the one under way, with its switch. -/
def Completes (s : System) (switch : Option Switch) (m' : Machine) : Prop :=
  ∃ ops t, Run System.Step s ops t ∧ ops.filterMap Prod.snd = switch.toList ∧ m'.Simulates t

theorem Completes.stay (h : m'.Simulates s) : Completes s none m' := ⟨[], s, .nil s, rfl, h⟩

theorem Completes.single {t : System} {op : Op} {switch : Option Switch}
    (hop : System.Step s (op, switch) t) (h : m'.Simulates t) : Completes s switch m' :=
  ⟨_, t, .single hop, by cases switch <;> rfl, h⟩

/-- The switch that the next statement makes. -/
def switch (m : Machine) : Option Switch := m.running.frames.head?.bind Frame.switch

theorem switch_eq (hframes : m.running.frames = f :: k) : m.switch = f.switch := by
  simp [switch, hframes]

theorem exec_of_step (hframes : m.running.frames = f :: k) (hstep : m.step (.stmt time) = some m') :
    m.exec time k f = some m' := by
  simpa [step, hframes] using hstep

/-- A statement behind a `th_yield`, or none. -/
theorem Rests.stmt (h : m.Rests s) (hstep : m.step (.stmt time) = some m') :
    Completes s m.switch m' := by
  obtain ⟨h, hlib, hframes⟩ := h
  generalize hfs : m.running.frames = fs at hframes
  cases hframes with
  | own => cases exec_of_step hfs hstep
  | yielded hopen =>
      obtain rfl : _ = m' := by simpa [exec] using exec_of_step hfs hstep
      rw [switch_eq hfs]
      exact .stay (.rest ⟨h.goto .., hlib, .own hopen⟩)
  | created hopen =>
      obtain rfl : _ = m' := by simpa [exec] using exec_of_step hfs hstep
      rw [switch_eq hfs]
      exact .stay (.rest ⟨h.goto .., hlib, .creates hopen⟩)
  | creates hopen | resumed hopen =>
      obtain rfl : _ = m' := by simpa [exec] using exec_of_step hfs hstep
      rw [switch_eq hfs]
      exact .stay (.rest ⟨h.goto .., hlib, .own hopen⟩)
  | interrupted hopen =>
      obtain rfl : _ = m' := by simpa [exec] using exec_of_step hfs hstep
      rw [switch_eq hfs]
      exact .stay (.rest ⟨h.goto .., hlib, .resumed hopen⟩)
  | drains _ hmain =>
      obtain rfl : _ = m' := by simpa [exec] using exec_of_step hfs hstep
      have hy : Yielding s.lib m.lib .nextRead := hlib ▸ .nextRead
      rw [switch_eq hfs]
      exact .stay (.yielding (h.goto ..) (.drain hmain) hy rfl)

/-- All TCBs are in use. -/
theorem Within.create_none (h : m.Within s p)
    (hopen : s.draining = true → s.lib.currentUlt ≠ mainUlt) (hnone : firstFree s.lib = none)
    (t₁ t₂ : ℤ) : System.Step s (.create t₁ t₂, none) s :=
  ⟨⟨h.status, fun hd hm => absurd hm (hopen hd), nofun⟩, by
    simp [System.exec, thCreate_of_none hnone]⟩

/-- A statement of `th_create` in front of its `th_yield`. -/
theorem Simulates.stmt_scan {i : ℕ} (h : m.Within s s.lib) (hlib : m.lib = s.lib)
    (hopen : s.draining = true → s.lib.currentUlt ≠ mainUlt)
    (hused : ∀ ult : Ult, ult.val < i → s.lib.state ult ≠ .free)
    (hframes : m.running.frames = [.createScan i, .own])
    (hstep : m.step (.stmt time) = some m') : Completes s none m' := by
  have hexec := exec_of_step hframes hstep
  by_cases hi : i < maxUlts
  · by_cases hfree : s.lib.state ⟨i, hi⟩ = .free
    · obtain rfl : _ = m' := by simpa [exec, hi, hlib, hfree] using hexec
      exact .stay (.context (h.goto ..) rfl hopen (firstFree_eq_some hfree hused) rfl)
    · obtain rfl : _ = m' := by simpa [exec, hi, hlib, hfree] using hexec
      refine .stay (.scan (h.goto ..) rfl hopen (fun u hu => ?_) rfl)
      rcases Nat.lt_succ_iff_lt_or_eq.mp hu with hlt | heq
      · exact hused u hlt
      · obtain rfl : u = ⟨i, hi⟩ := Fin.ext heq
        exact hfree
  · obtain rfl : _ = m' := by simpa [exec, hi] using hexec
    have hnone : firstFree s.lib = none :=
      firstFree_eq_none fun u => hused u (u.isLt.trans_le (not_lt.mp hi))
    exact .single (h.create_none hopen hnone 0 0) (.rest ⟨h.goto .., hlib, .own hopen⟩)

/-- The statement that a simulation is in front of. -/
theorem Simulates.stmt (h : m.Simulates s) (hstep : m.step (.stmt time) = some m') :
    Completes s m.switch m' := by
  cases h with
  | rest h => exact h.stmt hstep
  | scan h hlib hopen hused hframes =>
      rw [switch_eq hframes]
      exact stmt_scan h hlib hopen hused hframes hstep
  | @context ult h hlib hopen hfirst hframes =>
      obtain rfl : _ = m' := by simpa [exec] using exec_of_step hframes hstep
      rw [switch_eq hframes]
      refine .stay (.tcb (h.createContext hlib _) ?_ hopen hfirst ?_ ?_)
      · simp [Machine.createContext, hlib]
      · simp [Machine.createContext, hlib]
      · simp [Machine.createContext, hlib]
  | @tcb ult h hlib hopen hfirst hsaved hframes =>
      obtain rfl : _ = m' := by simpa [exec] using exec_of_step hframes hstep
      rw [switch_eq hframes]
      have hdone :
          EnqueueAt.ready.complete (writeNextTCB m.lib ult) ult = thCreateAt s.lib ult := by
        rw [hlib]
        rfl
      exact .stay (.enqueue ⟨h.rooted, h.status, h.stacked.running, h.stacked.saved⟩ hdone
        trivial hopen hfirst hsaved rfl)
  | @enqueue ult point h hlib htail hopen hfirst hsaved hframes =>
      obtain ⟨lib, next, hstmt⟩ := exists_enqueueStmt htail
      have hexec := exec_of_step hframes hstep
      rw [switch_eq hframes]
      simp only [exec, hstmt, Option.map_some, Option.some.injEq] at hexec
      cases next with
      | none =>
          obtain rfl : _ = m' := hexec
          obtain rfl : lib = thCreateAt s.lib ult := (eq_complete htail hstmt).trans hlib
          obtain ⟨hrooted, hstatus, hrunning, hstacks⟩ := h.created hfirst hsaved
          exact .stay (.created ⟨hrooted, hstatus, hrunning, hstacks⟩ rfl hopen hfirst rfl)
      | some point' =>
          obtain rfl : _ = m' := hexec
          obtain ⟨hcomplete, htail'⟩ := complete_enqueueStmt hstmt
          exact .stay (.enqueue (h.goto ..) (hcomplete.trans hlib) htail' hopen hfirst hsaved
            rfl)
  | created h hlib hopen hfirst hframes =>
      obtain rfl : _ = m' := by simpa [exec] using exec_of_step hframes hstep
      rw [switch_eq hframes]
      have hy : Yielding m.lib m.lib .nextRead := .nextRead
      exact .stay (.yielding (h.goto ..) (.create hopen hfirst) (hlib ▸ hy) rfl)
  | handler h hlib hopen hframes =>
      obtain rfl : _ = m' := by simpa [exec] using exec_of_step hframes hstep
      rw [switch_eq hframes]
      have hy : Yielding s.lib m.lib .nextRead := hlib ▸ .nextRead
      exact .stay (.yielding (h.goto ..) (.handler hopen) hy rfl)
  | stop h hlib hmain hframes =>
      obtain rfl : _ = m' := by simpa [exec] using exec_of_step hframes hstep
      rw [switch_eq hframes]
      have hending : Ending s (libSummarizeBurst m.lib time) (.stop time) := hlib ▸ .stop hmain time
      exact .stay (.ret (h.goto ..) hending (fun _ => hmain) rfl)
  | ret h hending hopen hframes =>
      have hexec := exec_of_step hframes hstep
      rw [switch_eq hframes]
      by_cases hmain : s.lib.currentUlt = mainUlt
      · obtain rfl : _ = m' := by simpa [exec, hending.currentUlt, hmain] using hexec
        have hlib : m.lib = s.lib := hending.eq_of_main hmain
        have hy : Yielding s.lib m.lib .nextRead := hlib ▸ .nextRead
        exact .stay (.yielding (h.goto ..) (.drain hmain) hy rfl)
      · obtain rfl : _ = m' := by simpa [exec, hending.currentUlt, hmain] using hexec
        exact .stay (.free (h.goto ..) hending hmain rfl)
  | free h hending hmain hframes =>
      obtain rfl : _ = m' := by simpa [exec] using exec_of_step hframes hstep
      rw [switch_eq hframes]
      obtain ⟨hrooted, hstatus, hrunning, hsaved⟩ := h.finished hending.finished
      exact .stay (.yielding ⟨hrooted, hstatus, hrunning, hsaved⟩ (.finish hmain hending) .nextRead
        rfl)
  | yielding h hp hy hframes =>
      rw [switch_eq hframes]
      cases hy.exec rfl (exec_of_step hframes hstep) with
      | on hyielding hm hf =>
          subst hm
          rw [hf]
          exact .stay (.yielding (h.goto ..) hp hyielding rfl)
      | returns hhead hm hf =>
          subst hm
          rw [hf]
          obtain ⟨t, hop, hrests⟩ := h.returns hp hhead 0 0
          exact .single hop (hrests.elim .rest .exited)
      | switches hyield hm hf =>
          subst hm
          rw [hf]
          obtain ⟨t, hop, hrests⟩ := h.switch hp hyield
          exact .single hop (.rest hrests)
  | exited h => simp [step, h.frames] at hstep

/-- A call from own code is the start of an operation. -/
theorem Simulates.call {op : Call} (h : m.Simulates s) (hstep : m.step (.call op) = some m') :
    m'.Simulates s := by
  have not_own : ∀ {f : Frame} {k : List Frame}, m.running.frames = f :: k → f ≠ .own → False := by
    intro f k hframes hf
    cases f <;> simp [step, hframes] at hstep hf
  cases h with
  | rest h =>
      obtain ⟨h, hlib, hframes⟩ := h
      generalize hfs : m.running.frames = fs at hframes
      cases hframes with
      | own hopen =>
          simp only [step, hfs, Option.ite_none_left_eq_some, not_and, Option.some.injEq] at hstep
          obtain ⟨hstop, rfl⟩ := hstep
          cases op with
          | create => exact .scan (h.goto ..) hlib hopen (fun u hu => absurd hu (by omega)) rfl
          | yield =>
              have hy : Yielding s.lib m.lib .nextRead := hlib ▸ .nextRead
              exact .yielding (h.goto ..) (.yield hopen) hy rfl
          | ret =>
              have hending : Ending s m.lib .ret := hlib ▸ .ret
              exact .ret (h.goto ..) hending hopen rfl
          | stop =>
              exact .stop (h.goto ..) hlib (fun hmain => hstop rfl (h.main_context hmain)) rfl
      | yielded | created | creates | interrupted | resumed | drains =>
          exact (not_own hfs (by simp)).elim
  | scan _ _ _ _ hframes | context _ _ _ _ hframes | tcb _ _ _ _ _ hframes
  | enqueue _ _ _ _ _ _ hframes | created _ _ _ _ hframes | handler _ _ _ hframes
  | stop _ _ _ hframes | ret _ _ _ hframes | free _ _ _ hframes => exact (not_own hframes (by simp)).elim
  | yielding _ _ hy hframes => exact (not_own hframes hy.ne_own).elim
  | exited h => simp [step, h.frames] at hstep

/-- A signal in own code is the start of a `th_yield`. -/
theorem Simulates.signal (h : m.Simulates s) (hframes : m.running.frames = [.own])
    (hstep : m.step .signal = some m') : m'.Simulates s := by
  obtain rfl : m.goto m.lib [.handler, .own] = m' := by simpa [step, hframes] using hstep
  cases h with
  | rest h =>
      obtain ⟨h, hlib, hrest⟩ := h
      rw [hframes] at hrest
      cases hrest with
      | own hopen => exact .handler (h.goto ..) hlib hopen rfl
  | scan _ _ _ _ hfs | context _ _ _ _ hfs | tcb _ _ _ _ _ hfs | enqueue _ _ _ _ _ _ hfs
  | created _ _ _ _ hfs | handler _ _ _ hfs | stop _ _ _ hfs | ret _ _ _ hfs | free _ _ _ hfs =>
      rw [hframes] at hfs
      cases hfs
  | yielding _ _ hy hfs =>
      rw [hframes] at hfs
      exact absurd (List.cons.inj hfs).1.symm hy.ne_own
  | exited h => cases hframes.symm.trans h.frames

/-- A switch is between contexts that there are. -/
theorem Within.switch_ne_none {switch : Switch} {t₁ t₂ : ℤ} (h : m.Within s p)
    (hp : Prepared s p k op) (hyield : thYield p t₁ t₂ = (some switch, lib)) :
    switch.old ≠ none ∧ switch.new ≠ none := by
  obtain ⟨q, hq⟩ := h.rooted.queue
  obtain ⟨q', hprepares⟩ := hp.prepares q
  have hsched := hprepares.scheduled hq
  obtain ⟨a, rest, lib', rfl, -, hyield'⟩ :=
    hprepares.yields hq (fun hnil => by
      subst hnil
      rw [thYield_nil hsched] at hyield
      cases hyield) t₁ t₂
  rw [hyield', Prod.mk.injEq, Option.some.injEq, ← hprepares.currentUlt_eq] at hyield
  obtain ⟨rfl, -⟩ := hyield
  have ha : p.state a = .ready := (hsched.mem_iff a).mp List.mem_cons_self
  obtain ⟨c, -, hc⟩ :=
    (hprepares.contextsOwned h.rooted.contexts).allocated a (by simp [ha])
  exact ⟨by simp [h.stacked.running], by simp [hc]⟩

theorem step_of_exec (hframes : m.running.frames = f :: k) (hexec : m.exec time k f = some m') :
    m.step (.stmt time) = some m' := by
  simpa [step, hframes] using hexec

/-- Where own code is not to be executed there is a statement that can be. -/
theorem Simulates.exists_stmt (h : m.Simulates s) (hlive : m.running.frames ≠ [])
    (hown : ∀ k, m.running.frames ≠ .own :: k) (time : ℤ) :
    ∃ m', m.step (.stmt time) = some m' := by
  cases h with
  | rest h =>
      obtain ⟨-, -, hframes⟩ := h
      generalize hfs : m.running.frames = fs at hframes hown
      cases hframes with
      | own => exact absurd rfl (hown [])
      | yielded | created | creates | interrupted | resumed | drains =>
          exact ⟨_, step_of_exec hfs rfl⟩
  | @scan i h _ _ _ hframes =>
      by_cases hi : i < maxUlts
      · exact ⟨_, step_of_exec hframes (by simp [exec, hi]; rfl)⟩
      · exact ⟨_, step_of_exec hframes (by simp [exec, hi]; rfl)⟩
  | context _ _ _ _ hframes | tcb _ _ _ _ _ hframes | created _ _ _ _ hframes
  | handler _ _ _ hframes | stop _ _ _ hframes | ret _ _ _ hframes | free _ _ _ hframes =>
      exact ⟨_, step_of_exec hframes rfl⟩
  | enqueue _ _ htail _ _ _ hframes =>
      obtain ⟨lib, next, hstmt⟩ := exists_enqueueStmt htail
      exact ⟨_, step_of_exec hframes (by simp [exec, hstmt]; rfl)⟩
  | @yielding _ _ k _ h hp hy hframes =>
      obtain ⟨m', hexec⟩ :=
        hy.exists_exec (fun _ _ _ _ hyield => h.switch_ne_none hp hyield) time k
      exact ⟨m', step_of_exec hframes hexec⟩
  | exited h => exact absurd h.frames hlive

theorem rests_init (now : ℤ) : (Machine.init now).Rests (System.init now) where
  within :=
    { rooted := rooted_init now
      status := rfl
      stacked := by
        refine ⟨(rooted_init now).main, fun ult c hready _ => ?_⟩
        have hne : ult ∈ ([] : List Ult) := ((readyQueue_libInit now).mem_iff ult).mpr hready
        exact absurd hne List.not_mem_nil }
  lib_eq := rfl
  frames := .own nofun

/-- At own code, and where the process has exited, the library is that of the operations. -/
theorem Simulates.of_own (h : m.Simulates s) (hframes : m.running.frames = [.own]) :
    s.status = .running ∧ m.lib = s.lib := by
  cases h with
  | rest h => exact ⟨h.within.status, h.lib_eq⟩
  | scan _ _ _ _ hfs | context _ _ _ _ hfs | tcb _ _ _ _ _ hfs | enqueue _ _ _ _ _ _ hfs
  | created _ _ _ _ hfs | handler _ _ _ hfs | stop _ _ _ hfs | ret _ _ _ hfs | free _ _ _ hfs =>
      rw [hframes] at hfs
      cases hfs
  | yielding _ _ hy hfs =>
      rw [hframes] at hfs
      exact absurd (List.cons.inj hfs).1.symm hy.ne_own
  | exited h => cases hframes.symm.trans h.frames

theorem Simulates.of_nil (h : m.Simulates s) (hframes : m.running.frames = []) :
    s.status = .exited ∧ m.lib = s.lib := by
  cases h with
  | rest h =>
      have hrest := h.frames
      rw [hframes] at hrest
      cases hrest
  | scan _ _ _ _ hfs | context _ _ _ _ hfs | tcb _ _ _ _ _ hfs | enqueue _ _ _ _ _ _ hfs
  | created _ _ _ _ hfs | handler _ _ _ hfs | stop _ _ _ hfs | ret _ _ _ hfs | free _ _ _ hfs
  | yielding _ _ _ hfs =>
      cases hframes.symm.trans hfs
  | exited h => exact ⟨h.status, h.lib_eq⟩

end Simulates

end Machine

end Threaders.Hilolay
