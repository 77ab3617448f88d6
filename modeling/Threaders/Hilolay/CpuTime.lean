import Threaders.Hilolay.ReadyQueue
import Mathlib.Algebra.BigOperators.Group.Finset.Piecewise
import Mathlib.Algebra.Ring.Int.Defs
import Mathlib.Data.Fintype.BigOperators

/-!
# The CPU time of the green threads

`lib_summarize_burst` adds the time since `burst_start` to the execution time of the current
ULT, and only a dispatch sets `burst_start` again.  `th_yield` reads the clock once for the
summary and once for the dispatch, and `th_stop` summarizes a burst that the `th_yield` behind
it summarizes once more.  So what lies between the two readings of a dispatch is lost, and the
last burst of a ULT that ends through `th_stop` is counted twice.

The times are far from the bounds of an `int`.

## Main definitions

* `Account` — the process with the execution times of the ULTs that have finished.
* `Account.Conserved` — all time since `lib_init` is counted once.
* `step_counted` — what one operation counts too much or too little.
-/

namespace Threaders.Hilolay

open Lib

namespace Globals

/-- The execution time and the start of the burst of every TCB. -/
def executionTime (s : Globals) (ult : Ult) : ℤ := (s.ults ult).executionTime
def burstStart (s : Globals) (ult : Ult) : ℤ := (s.ults ult).burstStart

section Setters
variable (s : Globals) (ult : Ult) (tcb : TCB)

@[simp] theorem executionTime_setTCB :
    (s.setTCB ult tcb).executionTime =
      Function.update s.executionTime ult tcb.executionTime := by
  ext v
  by_cases h : v = ult <;> simp [executionTime, setTCB, h]

@[simp] theorem burstStart_setTCB :
    (s.setTCB ult tcb).burstStart = Function.update s.burstStart ult tcb.burstStart := by
  ext v
  by_cases h : v = ult <;> simp [burstStart, setTCB, h]

@[simp] theorem executionTime_setState (x : State) :
    (s.setState ult x).executionTime = s.executionTime :=
  (executionTime_setTCB ..).trans (Function.update_eq_self ult s.executionTime)
@[simp] theorem burstStart_setState (x : State) : (s.setState ult x).burstStart = s.burstStart :=
  (burstStart_setTCB ..).trans (Function.update_eq_self ult s.burstStart)

@[simp] theorem executionTime_setNext (n : Option Ult) :
    (s.setNext ult n).executionTime = s.executionTime :=
  (executionTime_setTCB ..).trans (Function.update_eq_self ult s.executionTime)
@[simp] theorem burstStart_setNext (n : Option Ult) :
    (s.setNext ult n).burstStart = s.burstStart :=
  (burstStart_setTCB ..).trans (Function.update_eq_self ult s.burstStart)

@[simp] theorem executionTime_setBurstStart (now : ℤ) :
    (s.setBurstStart ult now).executionTime = s.executionTime :=
  (executionTime_setTCB ..).trans (Function.update_eq_self ult s.executionTime)
@[simp] theorem burstStart_setBurstStart (now : ℤ) :
    (s.setBurstStart ult now).burstStart = Function.update s.burstStart ult now :=
  burstStart_setTCB ..

@[simp] theorem executionTime_setHead (p : Option Ult) :
    (s.setHead p).executionTime = s.executionTime := rfl
@[simp] theorem burstStart_setHead (p : Option Ult) :
    (s.setHead p).burstStart = s.burstStart := rfl

@[simp] theorem executionTime_setTail (p : Option Ult) :
    (s.setTail p).executionTime = s.executionTime := rfl
@[simp] theorem burstStart_setTail (p : Option Ult) :
    (s.setTail p).burstStart = s.burstStart := rfl

@[simp] theorem executionTime_setCurrent :
    (s.setCurrent ult).executionTime = s.executionTime := rfl
@[simp] theorem burstStart_setCurrent : (s.setCurrent ult).burstStart = s.burstStart := rfl

end Setters

end Globals

/-! ## The times an operation writes -/

section Times
variable (s : Globals) (ult : Ult)

@[simp] theorem executionTime_libEnqueue :
    (libEnqueue s ult).executionTime = s.executionTime := by
  cases hhead : s.readyQueueHead <;> cases htail : s.readyQueueTail <;>
    simp [libEnqueue, hhead, htail]

@[simp] theorem burstStart_libEnqueue : (libEnqueue s ult).burstStart = s.burstStart := by
  cases hhead : s.readyQueueHead <;> cases htail : s.readyQueueTail <;>
    simp [libEnqueue, hhead, htail]

@[simp] theorem executionTime_requeueCurrent :
    (requeueCurrent s).executionTime = s.executionTime := by
  unfold requeueCurrent
  split <;> simp

@[simp] theorem burstStart_requeueCurrent : (requeueCurrent s).burstStart = s.burstStart := by
  unfold requeueCurrent
  split <;> simp

/-- The time since `burst_start` goes to the current ULT. -/
@[simp] theorem executionTime_libSummarizeBurst (now : ℤ) :
    (libSummarizeBurst s now).executionTime = Function.update s.executionTime s.currentUlt
      (s.executionTime s.currentUlt + (now - s.burstStart s.currentUlt)) :=
  Globals.executionTime_setTCB ..

@[simp] theorem burstStart_libSummarizeBurst (now : ℤ) :
    (libSummarizeBurst s now).burstStart = s.burstStart :=
  (Globals.burstStart_setTCB ..).trans (Function.update_eq_self s.currentUlt s.burstStart)

/-- A new ULT has used no time. -/
@[simp] theorem executionTime_thCreateAt :
    (thCreateAt s ult).executionTime = Function.update s.executionTime ult 0 := by
  unfold thCreateAt
  rw [executionTime_libEnqueue]
  ext v
  by_cases h : v = ult <;>
    simp [writeNextTCB, thCreateContext, libWriteTCB, Globals.executionTime, Globals.setTCB, h]

@[simp] theorem burstStart_thCreateAt :
    (thCreateAt s ult).burstStart = Function.update s.burstStart ult 0 := by
  unfold thCreateAt
  rw [burstStart_libEnqueue]
  ext v
  by_cases h : v = ult <;>
    simp [writeNextTCB, thCreateContext, libWriteTCB, Globals.burstStart, Globals.setTCB, h]

variable {s} {a : Ult}

/-- A `th_yield` that switches summarizes the burst of the current ULT and opens that of the
selected one. -/
theorem times_thYield (hhead : s.readyQueueHead = some a) (t₁ t₂ : ℤ) :
    (thYield s t₁ t₂).2.executionTime = Function.update s.executionTime s.currentUlt
        (s.executionTime s.currentUlt + (t₁ - s.burstStart s.currentUlt)) ∧
      (thYield s t₁ t₂).2.burstStart = Function.update s.burstStart a t₂ := by
  constructor
  · simp [thYield, libGetNextUlt, hhead]
  · simp [thYield, libGetNextUlt, hhead]

end Times

/-! ## The time of the ULTs that have not finished -/

/-- What a TCB counts for: the execution time of its ULT, nothing where it is free. -/
def charged (s : Globals) (ult : Ult) : ℤ := if s.state ult = .free then 0 else s.executionTime ult

/-- The execution time of all ULTs that have not finished. -/
def liveTime (s : Globals) : ℤ := ∑ ult, charged s ult

/-- The time counted so far in the TCBs, up to the start of the open burst. -/
def counted (s : Globals) : ℤ := liveTime s - s.burstStart s.currentUlt

section Charged
variable {s s' : Globals} {ult : Ult}

theorem charged_of_free (h : s.state ult = .free) : charged s ult = 0 := if_pos h

theorem charged_of_live (h : s.state ult ≠ .free) : charged s ult = s.executionTime ult := if_neg h

/-- One TCB changes the time counted by what it changes itself, and so does the start of the
open burst. -/
theorem counted_update {x : ℤ} (h : charged s' = Function.update (charged s) ult x) :
    counted s' = counted s + (x - charged s ult) +
      (s.burstStart s.currentUlt - s'.burstStart s'.currentUlt) := by
  have hsum := Finset.sum_update_of_mem (Finset.mem_univ ult) (charged s) x
  have hrest := Finset.sum_erase_eq_sub (f := charged s) (Finset.mem_univ ult)
  rw [Finset.sdiff_singleton_eq_erase, hrest, ← h] at hsum
  unfold counted liveTime
  omega

/-- The free TCB that `th_create` takes counted for nothing, and the new ULT does so too. -/
theorem counted_thCreateAt (hfree : s.state ult = .free) (hcur : s.currentUlt ≠ ult) :
    counted (thCreateAt s ult) = counted s := by
  have hcharged : charged (thCreateAt s ult) = Function.update (charged s) ult 0 := by
    ext v
    by_cases h : v = ult <;> simp [charged, h]
  rw [counted_update hcharged, charged_of_free hfree, burstStart_thCreateAt,
    currentUlt_thCreateAt, Function.update_of_ne hcur]
  omega

/-- The summary of `th_stop` counts the open burst, and leaves it open. -/
theorem counted_libSummarizeBurst (hlive : s.state s.currentUlt ≠ .free) (now : ℤ) :
    counted (libSummarizeBurst s now) =
      counted s + (now - s.burstStart s.currentUlt) := by
  have hcharged : charged (libSummarizeBurst s now) = Function.update (charged s) s.currentUlt
      (s.executionTime s.currentUlt + (now - s.burstStart s.currentUlt)) := by
    ext v
    by_cases h : v = s.currentUlt
    · simp [charged, h, hlive]
    · simp [charged, h]
  rw [counted_update hcharged, charged_of_live hlive, burstStart_libSummarizeBurst,
    currentUlt_libSummarizeBurst]
  omega

/-- A ULT that gives its TCB back takes its execution time out of the table. -/
theorem counted_setState_free (hlive : s.state s.currentUlt ≠ .free) :
    counted (s.setState s.currentUlt .free) = counted s - s.executionTime s.currentUlt := by
  have hcharged : charged (s.setState s.currentUlt .free) =
      Function.update (charged s) s.currentUlt 0 := by
    ext v
    by_cases h : v = s.currentUlt <;> simp [charged, h]
  rw [counted_update hcharged, charged_of_live hlive, Globals.burstStart_setState,
    Globals.currentUlt_setState]
  omega

end Charged

/-! ## The clock readings of a `th_yield` -/

section Yield
variable {s : Globals} {a : Ult} {rest : List Ult}

/-- A dispatch opens the burst of the selected ULT at its second reading; what the TCBs count
for changes by what the current ULT is given. -/
theorem counted_of_dispatch {s' : Globals} (hq : Scheduled s (a :: rest))
    (hd : Dispatches s a rest s') (t₁ t₂ : ℤ)
    (htime : s'.executionTime = Function.update s.executionTime s.currentUlt
      (s.executionTime s.currentUlt + (t₁ - s.burstStart s.currentUlt)))
    (hburst : s'.burstStart = Function.update s.burstStart a t₂) :
    counted s' = counted s + s.burstStart s.currentUlt - t₂ +
      (if s.state s.currentUlt = .free then 0 else t₁ - s.burstStart s.currentUlt) := by
  have hcharged : charged s' = Function.update (charged s) s.currentUlt
      (if s.state s.currentUlt = .free then 0
        else s.executionTime s.currentUlt + (t₁ - s.burstStart s.currentUlt)) := by
    ext v
    by_cases h : v = s.currentUlt
    · simp [charged, htime, h, hd.free_iff hq]
    · simp [charged, htime, h, hd.free_iff hq]
  rw [counted_update hcharged, hburst, hd.current, Function.update_self]
  unfold charged
  split <;> omega

/-- The `th_yield` of a ULT that goes on loses what lies between its two readings. -/
theorem counted_thYield_live (hq : Scheduled s (a :: rest)) (hlive : s.state s.currentUlt ≠ .free)
    (t₁ t₂ : ℤ) : counted (thYield s t₁ t₂).2 = counted s - (t₂ - t₁) := by
  obtain ⟨s', hyield, hd⟩ := thYield_cons hq t₁ t₂
  obtain ⟨htime, hburst⟩ := times_thYield hq.rep.head_eq t₁ t₂
  rw [hyield] at htime hburst ⊢
  rw [counted_of_dispatch hq hd t₁ t₂ htime hburst, if_neg hlive]
  omega

/-- The `th_yield` of a ULT that has finished leaves the whole burst to the free TCB. -/
theorem counted_thYield_free (hq : Scheduled s (a :: rest)) (hfree : s.state s.currentUlt = .free)
    (t₁ t₂ : ℤ) :
    counted (thYield s t₁ t₂).2 + (thYield s t₁ t₂).2.executionTime s.currentUlt =
      counted s + s.executionTime s.currentUlt - (t₂ - t₁) := by
  obtain ⟨s', hyield, hd⟩ := thYield_cons hq t₁ t₂
  obtain ⟨htime, hburst⟩ := times_thYield hq.rep.head_eq t₁ t₂
  rw [hyield] at htime hburst ⊢
  rw [counted_of_dispatch hq hd t₁ t₂ htime hburst, if_pos hfree, htime, Function.update_self]
  omega

end Yield

/-! ## The account of a run -/

/-- The readings of the clock, in the order they are made. -/
def Op.times : Op → List ℤ
  | .create t₁ t₂ => [t₁, t₂]
  | .yield t₁ t₂ => [t₁, t₂]
  | .ret t₁ t₂ => [t₁, t₂]
  | .stop t₀ t₁ t₂ => [t₀, t₁, t₂]

/-- The last reading of the clock. -/
def Op.startTime : Op → ℤ
  | .create _ t₂ => t₂
  | .yield _ t₂ => t₂
  | .ret _ t₂ => t₂
  | .stop _ _ t₂ => t₂

/-- The time between the two readings of the `th_yield`, which no ULT is given. -/
def Op.lost : Op → ℤ
  | .create t₁ t₂ => t₂ - t₁
  | .yield t₁ t₂ => t₂ - t₁
  | .ret t₁ t₂ => t₂ - t₁
  | .stop _ t₁ t₂ => t₂ - t₁

/-- The burst that `th_stop` has summarized when its `th_yield` summarizes it again. -/
def doubled (s : Globals) : Op → ℤ
  | .create _ _ => 0
  | .yield _ _ => 0
  | .ret _ _ => 0
  | .stop t₀ _ _ => t₀ - s.burstStart s.currentUlt

/-- The operation finds a ULT to switch to: `th_create` the one it has created, and any other
the head of the queue. -/
def Switches (s : Globals) : Op → Prop
  | .create _ _ => firstFree s ≠ none
  | .yield _ _ => s.readyQueueHead ≠ none
  | .ret _ _ => s.readyQueueHead ≠ none
  | .stop _ _ _ => s.readyQueueHead ≠ none

/-- The process, with the execution times of the ULTs that have finished, each as the switch
away from the ULT left it, and the last reading of the clock. -/
structure Account where
  system : System
  finished : List ℤ
  clock : ℤ

namespace Account

/-- After `lib_init`. -/
def init (now : ℤ) : Account := ⟨System.init now, [], now⟩

/-- An operation whose readings of the clock go on from the last one and do not decrease. -/
inductive Step (a : Account) (label : Op × Option Switch) : Account → Prop
  | live {t : System} (hstep : System.Step a.system label t)
      (hclock : (a.clock :: label.1.times).Pairwise (· ≤ ·))
      (hop : ¬ a.system.Finishes label.1) :
      Step a label ⟨t, a.finished, label.1.startTime⟩
  | finish {t : System} (hstep : System.Step a.system label t)
      (hclock : (a.clock :: label.1.times).Pairwise (· ≤ ·))
      (hop : a.system.Finishes label.1) :
      Step a label ⟨t, a.finished ++ [t.lib.executionTime a.system.lib.currentUlt],
        label.1.startTime⟩

/-- The execution times of all ULTs ever created and the open burst make up the time since
`lib_init`, from the last reading of the clock on. -/
def Conserved (start : ℤ) (a : Account) : Prop :=
  ∀ now, a.clock ≤ now →
    liveTime a.system.lib + a.finished.sum +
      (now - a.system.lib.burstStart a.system.lib.currentUlt) = now - start

/-- An operation that switches loses as much as it counts twice. -/
def CountsOnce (a : Account) (label : Op × Option Switch) : Prop :=
  Switches a.system.lib label.1 → doubled a.system.lib label.1 = label.1.lost

theorem conserved_iff {start : ℤ} {a : Account} :
    a.Conserved start ↔ counted a.system.lib + a.finished.sum = -start := by
  unfold Conserved counted
  constructor
  · intro h
    have hclock := h a.clock le_rfl
    omega
  · intro h now _
    omega

theorem Step.deterministic : Deterministic Step := by
  intro a label b c hb hc
  cases hb with
  | live hstep hclock hop =>
      cases hc with
      | live hstep' => rw [(Prod.mk.inj (hstep.2.symm.trans hstep'.2)).2]
      | finish _ _ hop' => exact absurd hop' hop
  | finish hstep hclock hop =>
      cases hc with
      | live _ _ hop' => exact absurd hop hop'
      | finish hstep' => rw [(Prod.mk.inj (hstep.2.symm.trans hstep'.2)).2]

end Account

/-! ## One operation -/

section Steps
variable {s : Globals} {q : List Ult}

/-- The `th_yield` of a ULT that goes on, whether or not it finds somebody. -/
theorem counted_thYield (hq : Scheduled s q) (hlive : s.state s.currentUlt ≠ .free) (t₁ t₂ : ℤ) :
    (¬ s.readyQueueHead ≠ none → counted (thYield s t₁ t₂).2 = counted s) ∧
      (s.readyQueueHead ≠ none →
        counted (thYield s t₁ t₂).2 = counted s + (0 - (t₂ - t₁))) := by
  have hhead : s.readyQueueHead = q.head? := hq.rep.head_eq
  cases q with
  | nil =>
      rw [thYield_nil hq, hhead]
      simp
  | cons a rest =>
      rw [counted_thYield_live hq hlive, hhead]
      constructor
      · intro hnone
        simp at hnone
      · intro _
        omega

/-- The `th_yield` of a ULT that has given its TCB back finds the main one. -/
theorem counted_of_finished {p : Globals} {x : ℤ} (h : ReadyQueue s q)
    (hmain : s.currentUlt ≠ mainUlt) (hf : Finished s p)
    (hp : counted p + p.executionTime s.currentUlt = counted s + x) (t₁ t₂ : ℤ) :
    s.readyQueueHead ≠ none ∧
      counted (thYield p t₁ t₂).2 + (thYield p t₁ t₂).2.executionTime s.currentUlt =
        counted s + (x - (t₂ - t₁)) := by
  obtain ⟨a, rest, rfl⟩ := List.exists_cons_of_ne_nil (List.ne_nil_of_mem (h.main_mem hmain))
  have hhead : s.readyQueueHead = some a := h.rep.head_eq
  have hq : Scheduled p (a :: rest) := (Prepares.finish hmain hf).scheduled h
  have hfree : p.state p.currentUlt = .free := by simp [hf.current, hf.state]
  obtain ⟨s', hyield, hd⟩ := thYield_cons hq t₁ t₂
  have hcounted := counted_thYield_free hq hfree t₁ t₂
  rw [hf.current, hp] at hcounted
  refine ⟨by simp [hhead], ?_⟩
  rw [hcounted]
  omega

variable {a t : System} {op : Op} {switch : Option Switch}

/-- An operation after which the current ULT goes on counts nothing twice. -/
theorem counted_of_live (h : ReadyQueue a.lib q) (hstep : System.Step a (op, switch) t)
    (hop : ¬ a.Finishes op) :
    (¬ Switches a.lib op → counted t.lib = counted a.lib) ∧
      (Switches a.lib op →
        counted t.lib = counted a.lib + (doubled a.lib op - op.lost)) := by
  have hlive : a.lib.state a.lib.currentUlt ≠ .free := by simp [h.running]
  obtain ⟨⟨-, -, hstop⟩, hexec⟩ := hstep
  cases op with
  | create t₁ t₂ =>
      cases hfirst : firstFree a.lib with
      | none =>
          simp only [System.exec, thCreate_of_none hfirst] at hexec
          obtain ⟨-, rfl⟩ := Prod.mk.inj hexec
          simp [Switches, hfirst]
      | some ult =>
          have hfree := state_of_firstFree hfirst
          have hcur : a.lib.currentUlt ≠ ult := by
            intro heq
            exact hlive (heq ▸ hfree)
          have hq := (readyQueue_thCreateAt h hfree).toScheduled
          have hhead : (thCreateAt a.lib ult).readyQueueHead ≠ none := by
            have heq : (thCreateAt a.lib ult).readyQueueHead = (q ++ [ult]).head? := hq.rep.head_eq
            simp [heq]
          have hcounted := (counted_thYield hq (by simpa [hcur] using hlive) t₁ t₂).2 hhead
          simp only [System.exec, thCreate_of_some hfirst] at hexec
          obtain ⟨-, rfl⟩ := Prod.mk.inj hexec
          rw [counted_thCreateAt hfree hcur] at hcounted
          have hswitches : Switches a.lib (.create t₁ t₂) := by simp [Switches, hfirst]
          constructor
          · intro hnone
            exact absurd hswitches hnone
          · intro _
            exact hcounted
  | yield t₁ t₂ =>
      obtain ⟨-, rfl⟩ : _ = switch ∧ _ = t := by simpa [System.exec] using hexec
      exact counted_thYield h.toScheduled hlive t₁ t₂
  | ret t₁ t₂ =>
      have hmain : a.lib.currentUlt = mainUlt := by
        by_contra hmain
        exact hop (.ret hmain t₁ t₂)
      obtain ⟨-, rfl⟩ : _ = switch ∧ _ = t := by
        simpa [System.exec, System.thReturn, hmain] using hexec
      exact counted_thYield h.toScheduled hlive t₁ t₂
  | stop t₀ t₁ t₂ =>
      have hmain : a.lib.currentUlt ≠ mainUlt := by
        intro hmain
        exact hstop hmain t₀ t₁ t₂ rfl
      exact absurd (.stop hmain t₀ t₁ t₂) hop

/-- An operation that ends the current ULT leaves in its TCB what the ULT was given. -/
theorem counted_of_finishes (h : ReadyQueue a.lib q) (hstep : System.Step a (op, switch) t)
    (hop : a.Finishes op) :
    Switches a.lib op ∧
      counted t.lib + t.lib.executionTime a.lib.currentUlt =
        counted a.lib + (doubled a.lib op - op.lost) := by
  have hlive : a.lib.state a.lib.currentUlt ≠ .free := by simp [h.running]
  obtain ⟨-, hexec⟩ := hstep
  cases hop with
  | ret hmain t₁ t₂ =>
      have hp : counted (a.lib.setState a.lib.currentUlt .free) +
          (a.lib.setState a.lib.currentUlt .free).executionTime a.lib.currentUlt =
            counted a.lib + 0 := by
        rw [counted_setState_free hlive, Globals.executionTime_setState]
        omega
      obtain ⟨hhead, hcounted⟩ :=
        counted_of_finished h hmain (finished_setState a.lib) hp t₁ t₂
      obtain ⟨-, rfl⟩ : _ = switch ∧ _ = t := by
        simpa [System.exec, System.thReturn, hmain] using hexec
      exact ⟨hhead, hcounted⟩
  | stop hmain t₀ t₁ t₂ =>
      have hlive' : (libSummarizeBurst a.lib t₀).state
          (libSummarizeBurst a.lib t₀).currentUlt ≠ .free := by simpa using hlive
      have hp : counted ((libSummarizeBurst a.lib t₀).setState a.lib.currentUlt .free) +
          ((libSummarizeBurst a.lib t₀).setState a.lib.currentUlt .free).executionTime
            a.lib.currentUlt =
          counted a.lib + (t₀ - a.lib.burstStart a.lib.currentUlt) := by
        have hfree := counted_setState_free hlive'
        rw [currentUlt_libSummarizeBurst] at hfree
        rw [hfree, Globals.executionTime_setState, counted_libSummarizeBurst hlive]
        omega
      obtain ⟨hhead, hcounted⟩ :=
        counted_of_finished h hmain (finished_libSummarizeBurst a.lib t₀) hp t₁ t₂
      obtain ⟨-, rfl⟩ : _ = switch ∧ _ = t := by
        rw [System.exec, System.thReturn, if_neg (by simpa using hmain)] at hexec
        simpa using hexec
      exact ⟨hhead, hcounted⟩

end Steps

namespace Account

variable {a b : Account} {label : Op × Option Switch} {q : List Ult} {start : ℤ}

/-- What one operation counts too much or too little: nothing without a switch, and with one
what it counts twice less what it loses. -/
theorem step_counted (h : ReadyQueue a.system.lib q) (hstep : Step a label b) :
    (¬ Switches a.system.lib label.1 →
      counted b.system.lib + b.finished.sum = counted a.system.lib + a.finished.sum) ∧
    (Switches a.system.lib label.1 →
      counted b.system.lib + b.finished.sum =
        counted a.system.lib + a.finished.sum +
          (doubled a.system.lib label.1 - label.1.lost)) := by
  cases hstep with
  | live hstep _ hop =>
      obtain ⟨hstay, hswitch⟩ := counted_of_live h hstep hop
      constructor
      · intro hnone
        rw [hstay hnone]
      · intro hswitches
        simp only [hswitch hswitches]
        omega
  | finish hstep _ hop =>
      obtain ⟨hswitches, hcounted⟩ := counted_of_finishes h hstep hop
      constructor
      · intro hnone
        exact absurd hswitches hnone
      · intro _
        simp only [List.sum_append, List.sum_singleton]
        omega

/-- A step counts every interval once exactly if it meets the condition. -/
theorem step_conserved (h : ReadyQueue a.system.lib q) (hstep : Step a label b)
    (ha : a.Conserved start) : b.Conserved start ↔ a.CountsOnce label := by
  obtain ⟨hstay, hswitch⟩ := step_counted h hstep
  rw [conserved_iff] at ha ⊢
  unfold CountsOnce
  by_cases hswitches : Switches a.system.lib label.1
  · rw [hswitch hswitches, ha]
    constructor
    · intro heq _
      omega
    · intro heq
      have hdoubled := heq hswitches
      omega
  · rw [hstay hswitches, ha]
    simp [hswitches]

theorem readyQueue_step (h : ∃ q, ReadyQueue a.system.lib q) (hstep : Step a label b) :
    ∃ q, ReadyQueue b.system.lib q := by
  obtain ⟨q, hq⟩ := h
  have hsystem : System.Step a.system label b.system := by
    cases hstep with
    | live hstep => exact hstep
    | finish hstep => exact hstep
  rcases hq.step hsystem with ⟨-, hq⟩ | ⟨-, xs, ys, u, rest, -, -, hq⟩
  · exact ⟨q, hq⟩
  · exact ⟨rest ++ ys, hq⟩

theorem conserved_init (start : ℤ) : (init start).Conserved start := by
  have hcharged : ∀ ult, charged (libInit start) ult = 0 := by
    intro ult
    by_cases h : ult = mainUlt <;>
      simp [charged, libInit, Globals.state, Globals.executionTime, libWriteTCB, TCB.zero, h]
  rw [conserved_iff]
  simp [init, System.init, counted, liveTime, hcharged]
  simp [libInit, Globals.burstStart]

/-- In every run, whatever its operations and as long as the clock does not go back, all time
since `lib_init` is counted once after each operation if and only if each operation that
switches loses as much as it counts twice: the two readings of its `th_yield` are equal, and a
ULT that ends through `th_stop` does so in the second its burst began, or the last burst makes
up for the time between the readings. -/
theorem cpu_time_conserved_iff {labels : List (Op × Option Switch)}
    (hrun : Run Step (init start) labels a) :
    Along Step (fun _ b => b.Conserved start) (init start) labels ↔
      EachStep Step CountsOnce (init start) labels := by
  have hiff := along_iff (P := fun _ b => b.Conserved start) (C := CountsOnce)
    (I := fun _ b => (∃ q, ReadyQueue b.system.lib q) ∧ b.Conserved start)
    Step.deterministic (fun _ _ h => h.2)
    (fun h => ⟨⟨[], readyQueue_libInit start⟩, h⟩) ?_ hrun
  · rw [hiff]
    simp [conserved_init]
  · intro _ label b c ⟨hq, hb⟩ hstep
    obtain ⟨q, hq'⟩ := id hq
    have hconserved := step_conserved hq' hstep hb
    constructor
    · intro honce
      exact ⟨readyQueue_step hq hstep, hconserved.2 honce⟩
    · exact hconserved.1

theorem enabled_create_init (start t₁ t₂ : ℤ) :
    (System.init start).Enabled (.create t₁ t₂) := by
  refine ⟨rfl, fun hdraining => ?_, fun _ _ _ _ hop => ?_⟩
  · cases hdraining
  · cases hop

theorem not_finishes_create {s : System} {t₁ t₂ : ℤ} : ¬ s.Finishes (.create t₁ t₂) := by
  intro hop
  cases hop

/-- A ULT is created within one second. -/
theorem cpu_time_conserved_iff_create :
    Along Step (fun _ b => b.Conserved 0) (init 0)
      [(.create 1 1, ((System.init 0).exec (.create 1 1)).1)] := by
  have hstep : Step (init 0) (.create 1 1, ((System.init 0).exec (.create 1 1)).1) _ :=
    .live (.of_enabled (enabled_create_init 0 1 1)) (by decide) not_finishes_create
  refine (cpu_time_conserved_iff (.single hstep)).mpr
    ((eachStep_snoc Step.deterministic (.nil _)).mpr ?_)
  exact ⟨eachStep_nil, fun _ => rfl⟩

/-- The first ULT runs at once, from the time its `th_create` read last. -/
theorem exists_create_init (start t₁ t₂ : ℤ) : ∃ switch t,
    System.Step (System.init start) (.create t₁ t₂, switch) t ∧ t.draining = false ∧
      t.status = .running ∧ t.lib.currentUlt ≠ mainUlt ∧
      t.lib.burstStart t.lib.currentUlt = t₂ := by
  have hq : ReadyQueue (libInit start) [] := readyQueue_libInit start
  obtain ⟨ult, hfirst⟩ : ∃ ult, firstFree (libInit start) = some ult := by
    rw [← Option.ne_none_iff_exists']
    intro hnone
    have hone := List.find?_eq_none.1 hnone ⟨1, by decide⟩ (List.mem_finRange _)
    simp [libInit, Globals.state, TCB.zero, mainUlt] at hone
  have hfree := state_of_firstFree hfirst
  have hmain : ult ≠ mainUlt := by
    rintro rfl
    exact hq.main_live hfree
  have hcreated := readyQueue_thCreateAt hq hfree
  obtain ⟨s', hyield, hd⟩ := thYield_cons hcreated.toScheduled t₁ t₂
  have hburst := (times_thYield hcreated.rep.head_eq t₁ t₂).2
  rw [hyield] at hburst
  obtain ⟨switch, hexec⟩ : ∃ switch,
      (System.init start).exec (.create t₁ t₂) = (switch, ⟨s', false, .running⟩) := by
    simp only [System.exec, System.init, thCreate_of_some hfirst, hyield]
    exact ⟨_, rfl⟩
  refine ⟨switch, ⟨s', false, .running⟩, ⟨enabled_create_init start t₁ t₂, hexec⟩, rfl, rfl, ?_, ?_⟩
  · simpa [hd.current] using hmain
  · simp [hd.current, hburst]

/-- A ULT created in second 5 that returns in second 7 has used 2 seconds, and is given 4. -/
theorem stop_counts_twice : ∃ s₁ s₂ a,
    Run Step (init 0) [(.create 5 5, s₁), (.stop 7 7 7, s₂)] a ∧ ¬ a.Conserved 0 := by
  obtain ⟨s₁, t, hcreate, hdraining, hstatus, hmain, hburst⟩ := exists_create_init 0 5 5
  have hq : ReadyQueue (init 0).system.lib [] := readyQueue_libInit 0
  have hstep₁ : Step (init 0) (.create 5 5, s₁) ⟨t, [], 5⟩ :=
    .live hcreate (by simp [init, Op.times]) not_finishes_create
  obtain ⟨q, hq₁⟩ := readyQueue_step ⟨[], hq⟩ hstep₁
  have henabled : t.Enabled (.stop 7 7 7) :=
    ⟨hstatus, fun h => by simp [hdraining] at h, fun h => absurd h hmain⟩
  have hstop : t.Finishes (.stop 7 7 7) := .stop hmain 7 7 7
  have hstep₂ := Step.finish (a := ⟨t, [], 5⟩) (.of_enabled henabled)
    (by simp [Op.times]) hstop
  refine ⟨s₁, _, _, .cons hstep₁ (.single hstep₂), ?_⟩
  have hconserved : (⟨t, [], 5⟩ : Account).Conserved 0 :=
    (step_conserved hq hstep₁ (conserved_init 0)).2 (by simp [CountsOnce, doubled, Op.lost])
  rw [step_conserved hq₁ hstep₂ hconserved]
  intro honce
  have htwice := honce (counted_of_finishes hq₁ (.of_enabled henabled) hstop).1
  simp only [doubled, Op.lost, hburst] at htwice
  omega

end Account

end Threaders.Hilolay
