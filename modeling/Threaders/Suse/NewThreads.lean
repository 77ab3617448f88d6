import Threaders.Lib.Sieve
import Threaders.Suse.Selection

/-!
# How long a thread stays new

A call of the long-term scheduler steps over every second thread, so it takes further calls to
admit those that it stepped over.  While the guard lets them in, each call halves what is new: the
threads of the `j`-th call stood at the positions `2 ^ j * (2 * m + 1) - 1`.  Each admission brings
the two sides of the guard closer by two, so that it closes after as many admissions whatever the
calls they are made in.

The first of the new threads is never stepped over.  So whatever the other operations do between
the calls, a thread moves up by one with each call that finds the guard open.

## Main definitions

* `room` — the admissions that the guard leaves.
* `GuardedStep` — a step, with whether it is a call of the long-term scheduler with its guard open.
-/

namespace Threaders.Suse

open Lib

/-! ## Calls one behind the other -/

section Passes
variable {α ρ : Type*}

theorem taken_eq (k : ℕ) (xs : List α) : taken k xs = (everySecond xs).take k := by
  induction k generalizing xs with
  | zero => rfl
  | succ k ih =>
      match xs with
      | [] => rfl
      | [x] => simp [everySecond, ih]
      | x :: y :: xs =>
          rw [taken_succ_cons, List.tail_cons, ih]
          rfl

theorem leftOver_eq_skipped {k : ℕ} {xs : List α} (h : xs.length ≤ 2 * k) :
    leftOver k xs = skipped xs := by
  induction k generalizing xs with
  | zero =>
      obtain rfl := List.eq_nil_of_length_eq_zero (Nat.le_zero.mp h)
      rfl
  | succ k ih =>
      match xs with
      | [] => rfl
      | [x] => simp [skipped, ih]
      | x :: y :: xs =>
          rw [leftOver_succ_cons, List.tail_cons, ih (by simp only [List.length_cons] at h; omega)]
          rfl

theorem length_leftOver {k : ℕ} {xs : List α} (h : 2 * k ≤ xs.length + 1) :
    (leftOver k xs).length + k = xs.length := by
  induction k generalizing xs with
  | zero => rfl
  | succ k ih =>
      match xs, h with
      | [x], h =>
          obtain rfl : k = 0 := by
            rw [List.length_singleton] at h
            omega
          rfl
      | x :: y :: xs, h =>
          simp only [List.length_cons] at h
          have htail : (leftOver k xs).length + k = xs.length := by
            apply ih
            omega
          simp only [leftOver_succ_cons, List.tail_cons, List.take_succ_cons, List.take_zero,
            List.length_append, List.length_cons, List.length_nil]
          omega

/-- The admissions that the guard leaves. -/
def room (s : SuseState ρ) : ℕ := ((s.maxMultiprog - s.queueReady.length) / 2 + 1).toNat

/-- The admissions of one call. -/
def admissionsOf (s : SuseState ρ) : ℕ := min ((s.queueNew.length + 1) / 2) (room s)

variable {s : SuseState ρ}

theorem two_mul_admissionsOf_le (s : SuseState ρ) :
    2 * admissionsOf s ≤ s.queueNew.length + 1 := by
  rw [admissionsOf]
  omega

/-- A call, by how many it admits. -/
theorem longTerm_admitThreads (s : SuseState ρ) :
    schedulerRunLongTermScheduler s = s.admitThreads [] s.queueNew (admissionsOf s) := longTerm_eq s

/-- What one call does to the sizes of the queues, to the counter and to the guard. -/
theorem longTerm_counts (s : SuseState ρ) :
    (schedulerRunLongTermScheduler s).queueNew.length + admissionsOf s = s.queueNew.length ∧
      (schedulerRunLongTermScheduler s).maxMultiprog = s.maxMultiprog - admissionsOf s ∧
      room (schedulerRunLongTermScheduler s) = room s - admissionsOf s := by
  have hle := two_mul_admissionsOf_le s
  have htaken : (taken (admissionsOf s) s.queueNew).length = admissionsOf s := by
    rw [taken_eq, List.length_take, length_everySecond]
    omega
  rw [longTerm_admitThreads]
  refine ⟨length_leftOver hle, rfl, ?_⟩
  simp only [room, SuseState.admitThreads, List.length_append, htaken]
  push_cast
  omega

theorem queueReady_longTerm (s : SuseState ρ) :
    (schedulerRunLongTermScheduler s).queueReady
      = s.queueReady ++ (everySecond s.queueNew).take (admissionsOf s) := by
  rw [longTerm_admitThreads, SuseState.admitThreads, taken_eq]

/-- Where the guard leaves a whole pass, a call makes one. -/
theorem queueNew_longTerm (h : (s.queueNew.length + 1) / 2 ≤ room s) :
    (schedulerRunLongTermScheduler s).queueNew = skipped s.queueNew := by
  have hpass : admissionsOf s = (s.queueNew.length + 1) / 2 := min_eq_left h
  rw [longTerm_admitThreads, SuseState.admitThreads, hpass]
  exact leftOver_eq_skipped (by omega)

/-- A call changes nothing where nobody is new or the guard is closed. -/
theorem longTerm_eq_self_iff :
    schedulerRunLongTermScheduler s = s ↔ s.queueNew.length = 0 ∨ room s = 0 := by
  have hzero : admissionsOf s = 0 ↔ s.queueNew.length = 0 ∨ room s = 0 := by
    rw [admissionsOf]
    omega
  rw [← hzero]
  constructor
  · intro h
    have hcount := (longTerm_counts s).1
    rw [h] at hcount
    omega
  · intro h
    rw [longTerm_admitThreads, h]
    exact admitThreads_zero rfl

theorem iterate_counts (s : SuseState ρ) (k : ℕ) :
    (schedulerRunLongTermScheduler^[k] s).queueNew.length
        + min (room s) (s.queueNew.length - s.queueNew.length / 2 ^ k) = s.queueNew.length ∧
      (schedulerRunLongTermScheduler^[k] s).maxMultiprog = s.maxMultiprog
        - min (room s) (s.queueNew.length - s.queueNew.length / 2 ^ k) ∧
      room (schedulerRunLongTermScheduler^[k] s) = room s
        - min (room s) (s.queueNew.length - s.queueNew.length / 2 ^ k) := by
  induction k generalizing s with
  | zero => simp
  | succ k ih =>
      obtain ⟨hlength, hmultiprog, hroom⟩ := ih (schedulerRunLongTermScheduler s)
      obtain ⟨hlength', hmultiprog', hroom'⟩ := longTerm_counts s
      have hpow : s.queueNew.length / 2 ^ (k + 1) = s.queueNew.length / 2 / 2 ^ k := by
        rw [Nat.div_div_eq_div_mul, pow_succ']
      have hhalf := Nat.div_le_self (s.queueNew.length / 2) (2 ^ k)
      -- Either the guard closes in the first call, or the call leaves the half of the threads.
      have hsum : admissionsOf s + min (room (schedulerRunLongTermScheduler s))
            ((schedulerRunLongTermScheduler s).queueNew.length
              - (schedulerRunLongTermScheduler s).queueNew.length / 2 ^ k)
          = min (room s) (s.queueNew.length - s.queueNew.length / 2 ^ (k + 1)) := by
        rw [hpow, hroom']
        rcases Nat.lt_or_ge (room s) ((s.queueNew.length + 1) / 2) with hcloses | hpass
        · have hk : admissionsOf s = room s := min_eq_right hcloses.le
          omega
        · have hk : admissionsOf s = (s.queueNew.length + 1) / 2 := min_eq_left hpass
          have hleft : (schedulerRunLongTermScheduler s).queueNew.length
              = s.queueNew.length / 2 := by omega
          rw [hleft]
          omega
      rw [Function.iterate_succ_apply, ← hsum]
      refine ⟨by omega, ?_, by omega⟩
      rw [hmultiprog, hmultiprog']
      push_cast
      omega

theorem iterate_queueReady (s : SuseState ρ) (k : ℕ) :
    (schedulerRunLongTermScheduler^[k] s).queueReady
      = s.queueReady ++ (passes k s.queueNew).take (room s) := by
  induction k generalizing s with
  | zero => simp
  | succ k ih =>
      rw [Function.iterate_succ_apply, ih, queueReady_longTerm, (longTerm_counts s).2.2,
        passes_succ, List.append_assoc, List.take_append, length_everySecond]
      rcases Nat.lt_or_ge (room s) ((s.queueNew.length + 1) / 2) with hcloses | hpass
      · have hk : admissionsOf s = room s := min_eq_right hcloses.le
        rw [hk, Nat.sub_self, Nat.sub_eq_zero_of_le hcloses.le, List.take_zero, List.take_zero]
      · have hk : admissionsOf s = (s.queueNew.length + 1) / 2 := min_eq_left hpass
        rw [hk, queueNew_longTerm hpass,
          List.take_of_length_le (length_everySecond.trans_le hpass),
          List.take_of_length_le length_everySecond.le]

/-- **Calls of the long-term scheduler one behind the other.**  After `k` of them those admitted
are, in this order, the threads at the positions `2 ^ j * (2 * m + 1) - 1` of `queue_new`, for `j`
from 0 to `k - 1`, as far as the guard goes: it leaves half the difference of its two sides, and
one.  The next call changes nothing exactly if `queue_new` had less than `2 ^ k` threads or the
guard has closed. -/
theorem longTerm_calls (s : SuseState ρ) (k : ℕ) :
    let s' := schedulerRunLongTermScheduler^[k] s
    let n := s.queueNew.length
    s'.queueReady = s.queueReady ++ (passes k s.queueNew).take (room s) ∧
      s'.queueNew.length = n - min (room s) (n - n / 2 ^ k) ∧
      s'.maxMultiprog = s.maxMultiprog - min (room s) (n - n / 2 ^ k) ∧
      (schedulerRunLongTermScheduler s' = s' ↔ n < 2 ^ k ∨ room s ≤ n - n / 2 ^ k) := by
  intro s' n
  obtain ⟨hlength, hmultiprog, hroom⟩ := iterate_counts s k
  have hleft : n / 2 ^ k = 0 ↔ n < 2 ^ k := Nat.div_eq_zero_iff_lt (by positivity)
  have hle : n / 2 ^ k ≤ n := Nat.div_le_self n (2 ^ k)
  refine ⟨iterate_queueReady s k, Nat.eq_sub_of_add_eq hlength, hmultiprog, ?_⟩
  rw [longTerm_eq_self_iff, hroom, ← hleft]
  simp only [s', n] at hle ⊢
  generalize s.queueNew.length / 2 ^ k = left at hlength hle ⊢
  omega

end Passes

/-! ## Calls among the other operations -/

section Turns
variable {α ρ : Type*}

theorem leftOver_sublist (k : ℕ) (xs : List α) : (leftOver k xs).Sublist xs := by
  induction k generalizing xs with
  | zero => exact .refl xs
  | succ k ih =>
      match xs with
      | [] => exact .slnil
      | [x] => exact List.Sublist.trans (ih []) (List.nil_sublist [x])
      | x :: y :: xs => exact ((ih xs).cons_cons y).cons x

theorem idxOf_le_of_sublist [DecidableEq α] {xs ys : List α} (h : xs.Sublist ys) (hys : ys.Nodup)
    {t : α} (ht : t ∈ xs) : xs.idxOf t ≤ ys.idxOf t := by
  induction h with
  | slnil => exact le_rfl
  | @cons xs ys y h ih =>
      have hne : y ≠ t := fun heq => (List.nodup_cons.mp hys).1 (heq ▸ h.subset ht)
      rw [List.idxOf_cons_ne _ hne]
      exact (ih hys.of_cons ht).trans (Nat.le_succ _)
  | @cons_cons xs ys y h ih =>
      by_cases heq : y = t
      · rw [heq, List.idxOf_cons_self, List.idxOf_cons_self]
      · rw [List.idxOf_cons_ne _ heq, List.idxOf_cons_ne _ heq]
        have htail := (List.mem_cons.mp ht).resolve_left (Ne.symm heq)
        exact Nat.succ_le_succ (ih hys.of_cons htail)

/-- The guard of the long-term scheduler lets a thread in. -/
def GuardOpen (s : SuseState ρ) : Prop := (s.queueReady.length : ℤ) ≤ s.maxMultiprog

instance (s : SuseState ρ) : Decidable (GuardOpen s) :=
  inferInstanceAs (Decidable ((s.queueReady.length : ℤ) ≤ s.maxMultiprog))

variable {s s' : SuseState ρ}

/-- A call that finds the guard open admits the first of the new threads. -/
theorem longTerm_open (h : GuardOpen s) :
    (schedulerRunLongTermScheduler s).queueNew.Sublist s.queueNew.tail := by
  rw [longTerm_admitThreads]
  match hnew : s.queueNew with
  | [] =>
      have hlength := length_leftOver (two_mul_admissionsOf_le s)
      rw [hnew, List.length_nil] at hlength
      simp only [SuseState.admitThreads, List.nil_append]
      rw [List.eq_nil_of_length_eq_zero (Nat.eq_zero_of_add_eq_zero hlength).1]
      exact .slnil
  | x :: xs =>
      obtain ⟨k, hk⟩ : ∃ k, admissionsOf s = k + 1 := by
        refine ⟨admissionsOf s - 1, ?_⟩
        have hlength : 0 < s.queueNew.length := by simp [hnew]
        rw [GuardOpen] at h
        rw [admissionsOf, room]
        omega
      simp only [SuseState.admitThreads, hk, List.nil_append, leftOver_succ_cons, List.tail_cons]
      have hwhole : xs.take 1 ++ xs.tail = xs := by cases xs <;> rfl
      have hrest := (leftOver_sublist k xs.tail).append_left (xs.take 1)
      rwa [hwhole] at hrest

/-- A thread is as many positions nearer to the front of the queue as there were calls that found
the guard open. -/
structure Advances (c : Load ρ) (es : List (Operation × Bool)) (s : SuseState ρ) : Prop where
  sublist : s.queueNew.Sublist c.threads
  position : ∀ t ∈ s.queueNew,
    s.queueNew.idxOf t + es.countP Prod.snd ≤ c.threads.idxOf t

variable {c : Load ρ} {es : List (Operation × Bool)} {e : Operation × Bool}

theorem Advances.frame (h : Advances c es s) (hnew : s'.queueNew = s.queueNew) (he : e.2 = false) :
    Advances c (es ++ [e]) s' := by
  obtain ⟨hsublist, hposition⟩ := h
  refine ⟨hnew ▸ hsublist, ?_⟩
  rw [hnew, List.countP_append, List.countP_singleton, he]
  exact hposition

/-- Every call that finds the guard open takes one thread from before each that stays. -/
theorem Advances.openCall (h : Advances c es s) (hopen : GuardOpen s) (he : e.2 = true) :
    Advances c (es ++ [e]) (schedulerRunLongTermScheduler s) := by
  have htail := longTerm_open hopen
  refine ⟨htail.trans ((List.tail_sublist _).trans h.sublist), fun t ht => ?_⟩
  have hnodup := c.nodup.sublist h.sublist
  match hnew : s.queueNew with
  | [] =>
      rw [hnew] at htail
      cases htail.subset ht
  | x :: xs =>
      rw [hnew] at htail hnodup
      have hmem : t ∈ xs := htail.subset ht
      have hne : x ≠ t := fun heq => (List.nodup_cons.mp hnodup).1 (heq ▸ hmem)
      have hbefore := h.position t (hnew ▸ List.mem_cons_of_mem x hmem)
      rw [hnew, List.idxOf_cons_ne _ hne] at hbefore
      have hnow := idxOf_le_of_sublist htail hnodup.of_cons ht
      rw [List.countP_append, List.countP_singleton, he, if_pos rfl]
      rw [List.tail_cons] at hnow
      omega

variable [LinearOrder ρ] [Add ρ] [Sub ρ] [Mul ρ] [Zero ρ] [One ρ] [IntCast ρ]

/-- A step, with whether it is a call of the long-term scheduler that finds the guard open. -/
def GuardedStep (s : SuseState ρ) (e : Operation × Bool) (s' : SuseState ρ) : Prop :=
  SuseStep s e.1 s' ∧ (e.2 = true ↔ e.1 = .longTerm ∧ GuardOpen s)

theorem Advances.step (h : Advances c es s) (hstep : GuardedStep s e s') :
    Advances c (es ++ [e]) s' := by
  obtain ⟨o, attended⟩ := e
  obtain ⟨hstep, hopen⟩ := hstep
  have hother : o ≠ .longTerm → attended = false := fun hne =>
    Bool.eq_false_iff.mpr fun htrue => hne (hopen.mp htrue).1
  cases o with
  | longTerm =>
      obtain rfl := suseStep_longTerm.mp hstep
      by_cases hguard : GuardOpen s
      · exact h.openCall hguard (hopen.mpr ⟨rfl, hguard⟩)
      · have hclosed : attended = false :=
          Bool.eq_false_iff.mpr fun htrue => hguard (hopen.mp htrue).2
        exact h.frame (by rw [longTerm_of_not s (Or.inr (not_le.mp hguard))]) hclosed
  | shortTerm =>
      obtain rfl := suseStep_shortTerm.mp hstep
      refine h.frame ?_ (hother (by simp))
      obtain ⟨-, hsame⟩ | ⟨i, t, -, hsame⟩ := shortTerm_cases s
      · rw [hsame]
      · rw [hsame]
        rfl
  | block t =>
      obtain ⟨-, rfl⟩ := suseStep_block.mp hstep
      exact h.frame rfl (hother (by simp))
  | setReady t =>
      obtain ⟨-, rfl⟩ := suseStep_setReady.mp hstep
      exact h.frame rfl (hother (by simp))
  | finish t =>
      obtain ⟨-, hfinish⟩ := suseStep_finish.mp hstep
      exact h.frame (finishThread_frame hfinish).1 (hother (by simp))

/-- **No new thread is passed over for ever.**  In every run, whatever the other operations do
between the calls, the new threads are in the order of the load, and a thread that is still new is
as many positions nearer to the front as calls of the long-term scheduler found the guard open.  So
the thread at position `i` is admitted by the call `i + 1` of these at the latest. -/
theorem new_threads_advance (c : Load ρ) {es : List (Operation × Bool)} {s : SuseState ρ}
    (h : Run GuardedStep c.start es s) :
    s.queueNew.Sublist c.threads ∧
      ∀ (i t : ℕ), c.threads[i]? = some t →
        (t ∈ s.queueNew → s.queueNew.idxOf t + es.countP Prod.snd ≤ i) ∧
          (i < es.countP Prod.snd → t ∉ s.queueNew) := by
  have hbegin : Advances c [] c.start := ⟨.refl c.threads, fun t _ => le_rfl⟩
  have hadvances : Advances c es s := h.history (fun _ _ _ _ hs hstep => hs.step hstep) hbegin
  refine ⟨hadvances.sublist, fun i t ht => ?_⟩
  have hstart : c.threads.idxOf t = i := by
    obtain ⟨hi, rfl⟩ := List.getElem?_eq_some_iff.mp ht
    exact c.nodup.idxOf_getElem i hi
  have hposition : t ∈ s.queueNew → s.queueNew.idxOf t + es.countP Prod.snd ≤ i := fun hnew =>
    hstart ▸ hadvances.position t hnew
  refine ⟨hposition, fun hlate hnew => ?_⟩
  have hle := hposition hnew
  omega

/-- A load of two threads of which a call admits the first only, since its guard closes. -/
def loadNarrow : Load ℤ where
  threads := [1, 2]
  nodup := by decide
  thread := fun t => programCreateThread 0 1 t
  programs := [0]
  program := fun _ => ⟨1, .new⟩
  maxMultiprog := 1
  alphaSjf := 1

/-- The second thread is admitted by the second call, behind a dispatch. -/
theorem new_threads_advance_two : ∃ s,
    Run GuardedStep loadNarrow.start [(.longTerm, true), (.shortTerm, false), (.longTerm, true)] s ∧
    2 ∉ s.queueNew := by
  let s₁ := schedulerRunLongTermScheduler loadNarrow.start
  let s₂ := schedulerRunShortTermScheduler s₁
  have hrun : Run GuardedStep loadNarrow.start
      [(.longTerm, true), (.shortTerm, false), (.longTerm, true)]
      (schedulerRunLongTermScheduler s₂) :=
    .cons ⟨rfl, by decide⟩ (.cons (t := s₂) ⟨rfl, by decide⟩ (.single ⟨rfl, by decide⟩))
  exact ⟨_, hrun, ((new_threads_advance loadNarrow hrun).2 1 2 rfl).2 (by decide)⟩

end Turns

end Threaders.Suse
