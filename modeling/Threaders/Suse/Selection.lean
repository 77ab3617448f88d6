import Threaders.Suse.Scheduler

/-!
# Whom the schedulers choose

The long-term loop removes from the list that it walks by index, so each admission makes it skip
the next thread; and its guard compares the size of `queue_ready`, which an admission increases,
with `max_multiprog`, which it decreases, so each admission counts twice.

For each thread of `queue_ready` the short-term loop folds the whole queue from that thread on
with the comparison of estimates.  A thread comes out of its own fold exactly when no estimate is
below its own, so the first that does is the first with the least estimate.

## Main definitions

* `taken`, `leftOver` — every second element from the first on, and the others.
* `admissions` — how many threads are admitted.
* `AdmitsPrefix` — a prefix of `queue_new` is admitted, as long as the counter allows.
-/

namespace Threaders.Suse

open Lib

/-! ## A list that is removed from while it is walked -/

section Lists
variable {α : Type*}

/-- The elements that `k` rounds take, each of which skips the one behind. -/
def taken : ℕ → List α → List α
  | k + 1, x :: xs => x :: taken k xs.tail
  | _, _ => []

/-- The elements that `k` rounds leave. -/
def leftOver : ℕ → List α → List α
  | k + 1, _ :: xs => xs.take 1 ++ leftOver k xs.tail
  | _, xs => xs

@[simp] theorem taken_zero (xs : List α) : taken 0 xs = [] := rfl
@[simp] theorem leftOver_zero (xs : List α) : leftOver 0 xs = xs := rfl
@[simp] theorem taken_one (x : α) (xs : List α) : taken 1 (x :: xs) = [x] := rfl

@[simp] theorem taken_succ_cons (k : ℕ) (x : α) (xs : List α) :
    taken (k + 1) (x :: xs) = x :: taken k xs.tail := rfl
@[simp] theorem leftOver_succ_cons (k : ℕ) (x : α) (xs : List α) :
    leftOver (k + 1) (x :: xs) = xs.take 1 ++ leftOver k xs.tail := rfl

@[simp] theorem leftOver_one (x : α) (xs : List α) : leftOver 1 (x :: xs) = xs := by
  cases xs <;> rfl

end Lists

/-! ## The turns of the long-term loop -/

/-- The number of admissions, for `n` new threads and `ready` ready ones.  The loop ends where
its index meets the size of the shrinking list, or its guard the two counters. -/
def admissions (n ready : ℕ) (maxMultiprog : ℤ) : ℕ :=
  min ((n + 1) / 2) ((maxMultiprog - ready) / 2 + 1).toNat

section Turns
variable {ρ : Type*} {s : SuseState ρ}

/-- The state after `k` admissions that skip, with `rest` still to be walked before them. -/
def SuseState.admitThreads (s : SuseState ρ) (pre rest : List ℕ) (k : ℕ) : SuseState ρ :=
  { s with
    queueNew := pre ++ leftOver k rest
    queueReady := s.queueReady ++ taken k rest
    maxMultiprog := s.maxMultiprog - k }

theorem admitThreads_zero {pre rest : List ℕ} (h : s.queueNew = pre ++ rest) :
    s.admitThreads pre rest 0 = s := by
  simp [SuseState.admitThreads, ← h]

/-- An admission, and the ones behind the thread it skips. -/
theorem admitThreads_moveToReady (pre : List ℕ) (t u : ℕ) (rest : List ℕ) (k : ℕ) :
    (s.moveToReady pre.length t).admitThreads (pre ++ [u]) rest k
      = s.admitThreads pre (t :: u :: rest) (k + 1) := by
  simp [SuseState.admitThreads, SuseState.moveToReady]
  omega

theorem admissions_of_lt {n ready : ℕ} {maxMultiprog : ℤ} (h : maxMultiprog < ready) :
    admissions n ready maxMultiprog = 0 := by
  unfold admissions
  omega

theorem admissions_succ {n ready : ℕ} {maxMultiprog : ℤ} (h : ready ≤ maxMultiprog) :
    admissions (n + 2) ready maxMultiprog
      = admissions n (ready + 1) (maxMultiprog - 1) + 1 := by
  unfold admissions
  omega

theorem queueNew_moveToReady {pre rest : List ℕ} {t : ℕ} (hnew : s.queueNew = pre ++ t :: rest) :
    (s.moveToReady pre.length t).queueNew = pre ++ rest := by
  rw [SuseState.moveToReady, hnew, List.eraseIdx_append_of_length_le le_rfl, Nat.sub_self]
  rfl

theorem longTermTurn_move {pre rest : List ℕ} {t : ℕ} (hnew : s.queueNew = pre ++ t :: rest)
    (hguard : (s.queueReady.length : ℤ) ≤ s.maxMultiprog) :
    longTermTurn s pre.length = s.moveToReady pre.length t := by
  have hget : s.queueNew[pre.length]? = some t := by simp [hnew]
  rw [longTermTurn_eq hget, if_pos hguard]

/-- The turns from position `pre.length` on, with `rest` still to be walked. -/
theorem longTermTurns_eq {pre rest : List ℕ} {m : ℕ} (hnew : s.queueNew = pre ++ rest)
    (hm : rest.length ≤ m) : (List.range' pre.length m).foldl longTermTurn s
      = s.admitThreads pre rest (admissions rest.length s.queueReady.length s.maxMultiprog) := by
  induction m generalizing s pre rest with
  | zero =>
      obtain rfl := List.eq_nil_of_length_eq_zero (Nat.le_zero.mp hm)
      exact (admitThreads_zero hnew).symm
  | succ m ih =>
      by_cases hguard : (s.queueReady.length : ℤ) ≤ s.maxMultiprog
      · match rest with
        | [] =>
            rw [longTermTurns_of_not]
            · exact (admitThreads_zero hnew).symm
            · intro i hi
              rw [List.mem_range'_1] at hi
              exact Or.inl (by simp [hnew, hi.1])
        | [t] =>
            -- The only turn that is left: the positions from the next on are behind the end.
            have hmoved := queueNew_moveToReady hnew
            have hone : admissions [t].length s.queueReady.length s.maxMultiprog = 1 := by
              simp only [admissions, List.length_singleton]
              omega
            rw [List.range'_succ, List.foldl_cons, longTermTurn_move hnew hguard,
              longTermTurns_of_not, hone]
            · rw [SuseState.moveToReady] at hmoved ⊢
              simpa [SuseState.admitThreads] using hmoved
            · intro i hi
              rw [List.mem_range'_1] at hi
              exact Or.inl (List.getElem?_eq_none (by rw [hmoved, List.append_nil]; omega))
        | t :: u :: rest =>
            have hmoved : (s.moveToReady pre.length t).queueNew = pre ++ [u] ++ rest := by
              rw [queueNew_moveToReady hnew, List.append_assoc]
              rfl
            have hlen : (pre ++ [u]).length = pre.length + 1 := by simp
            have hrest := ih hmoved (by simp only [List.length_cons] at hm; omega)
            rw [hlen, admitThreads_moveToReady] at hrest
            rw [List.range'_succ, List.foldl_cons, longTermTurn_move hnew hguard, hrest,
              List.length_cons, List.length_cons, admissions_succ hguard]
            simp [SuseState.moveToReady]
      · rw [admissions_of_lt (by omega), admitThreads_zero hnew]
        apply longTermTurns_of_not
        intro i _
        exact Or.inr (by omega)

/-- Whom a call of the long-term scheduler admits: the threads at the even positions of the
first `2 * k`. -/
theorem longTerm_eq (s : SuseState ρ) : schedulerRunLongTermScheduler s
    = s.admitThreads [] s.queueNew
        (admissions s.queueNew.length s.queueReady.length s.maxMultiprog) := by
  have hnew : s.queueNew = [] ++ s.queueNew := rfl
  have hturns := longTermTurns_eq hnew le_rfl
  rwa [List.length_nil, ← List.range_eq_range'] at hturns

end Turns

/-! ## A prefix of the new threads -/

section Prefix
variable {ρ : Type*}

/-- A call of the long-term scheduler moves a prefix of `queue_new` to the end of `queue_ready`
and takes as much off the counter; it admits nobody where the counter is 0 or less, and leaves
somebody only where the counter has come down to 0. -/
def AdmitsPrefix (s : SuseState ρ) : Prop :=
  let s' := schedulerRunLongTermScheduler s
  ∃ k ≤ s.queueNew.length, s'.queueReady = s.queueReady ++ s.queueNew.take k ∧
    s'.queueNew = s.queueNew.drop k ∧ s'.maxMultiprog = s.maxMultiprog - k ∧
    (s.maxMultiprog ≤ 0 → k = 0) ∧ (s'.queueNew = [] ∨ s'.maxMultiprog ≤ 0)

/-- The number of admissions is the only possible size of the prefix. -/
theorem admitsPrefix_iff {s : SuseState ρ} {k : ℕ}
    (hk : k = admissions s.queueNew.length s.queueReady.length s.maxMultiprog) :
    AdmitsPrefix s ↔ taken k s.queueNew = s.queueNew.take k ∧
      leftOver k s.queueNew = s.queueNew.drop k ∧ (s.maxMultiprog ≤ 0 → k = 0) ∧
      (s.queueNew.length ≤ k ∨ s.maxMultiprog ≤ k) := by
  have hle : k ≤ s.queueNew.length ∧ 2 * k ≤ s.queueNew.length + 1 := by
    rw [hk]
    unfold admissions
    omega
  have heq := longTerm_eq s
  rw [← hk] at heq
  rw [AdmitsPrefix, heq]
  simp only [SuseState.admitThreads, List.nil_append, List.append_cancel_left_eq]
  constructor
  · rintro ⟨k', hk', hready, hnew, hcount, hzero, hstop⟩
    obtain rfl : k = k' := by omega
    refine ⟨hready, hnew, hzero, ?_⟩
    rw [hnew, List.drop_eq_nil_iff] at hstop
    omega
  · rintro ⟨hready, hnew, hzero, hstop⟩
    refine ⟨k, hle.1, hready, hnew, rfl, hzero, ?_⟩
    rw [hnew, List.drop_eq_nil_iff]
    omega

/-- Two admissions take the first and the third thread. -/
theorem taken_two_iff {ts : List ℕ} (h : 3 ≤ ts.length) :
    taken 2 ts = ts.take 2 ∧ leftOver 2 ts = ts.drop 2 ↔ ts[1]? = ts[2]? := by
  match ts, h with
  | t :: u :: v :: rest, _ => cases rest <;> simp [eq_comm]

/-- **What a call of the long-term scheduler admits is a prefix** where nobody is new, where the
counter is below the size of `queue_ready` and not above 0, where one thread is new and there is
room for it, where the counter is 1 with at most one thread ready, and, with the counter at 2 and
nobody ready, where the second and the third new thread are the same; nowhere else. -/
theorem longTerm_prefix_iff (s : SuseState ρ) : AdmitsPrefix s ↔
    s.queueNew = [] ∨
      (s.maxMultiprog ≤ 0 ∧ s.maxMultiprog < s.queueReady.length) ∨
      (s.queueNew.length = 1 ∧ 0 < s.maxMultiprog ∧
        (s.queueReady.length : ℤ) ≤ s.maxMultiprog) ∨
      (s.maxMultiprog = 1 ∧ s.queueReady.length ≤ 1) ∨
      (s.maxMultiprog = 2 ∧ s.queueReady.length = 0 ∧ 3 ≤ s.queueNew.length ∧
        s.queueNew[1]? = s.queueNew[2]?) := by
  obtain ⟨k, hk⟩ :
    ∃ k, k = admissions s.queueNew.length s.queueReady.length s.maxMultiprog := ⟨_, rfl⟩
  rw [admitsPrefix_iff hk, ← List.length_eq_zero_iff]
  unfold admissions at hk
  constructor
  · rintro ⟨hready, hnew, hzero, hstop⟩
    have hcases : s.queueNew.length = 0 ∨
        (s.maxMultiprog ≤ 0 ∧ s.maxMultiprog < s.queueReady.length) ∨
        (s.queueNew.length = 1 ∧ 0 < s.maxMultiprog ∧
          (s.queueReady.length : ℤ) ≤ s.maxMultiprog) ∨
        (s.maxMultiprog = 1 ∧ s.queueReady.length ≤ 1) ∨
        (s.maxMultiprog = 2 ∧ s.queueReady.length = 0 ∧ 3 ≤ s.queueNew.length ∧ k = 2) := by
      omega
    refine hcases.imp_right (Or.imp_right (Or.imp_right (Or.imp_right ?_)))
    rintro ⟨hcount, hnone, hlen, rfl⟩
    exact ⟨hcount, hnone, hlen, (taken_two_iff hlen).mp ⟨hready, hnew⟩⟩
  · intro h
    have hcases : (k = 0 ∧ (s.queueNew.length = 0 ∨ s.maxMultiprog ≤ 0)) ∨
        (k = 1 ∧ 0 < s.queueNew.length ∧ 0 < s.maxMultiprog ∧
          (s.queueNew.length ≤ 1 ∨ s.maxMultiprog ≤ 1)) ∨
        (k = 2 ∧ s.maxMultiprog = 2 ∧ 3 ≤ s.queueNew.length ∧
          s.queueNew[1]? = s.queueNew[2]?) := by
      rcases h with hnil | hlow | hone | hone | ⟨hcount, hnone, hlen, hsame⟩
      · exact Or.inl (by omega)
      · exact Or.inl (by omega)
      · exact Or.inr (Or.inl (by omega))
      · rcases Nat.eq_zero_or_pos s.queueNew.length with hnil | hlen
        · exact Or.inl (by omega)
        · exact Or.inr (Or.inl (by omega))
      · exact Or.inr (Or.inr ⟨by omega, hcount, hlen, hsame⟩)
    rcases hcases with ⟨rfl, hstop⟩ | ⟨rfl, hlen, hpos, hstop⟩ | ⟨rfl, hcount, hlen, hsame⟩
    · exact ⟨rfl, rfl, fun _ => rfl, by omega⟩
    · obtain ⟨t, ts, hts⟩ := List.exists_cons_of_length_pos hlen
      rw [hts]
      refine ⟨rfl, leftOver_one t ts, fun hle => absurd hpos (by omega), ?_⟩
      rw [← hts]
      omega
    · obtain ⟨hready, hnew⟩ := (taken_two_iff hlen).mpr hsame
      exact ⟨hready, hnew, fun hle => absurd hle (by omega), by omega⟩

end Prefix

/-- Three new threads and a counter of 3. -/
def threeNew : SuseState ℤ where
  queueNew := [0, 1, 2]
  queueReady := []
  queueBlocked := []
  queueExit := []
  programs := [0]
  threadExec := none
  thread := fun _ => programCreateThread 0 1 0
  program := fun _ => ⟨1, .new⟩
  maxMultiprog := 3
  alphaSjf := 1

/-- The first and the third are admitted; the second stays new although the counter is at 1. -/
theorem longTerm_skips : (schedulerRunLongTermScheduler threeNew).queueReady = [0, 2] ∧
    (schedulerRunLongTermScheduler threeNew).queueNew = [1] ∧
    (schedulerRunLongTermScheduler threeNew).maxMultiprog = 1 ∧ ¬ AdmitsPrefix threeNew := by
  refine ⟨by decide, by decide, by decide, fun h => ?_⟩
  have hready := ((admitsPrefix_iff (k := 2) (by decide)).mp h).1
  exact absurd hready (by decide)

/-! ## The first of the shortest jobs -/

section ShortestJob
variable {ρ : Type*} [LinearOrder ρ] [Add ρ] [Sub ρ] [Mul ρ] [Zero ρ] [One ρ] [IntCast ρ]

/-- **Shortest job first.**  On an empty `queue_ready` a call of the short-term scheduler changes
nothing.  On any other it takes out the first of the threads whose estimate is the least, leaves
the others in order, and makes it the executing one with the counter incremented. -/
theorem shortTerm_sjf (s : SuseState ρ) :
    (s.queueReady = [] ∧ schedulerRunShortTermScheduler s = s) ∨
    ∃ pre t post, FirstLeast (estimate s) s.queueReady pre t post ∧
      schedulerRunShortTermScheduler s =
        { s with
          queueReady := pre ++ post
          threadExec := some t
          thread := fun t' => if t' = t then { s.thread t with state := .exec } else s.thread t'
          maxMultiprog := s.maxMultiprog + 1 } := by
  by_cases hnil : s.queueReady = []
  · exact .inl ⟨hnil, shortTerm_of_nil hnil⟩
  · obtain ⟨pre, t, post, h⟩ := exists_firstLeast (f := estimate s) hnil
    exact .inr ⟨pre, t, post, h, shortTerm_firstLeast h⟩

end ShortestJob

end Threaders.Suse
