import Mathlib.Data.List.Basic
import Mathlib.Logic.Function.Iterate
import Mathlib.Tactic.Common
import Mathlib.Tactic.Positivity

/-!
# Passes over a list that take every second element

A loop that takes the element it stands on out of the list it walks steps over the next one.  So a
pass takes every second element, and the passes behind it take from what it left.  What pass `j`
takes stood at the positions `2 ^ j * (2 * m + 1) - 1`: those whose successor has `j` as its power
of two.

## Main definitions

* `everySecond`, `skipped` — what one pass takes, and what it leaves.
* `pass j` — what pass `j` takes of the list that the first pass began with.
* `passes k` — what `k` passes take, one behind the other.
-/

namespace Threaders.Lib

variable {α : Type*}

/-- Every second element, from the first on. -/
def everySecond : List α → List α
  | [] => []
  | [x] => [x]
  | x :: _ :: xs => x :: everySecond xs

/-- The elements between them. -/
def skipped : List α → List α
  | [] | [_] => []
  | _ :: y :: xs => y :: skipped xs

/-- The elements that pass `j` takes. -/
def pass (j : ℕ) (xs : List α) : List α :=
  (List.range xs.length).filterMap fun m => xs[2 ^ j * (2 * m + 1) - 1]?

/-- The elements that the first `k` passes take. -/
def passes (k : ℕ) (xs : List α) : List α := (List.range k).flatMap fun j => pass j xs

/-! ## One pass -/

section Pass
variable {xs : List α}

@[simp] theorem length_everySecond : (everySecond xs).length = (xs.length + 1) / 2 := by
  induction xs using everySecond.induct with
  | case1 => simp [everySecond]
  | case2 x => simp [everySecond]
  | case3 x y xs ih =>
      rw [everySecond, List.length_cons, ih, List.length_cons, List.length_cons]
      omega

@[simp] theorem length_skipped : (skipped xs).length = xs.length / 2 := by
  induction xs using skipped.induct with
  | case1 => simp [skipped]
  | case2 x => simp [skipped]
  | case3 x y xs ih =>
      rw [skipped, List.length_cons, ih, List.length_cons, List.length_cons]
      omega

theorem getElem?_everySecond (m : ℕ) : (everySecond xs)[m]? = xs[2 * m]? := by
  induction xs using everySecond.induct generalizing m with
  | case1 => rfl
  | case2 x => cases m <;> rfl
  | case3 x y xs ih =>
      cases m with
      | zero => rfl
      | succ m => exact ih m

theorem getElem?_skipped (m : ℕ) : (skipped xs)[m]? = xs[2 * m + 1]? := by
  induction xs using skipped.induct generalizing m with
  | case1 => rfl
  | case2 x => rfl
  | case3 x y xs ih =>
      cases m with
      | zero => rfl
      | succ m => exact ih m

/-- What a pass leaves, for the passes behind it. -/
theorem getElem?_skipped_iterate (j m : ℕ) :
    (skipped^[j] xs)[m]? = xs[2 ^ j * (m + 1) - 1]? := by
  induction j generalizing xs with
  | zero => simp
  | succ j ih =>
      have hpos : 0 < 2 ^ j * (m + 1) := by positivity
      rw [Function.iterate_succ_apply, ih, getElem?_skipped, pow_succ]
      congr 1
      generalize 2 ^ j = p at hpos ⊢
      rw [mul_assoc, mul_left_comm]
      omega

theorem length_skipped_iterate (j : ℕ) : (skipped^[j] xs).length = xs.length / 2 ^ j := by
  induction j generalizing xs with
  | zero => simp
  | succ j ih =>
      rw [Function.iterate_succ_apply, ih, length_skipped, Nat.div_div_eq_div_mul, pow_succ']

theorem filterMap_range_getElem? {n : ℕ} (h : xs.length ≤ n) :
    (List.range n).filterMap (fun m => xs[m]?) = xs := by
  induction xs generalizing n with
  | nil => simp
  | cons x xs ih =>
      match n, h with
      | n + 1, h =>
          have htail := ih (Nat.le_of_succ_le_succ h)
          simpa [List.range_succ_eq_map, List.filterMap_map, Function.comp_def] using htail

/-- Pass `j` takes every second element of what the passes before it left. -/
theorem pass_eq (j : ℕ) : pass j xs = everySecond (skipped^[j] xs) := by
  have hlength : (everySecond (skipped^[j] xs)).length ≤ xs.length := by
    rw [length_everySecond, length_skipped_iterate]
    have hle := Nat.div_le_self xs.length (2 ^ j)
    omega
  rw [pass, ← filterMap_range_getElem? hlength]
  congr 1
  funext m
  rw [getElem?_everySecond, getElem?_skipped_iterate]

end Pass

/-! ## Passes -/

section Passes
variable {k : ℕ} {xs : List α}

@[simp] theorem passes_zero : passes 0 xs = [] := rfl

/-- The first pass, and those over what it leaves. -/
theorem passes_succ : passes (k + 1) xs = everySecond xs ++ passes k (skipped xs) := by
  rw [passes, List.range_succ_eq_map, List.flatMap_cons, pass_eq, Function.iterate_zero, id,
    List.flatMap_map, passes]
  simp only [pass_eq, Function.iterate_succ_apply]

end Passes

end Threaders.Lib
