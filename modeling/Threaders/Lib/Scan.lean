import Mathlib.Order.Basic
import Mathlib.Order.Nat
import Mathlib.Tactic.Common

/-!
# Linear scans

A loop that walks the indices of a table and stops at the first one with some property,
or after the last one.

## Main definitions

* `firstIndex p n i` — the first index from `i` on with `p`, `i + n` if none of the next
  `n` has it.
-/

namespace Threaders.Lib

/-- The first index from `i` on that satisfies `p`, looking at `n` of them. -/
def firstIndex (p : ℕ → Bool) : ℕ → ℕ → ℕ
  | 0, i => i
  | n + 1, i => if p i then i else firstIndex p n (i + 1)

section FirstIndex
variable {p q : ℕ → Bool} {n i j : ℕ}

theorem le_firstIndex : i ≤ firstIndex p n i := by
  induction n generalizing i with
  | zero => exact le_rfl
  | succ n ih =>
      rw [firstIndex]
      split
      · exact le_rfl
      · exact (Nat.le_succ i).trans ih

theorem firstIndex_le : firstIndex p n i ≤ i + n := by
  induction n generalizing i with
  | zero => exact le_rfl
  | succ n ih =>
      rw [firstIndex]
      split
      · omega
      · have hle := ih (i := i + 1)
        omega

/-- A scan that stops early has found something. -/
theorem firstIndex_spec (h : firstIndex p n i < i + n) : p (firstIndex p n i) = true := by
  induction n generalizing i with
  | zero => exact absurd h (lt_irrefl i)
  | succ n ih =>
      rw [firstIndex] at h ⊢
      split
      · next hp => exact hp
      · next hp =>
          rw [if_neg hp] at h
          exact ih (by omega)

/-- Whatever a scan has passed did not satisfy the property. -/
theorem not_of_lt_firstIndex (hij : i ≤ j) (h : j < firstIndex p n i) : p j = false := by
  induction n generalizing i with
  | zero => exact absurd h (by rw [firstIndex]; omega)
  | succ n ih =>
      rw [firstIndex] at h
      split at h
      · omega
      · next hp =>
          rcases hij.eq_or_lt with rfl | hlt
          · simpa using hp
          · exact ih hlt h

theorem firstIndex_eq_add_iff : firstIndex p n i = i + n ↔ ∀ j, i ≤ j → j < i + n → p j = false := by
  constructor
  · intro h j hij hj
    exact not_of_lt_firstIndex hij (h ▸ hj)
  · intro h
    by_contra hne
    have hlt : firstIndex p n i < i + n := lt_of_le_of_ne firstIndex_le hne
    have hfalse := h _ le_firstIndex hlt
    rw [firstIndex_spec hlt] at hfalse
    cases hfalse

/-- The scan stops at an index exactly if it is the first with the property. -/
theorem firstIndex_eq_of (hij : i ≤ j) (hj : j < i + n) (hp : p j = true)
    (hbefore : ∀ k, i ≤ k → k < j → p k = false) : firstIndex p n i = j := by
  have hle : firstIndex p n i ≤ j := by
    by_contra hlt
    have hfalse := not_of_lt_firstIndex hij (lt_of_not_ge hlt : j < firstIndex p n i)
    rw [hp] at hfalse
    cases hfalse
  by_contra hne
  have htrue := firstIndex_spec (p := p) (n := n) (i := i) (by omega)
  rw [hbefore _ le_firstIndex (by omega)] at htrue
  cases htrue

/-- A scan sees nothing but the indices it looks at. -/
theorem firstIndex_congr (h : ∀ j, i ≤ j → j < i + n → p j = q j) :
    firstIndex p n i = firstIndex q n i := by
  induction n generalizing i with
  | zero => rfl
  | succ n ih =>
      rw [firstIndex, firstIndex, h i le_rfl (by omega)]
      split
      · rfl
      · exact ih fun j hij hj => h j (by omega) (by omega)

end FirstIndex

end Threaders.Lib
