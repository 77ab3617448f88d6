import Mathlib.Algebra.BigOperators.Group.List.Lemmas
import Mathlib.Algebra.Order.Ring.Defs
import Mathlib.Data.List.Sort
import Mathlib.Tactic.Linarith
import Threaders.Lib.LeastFold

/-!
# Shortest first

To take the first element with the least key out of a list, again and again, is to sort the
list, stably.  Of all orders in which jobs can be done one after another, the sorted one has
the least total time of waiting.

## Main definitions

* `byKey` — the list sorted by a key, elements with the same key in their old order.
* `waiting` — how long the jobs of a list wait together until each begins.
-/

namespace Threaders.Lib

/-! ## Sorting by selection -/

section Selection
variable {α β : Type*} [LinearOrder β] {f : α → β} {xs pre post : List α} {a : α}

/-- The list, sorted by a key. -/
def byKey (f : α → β) (xs : List α) : List α := xs.insertionSort fun a b => f a ≤ f b

@[simp] theorem byKey_nil (f : α → β) : byKey f [] = [] := rfl

theorem byKey_cons (f : α → β) (a : α) (xs : List α) :
    byKey f (a :: xs) = (byKey f xs).orderedInsert (fun a b => f a ≤ f b) a := rfl

theorem byKey_perm (f : α → β) (xs : List α) : (byKey f xs).Perm xs := List.perm_insertionSort _ xs

theorem pairwise_byKey (f : α → β) (xs : List α) :
    (byKey f xs).Pairwise fun a b => f a ≤ f b := by
  have htotal : Std.Total fun a b => f a ≤ f b := ⟨fun a b => le_total (f a) (f b)⟩
  have htrans : IsTrans α fun a b => f a ≤ f b := ⟨fun _ _ _ => le_trans⟩
  exact List.pairwise_insertionSort _ xs

/-- The first element with the least key comes first, and the others are sorted behind it. -/
theorem FirstLeast.byKey_eq (h : FirstLeast f xs pre a post) :
    byKey f xs = a :: byKey f (pre ++ post) := by
  obtain ⟨rfl, hlt, hle⟩ := h
  induction pre with
  | nil =>
      rw [List.nil_append, List.nil_append, byKey_cons]
      cases hsorted : byKey f post with
      | nil => rfl
      | cons b bs =>
          have hmem : b ∈ post := (byKey_perm f post).subset (hsorted ▸ List.mem_cons_self)
          exact List.orderedInsert_cons_of_le _ bs (hle b hmem)
  | cons b pre ih =>
      have hrest := ih fun c hc => hlt c (List.mem_cons_of_mem b hc)
      have hba : ¬ f b ≤ f a := not_le.mpr (hlt b List.mem_cons_self)
      rw [List.cons_append, byKey_cons, hrest, List.cons_append, byKey_cons]
      exact List.orderedInsert_of_not_le _ _ hba

end Selection

/-! ## Waiting -/

section Waiting
variable {α ρ : Type*} [CommRing ρ] [LinearOrder ρ] [IsStrictOrderedRing ρ] {f : α → ρ}
  {xs ys : List α} {a : α}

/-- The time that the jobs of a list, done in order, wait together until each begins. -/
def waiting (f : α → ρ) : List α → ρ
  | [] => 0
  | a :: xs => xs.length * f a + waiting f xs

/-- To do a job before others that are not shorter takes no time. -/
theorem waiting_cons_le {pre post : List α} (h : ∀ b ∈ pre, f a ≤ f b) :
    waiting f (a :: (pre ++ post)) ≤ waiting f (pre ++ a :: post) := by
  induction pre with
  | nil => exact le_rfl
  | cons b pre ih =>
      have hrest := ih fun c hc => h c (List.mem_cons_of_mem b hc)
      have hab := h b List.mem_cons_self
      simp only [waiting, List.cons_append, List.length_cons, List.length_append, Nat.cast_add,
        Nat.cast_one, add_mul, one_mul] at hrest ⊢
      linarith

/-- No order makes the jobs wait less than the sorted one. -/
theorem waiting_le_of_sorted (hsorted : xs.Pairwise fun a b => f a ≤ f b) (hperm : ys.Perm xs) :
    waiting f xs ≤ waiting f ys := by
  induction xs generalizing ys with
  | nil =>
      rw [List.perm_nil.mp hperm]
  | cons a xs ih =>
      obtain ⟨hle, hsorted⟩ := List.pairwise_cons.mp hsorted
      obtain ⟨pre, post, rfl⟩ := List.append_of_mem (hperm.mem_iff.mpr List.mem_cons_self)
      have hrest : (pre ++ post).Perm xs :=
        (List.perm_middle.symm.trans hperm).cons_inv
      have hmin : ∀ b ∈ pre, f a ≤ f b := fun b hb =>
        hle b (hrest.subset (List.mem_append_left _ hb))
      calc waiting f (a :: xs)
          = xs.length * f a + waiting f xs := rfl
        _ ≤ (pre ++ post).length * f a + waiting f (pre ++ post) := by
            rw [hrest.length_eq]
            exact add_le_add_right (ih hsorted hrest) _
        _ = waiting f (a :: (pre ++ post)) := rfl
        _ ≤ waiting f (pre ++ a :: post) := waiting_cons_le hmin

end Waiting

end Threaders.Lib
