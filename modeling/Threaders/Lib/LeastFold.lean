import Mathlib.Order.Lattice

/-!
# Folds that keep the least

A fold that goes on with whichever of two elements has the smaller key, the one it has on a tie,
and the search for the element that survives such a fold over its own list.

## Main definitions

* `keepLeast` — the operation of the fold.
* `FirstLeast` — a list split at the first of its elements with the least key.
-/

namespace Threaders.Lib

variable {α β : Type*} [LinearOrder β] {f : α → β} {a : α} {xs pre post : List α}

/-- The element with the smaller key, the first on a tie. -/
def keepLeast (f : α → β) (a b : α) : α := if f a ≤ f b then a else b

theorem keepLeast_le_left (f : α → β) (a b : α) : f (keepLeast f a b) ≤ f a := by
  unfold keepLeast
  split
  · exact le_rfl
  · next h => exact (not_le.mp h).le

theorem keepLeast_le_right (f : α → β) (a b : α) : f (keepLeast f a b) ≤ f b := by
  unfold keepLeast
  split
  · next h => exact h
  · exact le_rfl

/-- The key only goes down along the fold. -/
theorem foldl_keepLeast_le_init (f : α → β) (xs : List α) (a : α) :
    f (xs.foldl (keepLeast f) a) ≤ f a := by
  induction xs generalizing a with
  | nil => exact le_rfl
  | cons b xs ih => exact (ih (keepLeast f a b)).trans (keepLeast_le_left f a b)

/-- No element of the list has a smaller key than the result. -/
theorem foldl_keepLeast_le (a : α) : ∀ b ∈ xs, f (xs.foldl (keepLeast f) a) ≤ f b := by
  induction xs generalizing a with
  | nil => intro b hb; cases hb
  | cons c xs ih =>
      intro b hb
      rcases List.mem_cons.mp hb with rfl | hb
      · exact (foldl_keepLeast_le_init f xs _).trans (keepLeast_le_right f a b)
      · exact ih _ b hb

/-- An element survives the fold exactly when no element of the list has a smaller key. -/
theorem foldl_keepLeast_eq_iff : xs.foldl (keepLeast f) a = a ↔ ∀ b ∈ xs, f a ≤ f b := by
  constructor
  · intro h b hb
    have hle := foldl_keepLeast_le (f := f) a b hb
    rwa [h] at hle
  · intro h
    induction xs with
    | nil => rfl
    | cons b xs ih =>
        have hb : keepLeast f a b = a := if_pos (h b List.mem_cons_self)
        rw [List.foldl_cons, hb]
        exact ih fun c hc => h c (List.mem_cons_of_mem b hc)

/-- The list is `pre`, then `a`, then `post`, and `a` is the first of the elements with the least
key. -/
structure FirstLeast (f : α → β) (xs pre : List α) (a : α) (post : List α) : Prop where
  eq : xs = pre ++ a :: post
  lt : ∀ b ∈ pre, f a < f b
  le : ∀ b ∈ post, f a ≤ f b

theorem exists_firstLeast (h : xs ≠ []) : ∃ pre a post, FirstLeast f xs pre a post := by
  induction xs with
  | nil => exact absurd rfl h
  | cons x xs ih =>
      cases xs with
      | nil => exact ⟨[], x, [], rfl, by simp, by simp⟩
      | cons y ys =>
          obtain ⟨pre, a, post, heq, hlt, hle⟩ := ih (List.cons_ne_nil y ys)
          rcases le_or_gt (f x) (f a) with hxa | hax
          · refine ⟨[], x, y :: ys, rfl, by simp, fun b hb => hxa.trans ?_⟩
            rw [heq, List.mem_append, List.mem_cons] at hb
            rcases hb with hb | rfl | hb
            · exact (hlt b hb).le
            · exact le_rfl
            · exact hle b hb
          · refine ⟨x :: pre, a, post, by rw [heq]; rfl, fun b hb => ?_, hle⟩
            rcases List.mem_cons.mp hb with rfl | hb
            · exact hax
            · exact hlt b hb

namespace FirstLeast

theorem le_of_mem (h : FirstLeast f xs pre a post) : ∀ b ∈ xs, f a ≤ f b := by
  intro b hb
  rw [h.eq, List.mem_append, List.mem_cons] at hb
  rcases hb with hb | rfl | hb
  · exact (h.lt b hb).le
  · exact le_rfl
  · exact h.le b hb

/-- The first element that survives the fold over its list is the first with the least key. -/
theorem findIdx?_eq (h : FirstLeast f xs pre a post) {p : α → Bool}
    (hp : ∀ b, p b = true ↔ xs.foldl (keepLeast f) b = b) :
    xs.findIdx? p = some pre.length := by
  have ha : p a = true := (hp a).mpr (foldl_keepLeast_eq_iff.mpr h.le_of_mem)
  have hmem : a ∈ xs := by simp [h.eq]
  have hpre : pre.findIdx? p = none := by
    rw [List.findIdx?_eq_none_iff]
    intro b hb
    rw [Bool.eq_false_iff, Ne, hp b, foldl_keepLeast_eq_iff]
    intro hle
    exact absurd (h.lt b hb) (not_lt.mpr (hle a hmem))
  rw [h.eq, List.findIdx?_append, hpre, List.findIdx?_cons, ha]
  simp

end FirstLeast

end Threaders.Lib
