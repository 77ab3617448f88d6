import Mathlib.Data.Int.Notation
import Mathlib.Tactic.Common

/-!
# Chains of blocks

A heap laid out as headers, each in front of its payload, is read from its start: the header
at an address gives a block, and the block says where the next header is.  What a header is
and where the next one lies are parameters.

## Main definitions

* `Blocks leer next a bs e` — from `a` on the blocks `bs` are read, and the next header would
  be at `e`.
* `blocks_congr` — a chain is kept by whatever keeps its headers.
-/

namespace Threaders.Lib

variable {B : Type*}

/-- From `a` on the blocks `bs` lie one behind the other, up to `e`. -/
def Blocks (leer : ℤ → Option B) (next : ℤ → B → ℤ) : ℤ → List B → ℤ → Prop
  | a, [], e => a = e
  | a, b :: bs, e => leer a = some b ∧ Blocks leer next (next a b) bs e

section Blocks

variable {leer leer' : ℤ → Option B} {next : ℤ → B → ℤ} {a e : ℤ} {bs cs : List B} {b : B}

@[simp] theorem blocks_nil : Blocks leer next a [] e ↔ a = e := Iff.rfl

@[simp] theorem blocks_cons :
    Blocks leer next a (b :: bs) e ↔ leer a = some b ∧ Blocks leer next (next a b) bs e := Iff.rfl

/-- A chain can be cut at any of its headers. -/
theorem blocks_append : Blocks leer next a (bs ++ cs) e ↔
    ∃ x, Blocks leer next a bs x ∧ Blocks leer next x cs e := by
  induction bs generalizing a with
  | nil => simp
  | cons b bs ih =>
      simp only [List.cons_append, blocks_cons, ih]
      constructor
      · rintro ⟨hb, x, h, h'⟩
        exact ⟨x, ⟨hb, h⟩, h'⟩
      · rintro ⟨x, ⟨hb, h⟩, h'⟩
        exact ⟨hb, x, h, h'⟩

/-- A chain goes up when its blocks do. -/
theorem blocks_le (hnext : ∀ x b, x ≤ next x b) (h : Blocks leer next a bs e) : a ≤ e := by
  induction bs generalizing a with
  | nil => exact Int.le_of_eq h
  | cons b bs ih => exact Int.le_trans (hnext a b) (ih h.2)

/-- What reads the same headers reads the same chain. -/
theorem blocks_congr (hnext : ∀ x b, x ≤ next x b)
    (hleer : ∀ x b, a ≤ x → next x b ≤ e → leer x = some b → leer' x = some b)
    (h : Blocks leer next a bs e) : Blocks leer' next a bs e := by
  induction bs generalizing a with
  | nil => exact h
  | cons b bs ih =>
      have hle := blocks_le hnext h.2
      refine ⟨hleer a b (Int.le_refl a) hle h.1, ih (fun x b' hx => hleer x b' ?_) h.2⟩
      exact Int.le_trans (hnext a b) hx

/-- From one address the blocks of a chain are determined by how many they are. -/
theorem blocks_unique {e' : ℤ} (h : Blocks leer next a bs e) (h' : Blocks leer next a cs e')
    (hlen : bs.length = cs.length) : bs = cs ∧ e = e' := by
  induction bs generalizing a cs with
  | nil =>
      obtain rfl := List.length_eq_zero_iff.1 hlen.symm
      exact ⟨rfl, h.symm.trans h'⟩
  | cons b bs ih =>
      cases cs with
      | nil => simp at hlen
      | cons c cs =>
          obtain rfl : b = c := Option.some.inj (h.1.symm.trans h'.1)
          obtain ⟨rfl, rfl⟩ := ih h.2 h'.2 (Nat.succ.inj hlen)
          exact ⟨rfl, rfl⟩

/-- And by where they end, when each goes up. -/
theorem blocks_unique_of_lt (hnext : ∀ x b, x < next x b) (h : Blocks leer next a bs e)
    (h' : Blocks leer next a cs e) : bs = cs := by
  have hne : ∀ {a : ℤ} {b : B} {bs : List B}, ¬ Blocks leer next a (b :: bs) a := fun h => by
    have hle := blocks_le (fun x b => Int.le_of_lt (hnext x b)) h.2
    exact Int.not_lt.2 hle (hnext _ _)
  induction bs generalizing a cs with
  | nil =>
      obtain rfl : a = e := h
      cases cs with
      | nil => rfl
      | cons c cs => exact absurd h' hne
  | cons b bs ih =>
      cases cs with
      | nil =>
          obtain rfl : a = e := h'
          exact absurd h hne
      | cons c cs =>
          obtain rfl : b = c := Option.some.inj (h.1.symm.trans h'.1)
          rw [ih h.2 h'.2]

end Blocks

end Threaders.Lib
