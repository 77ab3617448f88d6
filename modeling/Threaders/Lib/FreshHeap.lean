import Mathlib.Data.List.Forall2
import Mathlib.Data.List.Nodup
import Mathlib.Data.List.Range
import Mathlib.Logic.Function.Basic
import Mathlib.Order.Nat
import Mathlib.Tactic.Common

/-!
# A heap that gives each address once

A block is an address with the value that stands there.  A released block has no value, and
its address is not given again, so whoever still has the address finds nothing there: what is
read was never released, and what is released twice fails.

## Main definitions

* `FreshHeap` — the blocks, and the address of the next.
* `alloc`, `free` — one block, and `allocAll`, `freeAll` for a list of them.
* `Holds h ps vs` — the blocks at `ps` hold the values `vs`.
-/

namespace Threaders.Lib

variable {α : Type*}

/-- The values of the blocks, none where a block was released or not given yet, and the address
that the next block gets. -/
structure FreshHeap (α : Type*) where
  read : ℕ → Option α
  next : ℕ
  read_of_le : ∀ p, next ≤ p → read p = none

namespace FreshHeap

/-- No block was given. -/
def empty : FreshHeap α := ⟨fun _ => none, 0, fun _ _ => rfl⟩

/-- The next block, with a value. -/
def alloc (h : FreshHeap α) (v : α) : ℕ × FreshHeap α :=
  (h.next, ⟨Function.update h.read h.next (some v), h.next + 1, by
    intro p hp
    rw [Function.update_of_ne (by omega)]
    exact h.read_of_le p (by omega)⟩)

/-- Release a block; it must not have been released. -/
def free (h : FreshHeap α) (p : ℕ) : Option (FreshHeap α) :=
  match h.read p with
  | none => none
  | some _ => some ⟨Function.update h.read p none, h.next, by
      intro q hq
      by_cases heq : q = p
      · rw [heq, Function.update_self]
      · rw [Function.update_of_ne heq]
        exact h.read_of_le q hq⟩

/-- One block for each value. -/
def allocAll (h : FreshHeap α) : List α → List ℕ × FreshHeap α
  | [] => ([], h)
  | v :: vs =>
      let (p, h) := h.alloc v
      let (ps, h) := h.allocAll vs
      (p :: ps, h)

/-- Release the blocks one after another. -/
def freeAll (h : FreshHeap α) : List ℕ → Option (FreshHeap α)
  | [] => some h
  | p :: ps => (h.free p).bind fun h => h.freeAll ps

/-- The blocks at the addresses hold the values, one by one. -/
def Holds (h : FreshHeap α) (ps : List ℕ) (vs : List α) : Prop :=
  List.Forall₂ (fun p v => h.read p = some v) ps vs

section One
variable {h h' : FreshHeap α} {p q : ℕ} {v : α}

@[simp] theorem alloc_fst : (h.alloc v).1 = h.next := rfl

@[simp] theorem read_alloc : (h.alloc v).2.read = Function.update h.read h.next (some v) := rfl

@[simp] theorem next_alloc : (h.alloc v).2.next = h.next + 1 := rfl

theorem lt_next (hp : h.read p ≠ none) : p < h.next := by
  by_contra hle
  exact hp (h.read_of_le p (Nat.not_lt.1 hle))

/-- A new block is none of those that hold something. -/
theorem read_alloc_of_some (hp : h.read p = some v) {w : α} : (h.alloc w).2.read p = some v := by
  have hlt : p < h.next := lt_next (by simp [hp])
  rw [read_alloc, Function.update_of_ne (by omega), hp]

/-- What a release leaves behind. -/
theorem free_spec (hp : h.read p = some v) :
    ∃ h', h.free p = some h' ∧ h'.read = Function.update h.read p none ∧ h'.next = h.next := by
  unfold free
  split
  · next hnone => simp [hp] at hnone
  · exact ⟨_, rfl, rfl, rfl⟩

end One

section Lists
variable {h h' : FreshHeap α} {ps : List ℕ} {vs : List α}

/-- The values are found wherever the blocks have not changed. -/
theorem Holds.congr (hh : Holds h ps vs) (hread : ∀ p ∈ ps, h'.read p = h.read p) :
    Holds h' ps vs := by
  induction hh with
  | nil => exact .nil
  | cons hp _ ih =>
      refine .cons ?_ (ih fun q hq => hread q (List.mem_cons_of_mem _ hq))
      rw [hread _ List.mem_cons_self, hp]

/-- A new block leaves them where they are. -/
theorem Holds.alloc (hh : Holds h ps vs) (w : α) : Holds (h.alloc w).2 ps vs :=
  hh.imp fun _ _ hp => read_alloc_of_some hp

theorem Holds.ne_none (hh : Holds h ps vs) {p : ℕ} (hp : p ∈ ps) : h.read p ≠ none := by
  induction hh with
  | nil => simp at hp
  | cons hq _ ih =>
      rcases List.mem_cons.1 hp with rfl | hp
      · simp [hq]
      · exact ih hp

/-- The blocks of `allocAll` are new, one behind the other, and hold the values. -/
theorem allocAll_spec (h : FreshHeap α) (vs : List α) :
    (h.allocAll vs).1 = List.range' h.next vs.length ∧
      Holds (h.allocAll vs).2 (h.allocAll vs).1 vs ∧
      (h.allocAll vs).2.next = h.next + vs.length ∧
      ∀ p < h.next, (h.allocAll vs).2.read p = h.read p := by
  induction vs generalizing h with
  | nil => exact ⟨rfl, .nil, rfl, fun p _ => rfl⟩
  | cons v vs ih =>
      obtain ⟨hps, hholds, hnext, hread⟩ := ih (h.alloc v).2
      simp only [next_alloc] at hps hnext hread
      refine ⟨?_, ?_, ?_, ?_⟩
      · simp only [allocAll, alloc_fst, hps, List.length_cons, List.range'_succ]
      · refine .cons ?_ hholds
        have hfirst := hread h.next (by omega)
        rw [read_alloc, Function.update_self] at hfirst
        exact hfirst
      · simp only [allocAll, hnext, List.length_cons]
        omega
      · intro p hp
        simp only [allocAll]
        rw [hread p (by omega), read_alloc, Function.update_of_ne (by omega)]

theorem nodup_allocAll (h : FreshHeap α) (vs : List α) : (h.allocAll vs).1.Nodup := by
  rw [(allocAll_spec h vs).1]
  exact List.nodup_range'

/-- Blocks that hold something are kept by `allocAll`. -/
theorem Holds.allocAll (hh : Holds h ps vs) (ws : List α) : Holds (h.allocAll ws).2 ps vs :=
  hh.congr fun p hp => (allocAll_spec h ws).2.2.2 p (lt_next (hh.ne_none hp))

/-- They are not among the new ones. -/
theorem Holds.not_mem_allocAll (hh : Holds h ps vs) (ws : List α) :
    ∀ p ∈ ps, p ∉ (h.allocAll ws).1 := by
  intro p hp hmem
  have hlt := lt_next (hh.ne_none hp)
  rw [(allocAll_spec h ws).1, List.mem_range'_1] at hmem
  omega

/-- Blocks that hold values and are all different can be released, and then hold nothing;
the others stay. -/
theorem freeAll_spec (hh : Holds h ps vs) (hnodup : ps.Nodup) :
    ∃ h', h.freeAll ps = some h' ∧ (∀ p ∈ ps, h'.read p = none) ∧
      ∀ p, p ∉ ps → h'.read p = h.read p := by
  induction ps generalizing h vs with
  | nil => exact ⟨h, rfl, fun p hp => absurd hp List.not_mem_nil, fun p _ => rfl⟩
  | cons q qs ih =>
      cases hh with
      | cons hq htail =>
          obtain ⟨hqs, hnodup⟩ := List.nodup_cons.1 hnodup
          obtain ⟨h₁, hfree, hread, -⟩ := free_spec hq
          have hstay : ∀ p ≠ q, h₁.read p = h.read p := by
            intro p hp
            rw [hread, Function.update_of_ne hp]
          obtain ⟨h', hall, hnone, hother⟩ :=
            ih (Holds.congr htail fun p hp => hstay p (ne_of_mem_of_not_mem hp hqs)) hnodup
          refine ⟨h', by rw [freeAll, hfree, Option.bind_some, hall], ?_, ?_⟩
          · intro p hp
            rcases List.mem_cons.1 hp with rfl | hp
            · rw [hother p hqs, hread, Function.update_self]
            · exact hnone p hp
          · intro p hp
            rw [List.mem_cons, not_or] at hp
            rw [hother p hp.2, hstay p hp.1]

end Lists

end FreshHeap

end Threaders.Lib
