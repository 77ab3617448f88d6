import Mathlib.Data.Set.Insert
import Mathlib.Data.List.Basic

/-!
# Trees of directories

A directory is the list of names that leads to it, and a tree is a set of directories
with the root and with every parent.  `mkdir` is what creating a directory means, before
there is a table, a path string or a node number.

## Main definitions

* `DirTree`, `DirTree.root` — a tree, and the one with nothing but the root.
* `DirTree.mkdir` — the answer to a request and the tree after it.
-/

namespace Threaders.Lib

/-- A set of directories with the root that has the parent of each. -/
@[ext] structure DirTree (α : Type*) where
  dirs : Set (List α)
  root_mem : [] ∈ dirs
  parent_mem : ∀ p c, p ++ [c] ∈ dirs → p ∈ dirs

/-- The answers to a request to create a directory. -/
inductive MkdirResult
  | ok | exist | noEnt | dQuot
  deriving DecidableEq

namespace DirTree

variable {α : Type*}

/-- The tree of the root alone. -/
def root : DirTree α where
  dirs := {[]}
  root_mem := rfl
  parent_mem p c h := absurd h (by simp)

/-- A directory is added below one that is there. -/
def insert (t : DirTree α) (p : List α) (c : α) (hp : p ∈ t.dirs) : DirTree α where
  dirs := Insert.insert (p ++ [c]) t.dirs
  root_mem := .inr t.root_mem
  parent_mem q d h := by
    rcases h with h | h
    · obtain ⟨rfl, -⟩ := List.append_inj' h rfl
      exact .inr hp
    · exact .inr (t.parent_mem q d h)

/-- A request to create `p`, in a tree that may be full. -/
inductive Mkdir (full : Prop) (t : DirTree α) : List α → MkdirResult → DirTree α → Prop
  | exist {p : List α} (h : p ∈ t.dirs) : Mkdir full t p .exist t
  | noEnt {p : List α} {c : α} (h : p ∉ t.dirs) : Mkdir full t (p ++ [c]) .noEnt t
  | dQuot {p : List α} {c : α} (h : p ∈ t.dirs) (hnew : p ++ [c] ∉ t.dirs) (hfull : full) :
      Mkdir full t (p ++ [c]) .dQuot t
  | ok {p : List α} {c : α} (h : p ∈ t.dirs) (hnew : p ++ [c] ∉ t.dirs) (hroom : ¬full) :
      Mkdir full t (p ++ [c]) .ok (t.insert p c h)

/-- The answer to a request is determined by the tree and by whether it is full. -/
theorem Mkdir.result_iff {full : Prop} {t t' : DirTree α} {p : List α} {r : MkdirResult}
    (h : Mkdir full t p r t') :
    (r = .exist ↔ p ∈ t.dirs) ∧
    (r = .noEnt ↔ p ∉ t.dirs ∧ p.dropLast ∉ t.dirs) ∧
    (r = .dQuot ↔ p ∉ t.dirs ∧ p.dropLast ∈ t.dirs ∧ full) ∧
    (r = .ok ↔ p ∉ t.dirs ∧ p.dropLast ∈ t.dirs ∧ ¬full) := by
  cases h with
  | exist h => simp [h]
  | @noEnt p c h =>
      have hnew : p ++ [c] ∉ t.dirs := fun hmem => h (t.parent_mem p c hmem)
      simp [h, hnew]
  | dQuot h hnew hfull => simp [h, hnew, hfull]
  | ok h hnew hroom => simp [h, hnew, hroom]

theorem Mkdir.mem_of_ok {full : Prop} {t t' : DirTree α} {p : List α} (h : Mkdir full t p .ok t') :
    p ∈ t'.dirs := by
  cases h with
  | ok h hnew hroom => exact .inl rfl

end DirTree

end Threaders.Lib
