import Mathlib.Data.List.Basic
import Mathlib.Logic.Function.Basic

/-!
# An intrusive queue: a head, a tail and one link per node

The nodes of a queue carry their own `next` link, and the queue is a head and a tail
pointer into them.  `pop` moves the head along and leaves the tail alone, so the tail
of an empty queue points at whatever node was last in it; `push` writes through that
stale tail.  `Rep l q` says that the links represent the list `q`, and says nothing
about the tail of an empty queue, nor about the links of nodes outside it: this is
what makes the stray write harmless.

## Main definitions

* `Chain next p q` — following `next` from `p` visits exactly `q`.
* `Links`, `Links.pop`, `Links.push` — the queue and its two operations.
* `Rep` — the links represent a list.
-/

namespace Threaders.Lib

variable {α : Type*}

/-! ## Chains of links -/

/-- Following `next` from `p` visits the nodes of the list in order and then ends. -/
def Chain (next : α → Option α) : Option α → List α → Prop
  | p, [] => p = none
  | p, a :: as => p = some a ∧ Chain next (next a) as

namespace Chain

variable {next next' : α → Option α} {p : Option α} {as bs : List α}

@[simp] theorem nil_iff : Chain next p [] ↔ p = none := Iff.rfl

@[simp] theorem cons_iff {a : α} : Chain next p (a :: as) ↔ p = some a ∧ Chain next (next a) as :=
  Iff.rfl

theorem head?_eq (h : Chain next p as) : p = as.head? := by
  cases as with
  | nil => exact h
  | cons a as => exact h.1

/-- The links determine the list. -/
theorem unique (ha : Chain next p as) (hb : Chain next p bs) : as = bs := by
  induction as generalizing p bs with
  | nil =>
      cases bs with
      | nil => rfl
      | cons b bs => exact absurd (ha.symm.trans hb.1) (by simp)
  | cons a as ih =>
      cases bs with
      | nil => exact absurd (hb.symm.trans ha.1) (by simp)
      | cons b bs =>
          obtain ⟨rfl, ha⟩ := ha
          obtain ⟨hab, hb⟩ := hb
          obtain rfl : a = b := by simpa using hab
          rw [ih ha hb]

/-- Only the links of the nodes on the chain matter. -/
theorem congr (h : Chain next p as) (heq : ∀ a ∈ as, next' a = next a) : Chain next' p as := by
  induction as generalizing p with
  | nil => exact h
  | cons a as ih =>
      refine ⟨h.1, ?_⟩
      rw [heq a List.mem_cons_self]
      exact ih h.2 fun b hb => heq b (List.mem_cons_of_mem a hb)

/-- From a node on the chain, the rest of the chain can be followed. -/
theorem of_append {b : α} (h : Chain next p (as ++ b :: bs)) : Chain next (next b) bs := by
  induction as generalizing p with
  | nil => exact h.2
  | cons a as ih => exact ih h.2

/-- A chain that ends visits no node twice: from a second visit it would go on as from
the first. -/
theorem nodup (h : Chain next p as) : as.Nodup := by
  induction as generalizing p with
  | nil => exact List.nodup_nil
  | cons a as ih =>
      refine List.nodup_cons.mpr ⟨fun hmem => ?_, ih h.2⟩
      obtain ⟨us, vs, rfl⟩ := List.append_of_mem hmem
      have heq := h.2.unique h.2.of_append
      have hlen := congrArg List.length heq
      simp at hlen
      omega

/-- Linking a fresh node behind the last one extends the chain by it. -/
theorem snoc [DecidableEq α] {t x : α} (h : Chain next p (as ++ [t])) (hx : x ∉ as ++ [t]) :
    Chain (Function.update (Function.update next t (some x)) x none) p (as ++ [t] ++ [x]) := by
  have hnodup := h.nodup
  induction as generalizing p with
  | nil =>
      have hxt : t ≠ x := fun heq => hx (by simp [heq])
      exact ⟨h.1, by simp [hxt], by simp⟩
  | cons a as ih =>
      have hax : a ≠ x := fun heq => hx (by simp [heq])
      have hat : a ≠ t := fun heq => by simp [heq] at hnodup
      refine ⟨h.1, ?_⟩
      rw [Function.update_of_ne hax, Function.update_of_ne hat]
      exact ih h.2 (fun hm => hx (List.mem_cons_of_mem a hm)) h.2.nodup

end Chain

/-! ## The queue -/

/-- The pointers of a queue and the link of every node. -/
structure Links (α : Type*) where
  next : α → Option α
  head : Option α
  tail : Option α

namespace Links

/-- Take the head off.  The tail is not reset. -/
def pop (l : Links α) : Option α × Links α :=
  match l.head with
  | none => (none, l)
  | some a => (some a, { l with head := l.next a })

/-- Append a node: it becomes the head of an empty queue, the node the tail points at
is linked to it, and it becomes the tail with no link of its own. -/
def push [DecidableEq α] (l : Links α) (x : α) : Links α where
  head := if l.head = none then some x else l.head
  tail := some x
  next := Function.update
    (match l.tail with
      | none => l.next
      | some t => Function.update l.next t (some x)) x none

end Links

/-- The links represent the list `q`. -/
structure Rep (l : Links α) (q : List α) : Prop where
  chain : Chain l.next l.head q
  tail_eq : q ≠ [] → l.tail = q.getLast?

namespace Rep

variable {l : Links α} {q : List α}

theorem nodup (h : Rep l q) : q.Nodup := h.chain.nodup

theorem unique {q' : List α} (h : Rep l q) (h' : Rep l q') : q = q' := h.chain.unique h'.chain

theorem head_eq (h : Rep l q) : l.head = q.head? := h.chain.head?_eq

/-- Only the pointers and the links of queued nodes matter. -/
theorem congr {l' : Links α} (h : Rep l q) (hhead : l'.head = l.head) (htail : l'.tail = l.tail)
    (hnext : ∀ a ∈ q, l'.next a = l.next a) : Rep l' q :=
  ⟨hhead ▸ h.chain.congr hnext, fun hq => htail.trans (h.tail_eq hq)⟩

/-- Popping takes the first node and leaves a representation of the rest. -/
theorem pop_cons {a : α} (h : Rep l (a :: q)) :
    l.pop = (some a, { l with head := l.next a }) ∧ Rep { l with head := l.next a } q := by
  have hhead : l.head = some a := h.head_eq
  refine ⟨by simp [Links.pop, hhead], h.chain.2, fun hq => ?_⟩
  rw [h.tail_eq (List.cons_ne_nil a q), List.getLast?_cons, List.getLast?_eq_some_getLast hq]
  simp

/-- Pushing a node that is not queued appends it, wherever a stale tail points. -/
theorem push [DecidableEq α] {x : α} (h : Rep l q) (hx : x ∉ q) : Rep (l.push x) (q ++ [x]) := by
  refine ⟨?_, fun _ => by simp [Links.push]⟩
  rcases q.eq_nil_or_concat' with rfl | ⟨as, t, rfl⟩
  · have hhead : l.head = none := h.head_eq
    simp [Links.push, hhead]
  · have htail : l.tail = some t := by simpa using h.tail_eq (by simp)
    have hhead : l.head ≠ none := by
      rw [h.head_eq]
      cases as <;> simp
    simpa [Links.push, htail, hhead] using h.chain.snoc (x := x) hx

end Rep

end Threaders.Lib
