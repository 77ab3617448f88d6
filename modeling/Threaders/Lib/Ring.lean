import Mathlib.Data.List.Rotate
import Mathlib.Data.List.Nodup

/-!
# Rings of names

A bounded round-robin scheduler over threads that are named in the order of their creation:
the one that runs stands first, the others follow in the order in which they will run.  The
first thread has the name 0 and stays; the others may leave.

## Main definitions

* `Ring` — the names in their order, and the number of names given.
* `Ring.yield`, `Ring.create`, `Ring.leave` — what the thread that runs may do.
* `Ring.Gone` — a name that was given and has left.
-/

namespace Threaders.Lib

/-- At most `capacity` threads, the one that runs first. -/
structure Ring (capacity : ℕ) where
  names : List ℕ
  created : ℕ
  nodup : names.Nodup
  lt : ∀ name ∈ names, name < created
  zero : 0 ∈ names
  length_le : names.length ≤ capacity

/-- What the thread that runs may do. -/
inductive Ring.Action
  | yield | create | leave
  deriving DecidableEq

namespace Ring

variable {capacity : ℕ}

@[ext] theorem ext {r r' : Ring capacity} (hnames : r.names = r'.names)
    (hcreated : r.created = r'.created) : r = r' := by
  cases r
  cases r'
  congr

theorem ne_nil (r : Ring capacity) : r.names ≠ [] := List.ne_nil_of_mem r.zero

/-- The thread that runs. -/
def current (r : Ring capacity) : ℕ := r.names.head r.ne_nil

theorem names_eq (r : Ring capacity) : r.names = r.current :: r.names.tail :=
  (List.cons_head_tail r.ne_nil).symm

/-- Only the first thread. -/
def init (h : 0 < capacity) : Ring capacity where
  names := List.range 1
  created := 1
  nodup := List.nodup_range
  lt := fun _ => List.mem_range.mp
  zero := List.mem_singleton.mpr rfl
  length_le := h

/-- The next thread runs, and this one goes behind all others. -/
def yield (r : Ring capacity) : Ring capacity where
  names := r.names.rotate 1
  created := r.created
  nodup := List.nodup_rotate.mpr r.nodup
  lt := fun name h => r.lt name (List.mem_rotate.mp h)
  zero := List.mem_rotate.mpr r.zero
  length_le := by
    rw [List.length_rotate]
    exact r.length_le

/-- A thread more, behind all others. -/
def push (r : Ring capacity) (h : r.names.length < capacity) : Ring capacity where
  names := r.names ++ [r.created]
  created := r.created + 1
  nodup := List.nodup_append.mpr ⟨r.nodup, List.nodup_singleton _, fun name hname _ hcreated heq =>
    (r.lt name hname).ne (heq.trans (List.mem_singleton.mp hcreated))⟩
  lt := by
    intro name hname
    rcases List.mem_append.mp hname with h | h
    · exact Nat.lt_succ_of_lt (r.lt name h)
    · rw [List.mem_singleton.mp h]
      exact Nat.lt_succ_self _
  zero := List.mem_append_left _ r.zero
  length_le := by
    rw [List.length_append]
    exact h

/-- A thread is made, if there is room, and runs when its turn comes. -/
def create (r : Ring capacity) : Ring capacity :=
  if h : r.names.length < capacity then (r.push h).yield else r

/-- The thread that runs leaves; the first one stays. -/
def leave (r : Ring capacity) : Ring capacity :=
  if h : r.current = 0 then r.yield else
    { names := r.names.tail
      created := r.created
      nodup := r.nodup.tail
      lt := fun name hname => r.lt name (List.mem_of_mem_tail hname)
      zero := by
        have hzero := r.zero
        rw [r.names_eq, List.mem_cons] at hzero
        exact hzero.resolve_left (Ne.symm h)
      length_le := by
        rw [List.length_tail]
        exact (Nat.sub_le _ 1).trans r.length_le }

def step (r : Ring capacity) : Action → Ring capacity
  | .yield => r.yield
  | .create => r.create
  | .leave => r.leave

/-- The ring after a list of actions. -/
def run (r : Ring capacity) (actions : List Action) : Ring capacity := actions.foldl step r

/-! ## The order -/

theorem names_yield_eq_rotate (r : Ring capacity) : r.yield.names = r.names.rotate 1 := rfl

theorem names_push (r : Ring capacity) (h : r.names.length < capacity) :
    (r.push h).names = r.current :: (r.names.tail ++ [r.created]) := by
  have hnames : (r.push h).names = r.names ++ [r.created] := rfl
  rw [hnames, r.names_eq]
  rfl

theorem names_create_of_lt {r : Ring capacity} (h : r.names.length < capacity) :
    r.create.names = r.names.tail ++ [r.created, r.current] := by
  rw [create, dif_pos h, names_yield_eq_rotate, names_push]
  simp

theorem created_create_of_lt {r : Ring capacity} (h : r.names.length < capacity) :
    r.create.created = r.created + 1 := by
  rw [create, dif_pos h]
  rfl

theorem create_of_full {r : Ring capacity} (h : r.names.length = capacity) : r.create = r :=
  dif_neg (by omega)

theorem leave_of_zero {r : Ring capacity} (h : r.current = 0) : r.leave = r.yield := dif_pos h

theorem names_leave_of_ne {r : Ring capacity} (h : r.current ≠ 0) :
    r.leave.names = r.names.tail := by
  rw [leave, dif_neg h]

@[simp] theorem created_leave (r : Ring capacity) : r.leave.created = r.created := by
  unfold leave
  split <;> rfl

theorem run_replicate_yield (r : Ring capacity) (n : ℕ) :
    (r.run (List.replicate n .yield)).names = r.names.rotate n ∧
      (r.run (List.replicate n .yield)).created = r.created := by
  induction n generalizing r with
  | zero => exact ⟨(List.rotate_zero _).symm, rfl⟩
  | succ n ih =>
      obtain ⟨hnames, hcreated⟩ := ih r.yield
      rw [names_yield_eq_rotate, List.rotate_rotate, Nat.add_comm] at hnames
      exact ⟨hnames, hcreated⟩

/-- A round in which every thread yields once comes back to where it began. -/
theorem run_round (r : Ring capacity) : r.run (List.replicate r.names.length .yield) = r := by
  obtain ⟨hnames, hcreated⟩ := r.run_replicate_yield r.names.length
  exact ext (by rw [hnames, List.rotate_length]) hcreated

theorem created_step_le (r : Ring capacity) (action : Action) :
    (r.step action).created ≤ r.created + 1 := by
  cases action with
  | yield => exact Nat.le_succ _
  | create =>
      rcases r.length_le.lt_or_eq with hroom | hfull
      · exact (created_create_of_lt hroom).le
      · rw [step, create_of_full hfull]
        exact Nat.le_succ _
  | leave => exact (created_leave r).le.trans (Nat.le_succ _)

/-- An action gives one name at most. -/
theorem created_run_le (r : Ring capacity) (actions : List Action) :
    (r.run actions).created ≤ r.created + actions.length := by
  induction actions generalizing r with
  | nil => exact le_rfl
  | cons action actions ih =>
      have hstep := created_step_le r action
      have hrun := ih (r.step action)
      rw [List.length_cons]
      exact hrun.trans (by omega)

/-! ## Names that have left -/

/-- The name was given, and its thread has left. -/
def Gone (r : Ring capacity) (name : ℕ) : Prop := name < r.created ∧ name ∉ r.names

theorem Gone.after {r : Ring capacity} {name : ℕ} (h : r.Gone name) (action : Action) :
    (r.step action).Gone name := by
  obtain ⟨hlt, hgone⟩ := h
  have htail : name ∉ r.names.tail := fun hmem => hgone (List.mem_of_mem_tail hmem)
  have hyield : r.yield.Gone name := ⟨hlt, fun hmem => hgone (List.mem_rotate.mp hmem)⟩
  cases action with
  | yield => exact hyield
  | create =>
      rcases r.length_le.lt_or_eq with hroom | hfull
      · have hcurrent : name ≠ r.current := fun heq => hgone (heq ▸ List.head_mem r.ne_nil)
        refine ⟨?_, ?_⟩
        · rw [step, created_create_of_lt hroom]
          exact Nat.lt_succ_of_lt hlt
        · rw [step, names_create_of_lt hroom]
          simp [htail, hlt.ne, hcurrent]
      · rw [step, create_of_full hfull]
        exact ⟨hlt, hgone⟩
  | leave =>
      by_cases hzero : r.current = 0
      · rw [step, leave_of_zero hzero]
        exact hyield
      · refine ⟨?_, ?_⟩
        · rw [step, created_leave]
          exact hlt
        · rw [step, names_leave_of_ne hzero]
          exact htail

/-- A name is never given twice. -/
theorem Gone.run {r : Ring capacity} {name : ℕ} (h : r.Gone name) (actions : List Action) :
    (r.run actions).Gone name := by
  induction actions generalizing r with
  | nil => exact h
  | cons action actions ih => exact ih (h.after action)

end Ring

end Threaders.Lib
