import Threaders.Sac.Mkdir

/-!
# What a lookup finds

Read from the left, a path is a walk from the root: each component leads from a directory to
the first live entry with that parent and that name.  `determinar_nodo` goes from the right and
takes the `-1` of a missing directory for the number of a parent; as long as no live entry has
that number for a parent, the two agree on every table, whatever entries were deleted or are
there twice.

## Main definitions

* `child`, `walk` — one component, and a path.
* `NameTerminated` — the name of an entry ends within its field.
* `determinarNodo_eq_walk` — the lookup is the walk.
-/

namespace Threaders.Sac

open Lib

/-! ## Walking a path -/

/-- The entry is in use, with the given parent and name. -/
def IsChild (m : Mem) (n : ℕ) (c : Str) (i : ℕ) : Prop :=
  state m i ≠ 0 ∧ parentDirBlock m i = n ∧ fileName m i = c

instance (m : Mem) (n : ℕ) (c : Str) (i : ℕ) : Decidable (IsChild m n c i) :=
  inferInstanceAs (Decidable (_ ∧ _ ∧ _))

/-- The number of the first entry with the given parent and name: one more than its index. -/
def child (m : Mem) (n : ℕ) (c : Str) : Option ℕ :=
  ((List.range sacFileByTable).find? fun i => IsChild m n c i).map (· + 1)

/-- The number that a path leads to from the root. -/
def walk (m : Mem) (cs : List Str) : Option ℕ := cs.foldlM (child m) 0

/-- The name of the entry ends within its field. -/
def NameTerminated (m : Mem) (i : ℕ) : Prop := 0 ∈ m.read (fileNameAt i) sacFileNameLength

section Walk
variable {m : Mem} {cs : List Str} {c : Str} {n k : ℕ}

theorem child_eq_some_iff : child m n c = some k ↔
    ∃ i < sacFileByTable, k = i + 1 ∧ IsChild m n c i ∧ ∀ j < i, ¬ IsChild m n c j := by
  simp only [child, Option.map_eq_some_iff, List.find?_range_eq_some, decide_eq_true_eq,
    List.mem_range, Bool.not_eq_true', decide_eq_false_iff_not]
  constructor
  · rintro ⟨i, ⟨hchild, hi, hfirst⟩, rfl⟩
    exact ⟨i, hi, rfl, hchild, hfirst⟩
  · rintro ⟨i, hi, rfl, hchild, hfirst⟩
    exact ⟨i, ⟨hchild, hi, hfirst⟩, rfl⟩

theorem child_eq_none_iff : child m n c = none ↔ ∀ i < sacFileByTable, ¬ IsChild m n c i := by
  simp [child]

@[simp] theorem walk_nil (m : Mem) : walk m [] = some 0 := rfl

@[simp] theorem walk_concat (m : Mem) (cs : List Str) (c : Str) :
    walk m (cs ++ [c]) = (walk m cs).bind fun n => child m n c := by
  simp [walk]

theorem walk_le (h : walk m cs = some n) : n ≤ sacFileByTable := by
  rcases cs.eq_nil_or_concat' with rfl | ⟨cs, c, rfl⟩
  · obtain rfl : 0 = n := by simpa using h
    exact Nat.zero_le _
  · rw [walk_concat, Option.bind_eq_some_iff] at h
    obtain ⟨k, -, hchild⟩ := h
    obtain ⟨i, hi, rfl, -⟩ := child_eq_some_iff.1 hchild
    exact Nat.succ_le_of_lt hi

/-- A walk fails at the first component that leads nowhere. -/
theorem walk_eq_none_iff : walk m cs = none ↔
    ∃ p c q n, cs = p ++ c :: q ∧ walk m p = some n ∧ child m n c = none := by
  induction cs using List.reverseRecOn with
  | nil => simp
  | append_singleton cs d ih =>
      rw [walk_concat, Option.bind_eq_none_iff]
      constructor
      · intro h
        cases hcs : walk m cs with
        | none =>
            obtain ⟨p, c, q, n, rfl, hp, hc⟩ := ih.1 hcs
            exact ⟨p, c, q ++ [d], n, by simp, hp, hc⟩
        | some n => exact ⟨cs, d, [], n, rfl, hcs, h n hcs⟩
      · rintro ⟨p, c, q, n, heq, hp, hc⟩ k hk
        rcases q.eq_nil_or_concat' with rfl | ⟨q, b, rfl⟩
        · obtain ⟨rfl, hd⟩ := List.append_inj' heq rfl
          obtain rfl : d = c := by simpa using hd
          rw [hp, Option.some.injEq] at hk
          subst hk
          exact hc
        · have hcs : cs = p ++ c :: q := by
            rw [← List.cons_append, ← List.append_assoc] at heq
            exact (List.append_inj' heq rfl).1
          rw [ih.2 ⟨p, c, q, n, hcs, hp, hc⟩] at hk
          cases hk

end Walk

/-! ## The scan of the table -/

section Scan
variable {m : Mem} {cs : List Str} {c : Str} {n i : ℕ}

/-- `strcmp` tells a name that ends within its field. -/
theorem isNode_iff_isChild (hname : state m i ≠ 0 → NameTerminated m i) (hc : 0 ∉ c) :
    isNode m n c i = true ↔ IsChild m n c i := by
  have hnode : isNode m n c i = true ↔
      parentDirBlock m i = n ∧ m.strEq (fileNameAt i) c = true ∧ state m i ≠ 0 := by
    simp [isNode, and_assoc]
  rw [hnode, IsChild, fileName]
  constructor
  · rintro ⟨hparent, hstr, hlive⟩
    exact ⟨hlive, hparent, (Mem.strEq_iff_takeWhile (hname hlive) hc).1 hstr⟩
  · rintro ⟨hlive, hparent, hstr⟩
    exact ⟨hparent, (Mem.strEq_iff_takeWhile (hname hlive) hc).2 hstr, hlive⟩

/-- The scan finds the child, or answers `-1`. -/
theorem buscarNodo_eq_child (hname : ∀ i < sacFileByTable, state m i ≠ 0 → NameTerminated m i)
    (hc : 0 ∉ c) : buscarNodo m n c = (child m n c).getD noNode := by
  cases hchild : child m n c with
  | none =>
      refine buscarNodo_of_none fun j hj => ?_
      rw [Bool.eq_false_iff, Ne, isNode_iff_isChild (hname j hj) hc]
      exact child_eq_none_iff.1 hchild j hj
  | some k =>
      obtain ⟨i, hi, rfl, hnode, hfirst⟩ := child_eq_some_iff.1 hchild
      have hindex : firstIndex (isNode m n c) sacFileByTable 0 = i := by
        refine firstIndex_eq_of (Nat.zero_le i) (by omega)
          ((isNode_iff_isChild (hname i hi) hc).2 hnode) fun j _ hj => ?_
        rw [Bool.eq_false_iff, Ne, isNode_iff_isChild (hname j (by omega)) hc]
        exact hfirst j hj
      rw [buscarNodo, hindex, if_neg (by omega), Option.getD_some]

/-- With `-1` for a parent nothing is found. -/
theorem child_noNode (hparent : ∀ i < sacFileByTable, state m i ≠ 0 → parentDirBlock m i ≠ noNode)
    (c : Str) : child m noNode c = none :=
  child_eq_none_iff.2 fun i hi hchild => hparent i hi hchild.1 hchild.2.1

theorem resolve_eq_walk_of_not_mem
    (hparent : ∀ i < sacFileByTable, state m i ≠ 0 → parentDirBlock m i ≠ noNode)
    (hname : ∀ i < sacFileByTable, state m i ≠ 0 → NameTerminated m i)
    (hcs : ∀ c ∈ cs, 0 ∉ c) : resolve m cs = (walk m cs).getD noNode := by
  induction cs using List.reverseRecOn with
  | nil => rfl
  | append_singleton cs c ih =>
      rw [resolve_concat, walk_concat, ih fun d hd => hcs d (List.mem_append_left [c] hd),
        buscarNodo_eq_child hname (hcs c (by simp))]
      cases walk m cs with
      | none =>
          rw [Option.getD_none, child_noNode hparent, Option.bind_none, Option.getD_none]
      | some n => rw [Option.getD_some, Option.bind_some]

theorem resolve_eq_walk
    (hparent : ∀ i < sacFileByTable, state m i ≠ 0 → parentDirBlock m i ≠ noNode)
    (hname : ∀ i < sacFileByTable, state m i ≠ 0 → NameTerminated m i)
    (hcs : ∀ c ∈ cs, Component c) : resolve m cs = (walk m cs).getD noNode :=
  resolve_eq_walk_of_not_mem hparent hname fun c hc => (hcs c hc).zero_not_mem

end Scan

/-- On every table without a live entry below node `-1`, and with names that end within their
fields, a lookup gives the number that the path leads to, and `-1` exactly if some component
leads nowhere. -/
theorem determinarNodo_eq_walk {m : Mem}
    (hparent : ∀ i < sacFileByTable, state m i ≠ 0 → parentDirBlock m i ≠ noNode)
    (hname : ∀ i < sacFileByTable, state m i ≠ 0 → NameTerminated m i)
    {cs : List Str} (hcs : ∀ c ∈ cs, Component c) (trailing : Bool) :
    determinarNodo m (absPath cs trailing) = some ((walk m cs).getD noNode) ∧
    (determinarNodo m (absPath cs trailing) = some noNode ↔
      ∃ p c q n, cs = p ++ c :: q ∧ walk m p = some n ∧ child m n c = none) := by
  rw [determinarNodo_absPath m hcs, resolve_eq_walk hparent hname hcs, ← walk_eq_none_iff,
    Option.some.injEq]
  refine ⟨rfl, ?_⟩
  cases hwalk : walk m cs with
  | none => simp
  | some n =>
      have hle := walk_le hwalk
      have hlt : sacFileByTable < noNode := by decide
      simpa using (hle.trans_lt hlt).ne

/-- The only directory of a table, with a slash behind its name. -/
theorem determinarNodo_eq_walk_a :
    determinarNodo (escribirNodo (fun _ => 0) 0 [97] 0) (absPath [[97]] true) = some 1 := by
  have honly := onlyEntry_escribirNodo (fun _ => 0) 0 (c := [97]) 0 (by decide)
  have hfirst : ∀ i, state (escribirNodo (fun _ => 0) 0 [97] 0) i ≠ 0 → i = 0 := by
    intro i hlive
    by_contra hne
    exact hlive (honly.state_eq hne)
  have hwalk : walk (escribirNodo (fun _ => 0) 0 [97] 0) [[97]] = some 1 := by decide +kernel
  have hparent : ∀ i < sacFileByTable, state (escribirNodo (fun _ => 0) 0 [97] 0) i ≠ 0 →
      parentDirBlock (escribirNodo (fun _ => 0) 0 [97] 0) i ≠ noNode := by
    intro i _ hlive
    obtain rfl := hfirst i hlive
    rw [parentDirBlock_escribirNodo]
    decide
  have hname : ∀ i < sacFileByTable, state (escribirNodo (fun _ => 0) 0 [97] 0) i ≠ 0 →
      NameTerminated (escribirNodo (fun _ => 0) 0 [97] 0) i := by
    intro i _ hlive
    obtain rfl := hfirst i hlive
    unfold NameTerminated
    decide +kernel
  have hcs : ∀ c ∈ [[97]], Component c := by
    intro c hc
    obtain rfl : c = [97] := by simpa using hc
    exact ⟨by decide, by decide, by decide⟩
  have hlookup := (determinarNodo_eq_walk hparent hname hcs true).1
  rw [hlookup, hwalk]
  rfl

end Threaders.Sac
