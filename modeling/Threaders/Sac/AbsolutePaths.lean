import Threaders.Sac.NodeTable
import Mathlib.Logic.Relation
import Mathlib.Order.WellFounded

/-!
# Absolute paths with slashes in any number

`split_path` cuts one final slash off a path and then parts it behind the last slash that is
left.  Where slashes are doubled the name may be empty, and the upper path is shorter by the
slash alone.  So each call that `determinar_nodo` makes is on an absolute path shorter than the
one before, down to the root, and `strrchr` finds a slash in all of them but the root.

## Main definitions

* `Absolute` — a path that starts with a slash.
* `Llama` — the call that `determinar_nodo` makes of itself.
* `splitPath_absolute` — what `split_path` makes of an absolute path other than the root.
-/

namespace Threaders.Sac

open Lib

/-- The path starts with `/`. -/
def Absolute (path : Str) : Prop := path.head? = some slash

/-- `determinar_nodo(path)` calls itself on the upper path. -/
def Llama (path superPath : Str) : Prop :=
  path ≠ [slash] ∧ ∃ nombre, splitPath path = some (superPath, nombre)

section Split
variable {path superPath name : Str}

theorem absolute_iff : Absolute path ↔ ∃ t, path = slash :: t := by
  cases path with
  | nil => simp [Absolute]
  | cons b t => simp [Absolute]

theorem Absolute.strrchr_ne_none (h : Absolute path) : strrchr path slash ≠ none := by
  obtain ⟨t, rfl⟩ := absolute_iff.1 h
  intro hnone
  exact strrchr_eq_none.1 hnone List.mem_cons_self

/-- The slash at the front stays. -/
theorem absolute_cutSlash (h : Absolute path) (hlen : 2 ≤ path.length) :
    Absolute (cutSlash path) := by
  obtain ⟨t, rfl⟩ := absolute_iff.1 h
  have ht : t ≠ [] := by
    rintro rfl
    simp at hlen
  unfold cutSlash
  split
  · rw [List.dropLast_cons_of_ne_nil ht]
    rfl
  · exact h

/-- What `split_path` makes of an absolute path other than the root: behind the last slash
stands the name, and the upper path is what is in front, that slash included. -/
theorem splitPath_absolute (h : Absolute path) (hlen : 2 ≤ path.length) :
    ∃ superPath name, splitPath path = some (superPath, name) ∧ slash ∉ name ∧
      Absolute superPath ∧ superPath ++ name = cutSlash path := by
  have habs := absolute_cutSlash h hlen
  obtain ⟨s, hs⟩ := Option.ne_none_iff_exists'.1 habs.strrchr_ne_none
  obtain ⟨as, name, hcut, -, hname⟩ := exists_of_strrchr hs
  refine ⟨as ++ [slash], name, splitPath_of_cutSlash hcut hname, hname, ?_, by simp [hcut]⟩
  cases as with
  | nil => rfl
  | cons a as =>
      rw [hcut] at habs
      exact habs

/-- The only absolute path of length 1 is the root. -/
theorem two_le_length (h : Absolute path) (hroot : path ≠ [slash]) : 2 ≤ path.length := by
  obtain ⟨t, rfl⟩ := absolute_iff.1 h
  cases t with
  | nil => exact absurd rfl hroot
  | cons b t => simp

/-- A call on an absolute path is made on a shorter one, absolute again. -/
theorem Llama.absolute (hcall : Llama path superPath) (h : Absolute path) :
    Absolute superPath ∧ superPath.length < path.length := by
  obtain ⟨hroot, nombre, hsplit⟩ := hcall
  obtain ⟨superPath', name, hsplit', -, habs, -⟩ := splitPath_absolute h (two_le_length h hroot)
  obtain ⟨rfl, -⟩ : superPath' = superPath ∧ name = nombre := by
    simpa [hsplit'] using hsplit
  exact ⟨habs, length_of_splitPath hsplit⟩

end Split

/-- On an absolute path `determinar_nodo` has an answer. -/
theorem exists_determinarNodo (m : Mem) {path : Str} (h : Absolute path) :
    ∃ n, determinarNodo m path = some n := by
  induction hlen : path.length using Nat.strongRecOn generalizing path with
  | _ len ih =>
      by_cases hroot : path = [slash]
      · exact ⟨0, by rw [determinarNodo, if_pos hroot]⟩
      · obtain ⟨superPath, nombre, hsplit, -, habs, -⟩ :=
          splitPath_absolute h (two_le_length h hroot)
        obtain ⟨n, hn⟩ := ih superPath.length (hlen ▸ length_of_splitPath hsplit) habs rfl
        exact ⟨_, by rw [determinarNodo_of_splitPath hsplit, hn, Option.map_some]⟩

/-- For every path of length at least 2 that starts with a slash, whatever slashes follow,
`split_path` gives a name without slash and an upper path that starts with one and is shorter,
and the two make up the path without its final slash.  So on every absolute path and every
table the calls of `determinar_nodo` come to an end, none of them finds `strrchr` without a
slash, and the function answers. -/
theorem split_path_decreases :
    (∀ path : Str, 2 ≤ path.length → Absolute path →
      ∃ superPath name, splitPath path = some (superPath, name) ∧ slash ∉ name ∧
        Absolute superPath ∧ superPath.length < path.length ∧
        superPath ++ name = if path.getLast? = some slash then path.dropLast else path) ∧
    (∀ (m : Mem) (path : Str), Absolute path →
      Acc (fun q p => Llama p q) path ∧
      (∀ q, Relation.ReflTransGen Llama path q → q ≠ [slash] →
        strrchr (cutSlash q) slash ≠ none) ∧
      ∃ n, determinarNodo m path = some n) := by
  constructor
  · intro path hlen h
    obtain ⟨superPath, name, hsplit, hname, habs, hcut⟩ := splitPath_absolute h hlen
    refine ⟨superPath, name, hsplit, hname, habs, length_of_splitPath hsplit, ?_⟩
    rw [hcut]
    simp [cutSlash, lastchar]
  · intro m path h
    refine ⟨?_, ?_, exists_determinarNodo m h⟩
    · induction hlen : path.length using Nat.strongRecOn generalizing path with
      | _ len ih =>
          constructor
          intro superPath hcall
          obtain ⟨habs, hlt⟩ := hcall.absolute h
          exact ih superPath.length (hlen ▸ hlt) superPath habs rfl
    · intro q hcalls hroot
      have habs : Absolute q := by
        induction hcalls with
        | refl => exact h
        | tail _ hcall ih => exact (hcall.absolute (ih hcall.1)).1
      exact (absolute_cutSlash habs (two_le_length habs hroot)).strrchr_ne_none

theorem split_path_decreases_slashes :
    (∃ superPath name, splitPath [slash, slash] = some (superPath, name) ∧ slash ∉ name ∧
      Absolute superPath ∧ superPath.length < [slash, slash].length ∧
      superPath ++ name =
        if [slash, slash].getLast? = some slash then [slash, slash].dropLast
        else [slash, slash]) ∧
    ∃ n, determinarNodo (fun _ => 0) [slash, slash, 97] = some n :=
  ⟨split_path_decreases.1 [slash, slash] (by decide) rfl,
    (split_path_decreases.2 (fun _ => 0) [slash, slash, 97] rfl).2.2⟩

end Threaders.Sac
