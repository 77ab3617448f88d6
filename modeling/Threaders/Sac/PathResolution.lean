import Threaders.Sac.NodeTable
import Mathlib.Data.List.Basic
import Mathlib.Data.List.Induction

/-!
# Absolute paths and the nodes they lead to

`determinar_nodo` cuts a path from its end and recurses, so on `/c₁/…/cₖ` it comes to
one scan of the table for each component, from the root on, each with the answer of the
scan before it; the `-1` of a scan that finds nothing is handed on as a parent number.

## Main definitions

* `Component`, `absPath` — the names of a path and the string they make.
* `determinarNodo_absPath` — the lookup is a fold of `buscarNodo`.
-/

namespace Threaders.Sac

open Lib

/-- A name on a path: not empty, without `/` and without NUL. -/
structure Component (c : Str) : Prop where
  ne_nil : c ≠ []
  slash_not_mem : slash ∉ c
  zero_not_mem : 0 ∉ c

/-- The components with a `/` in front of each. -/
def joined (cs : List Str) : Str := cs.flatMap fun c => slash :: c

@[simp] theorem joined_nil : joined [] = [] := rfl

@[simp] theorem joined_concat (cs : List Str) (c : Str) :
    joined (cs ++ [c]) = joined cs ++ slash :: c := by simp [joined]

/-- The path with the given components, with or without a slash at its end; the root has
no other form. -/
def absPath (cs : List Str) (trailing : Bool) : Str :=
  if cs = [] then [slash] else joined cs ++ if trailing then [slash] else []

@[simp] theorem absPath_nil (trailing : Bool) : absPath [] trailing = [slash] := rfl

theorem absPath_concat (cs : List Str) (c : Str) (trailing : Bool) :
    absPath (cs ++ [c]) trailing =
      joined cs ++ slash :: c ++ if trailing then [slash] else [] := by
  simp [absPath]

theorem absPath_true (cs : List Str) : absPath cs true = joined cs ++ [slash] := by
  cases cs <;> simp [absPath]

section Split
variable {cs : List Str} {c : Str} {trailing : Bool}

theorem cutSlash_concat (p : Str) (b : UInt8) :
    cutSlash (p ++ [b]) = if b = slash then p else p ++ [b] := by
  simp [cutSlash, lastchar]

theorem cutSlash_absPath (hc : Component c) :
    cutSlash (absPath (cs ++ [c]) trailing) = joined cs ++ slash :: c := by
  rw [absPath_concat]
  cases trailing with
  | true => rw [if_pos rfl, cutSlash_concat, if_pos rfl]
  | false =>
      rcases c.eq_nil_or_concat' with rfl | ⟨d, b, rfl⟩
      · exact absurd rfl hc.ne_nil
      · have hb : b ≠ slash := fun heq => hc.slash_not_mem (by simp [heq])
        have hconcat : joined cs ++ slash :: (d ++ [b]) = (joined cs ++ slash :: d) ++ [b] := by simp
        rw [if_neg (by decide), List.append_nil, hconcat, cutSlash_concat, if_neg hb]

/-- `split_path` takes the last component off. -/
theorem splitPath_absPath (cs : List Str) (trailing : Bool) (hc : Component c) :
    splitPath (absPath (cs ++ [c]) trailing) = some (absPath cs true, c) := by
  rw [absPath_true]
  exact splitPath_of_cutSlash (cutSlash_absPath hc) hc.slash_not_mem

theorem absPath_concat_ne (hc : Component c) : absPath (cs ++ [c]) trailing ≠ [slash] := by
  intro h
  have hlen := congrArg List.length h
  have hpos := List.length_pos_iff.mpr hc.ne_nil
  rw [absPath_concat] at hlen
  simp at hlen
  omega

end Split

/-! ## The lookup as a fold -/

/-- The node the components lead to from the root. -/
def resolve (m : Mem) (cs : List Str) : ℕ := cs.foldl (buscarNodo m) 0

@[simp] theorem resolve_nil (m : Mem) : resolve m [] = 0 := rfl

@[simp] theorem resolve_concat (m : Mem) (cs : List Str) (c : Str) :
    resolve m (cs ++ [c]) = buscarNodo m (resolve m cs) c := by simp [resolve]

/-- On an absolute path `determinar_nodo` looks its components up one after another. -/
theorem determinarNodo_absPath (m : Mem) {cs : List Str} (hcs : ∀ c ∈ cs, Component c)
    (trailing : Bool) : determinarNodo m (absPath cs trailing) = some (resolve m cs) := by
  induction cs using List.reverseRecOn generalizing trailing with
  | nil => rw [determinarNodo, absPath_nil, if_pos rfl, resolve_nil]
  | append_singleton cs c ih =>
      have hc : Component c := hcs c (by simp)
      have hsuper := ih (fun d hd => hcs d (List.mem_append_left [c] hd)) true
      rw [determinarNodo_of_splitPath (splitPath_absPath cs trailing hc), hsuper, Option.map_some,
        resolve_concat]

/-- A scan answers a node number, or that there is none. -/
theorem buscarNodo_le (m : Mem) (nodoAnterior : ℕ) (nombre : Str) :
    buscarNodo m nodoAnterior nombre ≤ sacFileByTable ∨ buscarNodo m nodoAnterior nombre = noNode := by
  unfold buscarNodo
  simp only
  split
  · exact .inr rfl
  · exact .inl (by omega)

end Threaders.Sac
