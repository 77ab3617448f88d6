import Threaders.Lib.ByteMemory
import Threaders.Lib.Scan

/-!
# The node table of the file system

`sac_operate.c` and `sac_write.c` over the bytes of the disk: address 0 is
`node_table_start`, and an entry is a `struct sac_file_t` of 4096 bytes.  A string is
the bytes before its NUL.  A path is far shorter than 2^31 bytes, so `int aux` in
`split_path` holds every length.

A function gives `none` where the code reads before a string or through the `NULL` of
`strrchr`.

## Main definitions

* `state`, `fileName`, `parentDirBlock` — the fields of an entry.
* `splitPath`, `determinarNodo` — the lookup of a path.
* `sacCreateDirectory` — the creation of a directory.
-/

namespace Threaders.Sac

open Lib

/-- A C string, without its NUL. -/
abbrev Str := List UInt8

/-- The character `/`. -/
def slash : UInt8 := 47

/-! ## Constants -/

/-- `SAC_FILE_BY_TABLE` and `NODE_TABLE_SIZE`. -/
def sacFileByTable : ℕ := 1024
def nodeTableSize : ℕ := 1024

/-- `SAC_FILE_NAME_LENGTH`. -/
def sacFileNameLength : ℕ := 71

/-- `DIRECTORY_T`. -/
def directoryT : UInt8 := 2

def EEXIST : ℤ := 17
def ENOENT : ℤ := 2
def EDQUOT : ℤ := 122

/-- `(pointerSACBlock) -1`. -/
def noNode : ℕ := 2 ^ 32 - 1

/-- The number of an entry is a `uint32_t`. -/
theorem toU32_of_le_table {n : ℕ} (h : n ≤ sacFileByTable) : (toU32 n).toNat = n := by
  unfold sacFileByTable at h
  rw [toU32_of_mem (by omega) (by omega), Int.toNat_natCast]

/-! ## Layout of `struct sac_file_t` -/

/-- `node_table_start[i]`, and the fields of an entry. -/
def nodeAt (i : ℕ) : ℤ := 4096 * i
def fileNameAt (i : ℕ) : ℤ := nodeAt i + 1
def parentDirBlockAt (i : ℕ) : ℤ := nodeAt i + 72
def fileSizeAt (i : ℕ) : ℤ := nodeAt i + 76

/-- `node->state`. -/
def state (m : Mem) (i : ℕ) : UInt8 := m (nodeAt i)

/-- `node->parent_dir_block`. -/
def parentDirBlock (m : Mem) (i : ℕ) : ℕ := m.readLe (parentDirBlockAt i) 4

/-- `node->file_name`, up to its NUL. -/
def fileName (m : Mem) (i : ℕ) : Str :=
  (m.read (fileNameAt i) sacFileNameLength).takeWhile (· ≠ 0)

/-! ## `split_path` -/

/-- `lastchar`, on a string that is not empty. -/
def lastchar (str : Str) (chr : UInt8) : Bool := str.getLast? = some chr

/-- `strrchr`: the string from the last occurrence on. -/
def strrchr : Str → UInt8 → Option Str
  | [], _ => none
  | b :: bs, chr =>
      match strrchr bs chr with
      | some str => some str
      | none => if b = chr then some (b :: bs) else none

/-- What both copies of the path become once a final `/` is cut off. -/
def cutSlash (path : Str) : Str := if lastchar path slash then path.dropLast else path

/-- `split_path`: the upper path and the name. -/
def splitPath (path : Str) : Option (Str × Str) :=
  if path = [] then none
  else
    match strrchr (cutSlash path) slash with
    | none => none
    | some str =>
        let name := str.tail
        let superPath := cutSlash path
        let aux := superPath.length - name.length
        some (superPath.take aux, name)

section Strrchr
variable {str s as bs : Str} {chr : UInt8}

theorem strrchr_eq_none : strrchr str chr = none ↔ chr ∉ str := by
  induction str with
  | nil => simp [strrchr]
  | cons b bs ih =>
      rw [strrchr, List.mem_cons, not_or, ← ih]
      cases strrchr bs chr with
      | some s => simp
      | none => simp [eq_comm]

/-- The last occurrence is the one with none behind it. -/
theorem strrchr_append (h : chr ∉ bs) : strrchr (as ++ chr :: bs) chr = some (chr :: bs) := by
  induction as with
  | nil => rw [List.nil_append, strrchr, strrchr_eq_none.mpr h, if_pos rfl]
  | cons a as ih => rw [List.cons_append, strrchr, ih]

theorem exists_of_strrchr (h : strrchr str chr = some s) :
    ∃ as bs, str = as ++ chr :: bs ∧ s = chr :: bs ∧ chr ∉ bs := by
  induction str generalizing s with
  | nil => cases h
  | cons b bs ih =>
      cases htail : strrchr bs chr with
      | some t =>
          obtain rfl : t = s := by simpa [strrchr, htail] using h
          obtain ⟨as, cs, rfl, ht, hcs⟩ := ih htail
          exact ⟨b :: as, cs, rfl, ht, hcs⟩
      | none =>
          obtain ⟨rfl, rfl⟩ : b = chr ∧ b :: bs = s := by simpa [strrchr, htail] using h
          exact ⟨[], bs, rfl, rfl, strrchr_eq_none.mp htail⟩

end Strrchr

/-- The upper path ends at the last `/` before the name. -/
theorem splitPath_of_cutSlash {path as name : Str} (hcut : cutSlash path = as ++ slash :: name)
    (hname : slash ∉ name) : splitPath path = some (as ++ [slash], name) := by
  have hne : path ≠ [] := by
    rintro rfl
    simp [cutSlash, lastchar] at hcut
  have hlen : (as ++ slash :: name).length - name.length = (as ++ [slash]).length := by simp; omega
  rw [splitPath, if_neg hne, hcut, strrchr_append hname]
  simp only [List.tail_cons, hlen]
  conv_lhs => rw [List.append_cons as slash name, List.take_left]

/-- The upper path is shorter than the path. -/
theorem length_of_splitPath {path superPath name : Str}
    (h : splitPath path = some (superPath, name)) : superPath.length < path.length := by
  have hne : path ≠ [] := by
    rintro rfl
    simp [splitPath] at h
  obtain ⟨s, hs⟩ : ∃ s, strrchr (cutSlash path) slash = some s := by
    by_contra hnone
    rw [splitPath, if_neg hne, Option.eq_none_iff_forall_ne_some.mpr fun s hs => hnone ⟨s, hs⟩] at h
    cases h
  obtain ⟨as, bs, hcut, -, hbs⟩ := exists_of_strrchr hs
  obtain ⟨rfl, rfl⟩ : as ++ [slash] = superPath ∧ bs = name := by
    simpa [splitPath_of_cutSlash hcut hbs] using h
  by_cases hlast : lastchar path slash
  · have hlen := congrArg List.length hcut
    rw [cutSlash, if_pos hlast] at hlen
    have hpos := List.length_pos_iff.mpr hne
    simp at hlen ⊢
    omega
  · -- without a final slash the name is not empty
    rw [cutSlash, if_neg hlast] at hcut
    have hbne : bs ≠ [] := by
      rintro rfl
      simp [hcut, lastchar] at hlast
    have hpos := List.length_pos_iff.mpr hbne
    simp [hcut]
    omega

/-! ## `determinar_nodo` -/

/-- The entry has the given parent and name and is in use. -/
def isNode (m : Mem) (nodoAnterior : ℕ) (nombre : Str) (i : ℕ) : Bool :=
  parentDirBlock m i = nodoAnterior && m.strEq (fileNameAt i) nombre && state m i ≠ 0

/-- The scan of `determinar_nodo`.  At the end of the table the loop reads one entry
more, whatever it holds. -/
def buscarNodo (m : Mem) (nodoAnterior : ℕ) (nombre : Str) : ℕ :=
  let i := firstIndex (isNode m nodoAnterior nombre) sacFileByTable 0
  if i ≥ sacFileByTable then noNode else i + 1

/-- `determinar_nodo`. -/
def determinarNodo (m : Mem) (path : Str) : Option ℕ :=
  if path = [slash] then some 0
  else
    match _h : splitPath path with
    | none => none
    | some (superPath, nombre) =>
        (determinarNodo m superPath).map fun nodoAnterior => buscarNodo m nodoAnterior nombre
termination_by path.length
decreasing_by exact length_of_splitPath _h

/-- What one call of `determinar_nodo` on a path other than the root comes to. -/
theorem determinarNodo_of_splitPath {m : Mem} {path superPath nombre : Str}
    (hsplit : splitPath path = some (superPath, nombre)) :
    determinarNodo m path =
      (determinarNodo m superPath).map fun nodoAnterior => buscarNodo m nodoAnterior nombre := by
  have hroot : path ≠ [slash] := by
    rintro rfl
    simp [splitPath, cutSlash, lastchar, strrchr] at hsplit
  rw [determinarNodo, if_neg hroot]
  split
  · next hnone => simp [hsplit] at hnone
  · next superPath' nombre' hsome =>
      obtain ⟨rfl, rfl⟩ : superPath = superPath' ∧ nombre = nombre' := by
        simpa [hsplit] using hsome
      rfl

/-! ## `sac_create_directory` -/

/-- The loop over the table: `i` ends one above the index of the first free entry, or at 0,
and the entry for both 0 and 1 is the first. -/
def buscarLibre (m : Mem) : ℕ :=
  firstIndex (fun i => state m (i - 1) = 0) (nodeTableSize + 1) 0

/-- The fields of a new directory, in the order they are written. -/
def escribirNodo (m : Mem) (i : ℕ) (nombre : Str) (fatherNode : ℤ) : Mem :=
  let m := m.write (nodeAt i) [directoryT]
  let m := m.write (fileNameAt i) (nombre ++ [0])
  let m := m.writeLe (fileSizeAt i) 4 0
  m.writeLe (parentDirBlockAt i) 4 (toU32 fatherNode).toNat

/-- The number of the upper path.  `father_node` is an `int`. -/
def fatherNode (m : Mem) (dirPadre : Str) : Option ℤ :=
  if dirPadre = [slash] then some 0 else (determinarNodo m dirPadre).map fun n => toI32 n

/-- `sac_create_directory`. -/
def sacCreateDirectory (m : Mem) (path : Str) : Option (ℤ × Mem) := do
  let nodo ← determinarNodo m path
  if nodo ≠ noNode then return (-EEXIST, m)
  let (dirPadre, nombre) ← splitPath path
  let father ← fatherNode m dirPadre
  if father < 0 then return (-ENOENT, m)
  let i := buscarLibre m
  if i > nodeTableSize then return (-EDQUOT, m)
  return (0, escribirNodo m (i - 1) nombre father)

end Threaders.Sac
