import Threaders.Lib.Loop
import Threaders.Sac.AbsolutePaths
import Threaders.Sac.Mkdir

/-!
# The entries that the scans of the table look at

The scan of `determinar_nodo` and the free-slot loop of `sac_create_directory` join the test of
the entry and the test of the counter with `&`, which evaluates both.  An entry is looked at
before the counter ends the loop, and in the free-slot loop the counter is one ahead of the
entry and bounded with `<=`.  So either loop, where no entry ends it, looks at entry 1024,
which lies behind the table.

## Main definitions

* `rondaNodo`, `rondaLibre` — one round of either loop, with the pointer and the counter.
* `Examina`, `ExaminaLibre` — the entries looked at.
* `Lleva` — each name of a path has an entry in the table.
-/

namespace Threaders.Sac

open Lib

/-! ## The two loops -/

/-- The index of the entry that `node` points to, and `i`. -/
structure Cursor where
  node : ℕ
  i : ℕ
  deriving DecidableEq, Repr

/-- `node = node_table_start` and `i = 0`. -/
def Cursor.start : Cursor := ⟨0, 0⟩

/-- The condition of the scan of `determinar_nodo`: parent, name and state of the entry are read
whatever `i` is. -/
def sigueNodo (m : Mem) (nodoAnterior : ℕ) (nombre : Str) (c : Cursor) : Bool :=
  !isNode m nodoAnterior nombre c.node && decide (c.i < sacFileByTable)

/-- `node = &(node[1])`, and `i++`. -/
def Cursor.nextNodo (c : Cursor) : Cursor := ⟨c.node + 1, c.i + 1⟩

/-- A round of the scan of `determinar_nodo`. -/
def rondaNodo (m : Mem) (nodoAnterior : ℕ) (nombre : Str) : Cursor → Option (Cursor ⊕ Cursor) :=
  whileBody (sigueNodo m nodoAnterior nombre) Cursor.nextNodo

/-- The condition of the free-slot loop: the state of the entry is read whatever `i` is. -/
def sigueLibre (m : Mem) (c : Cursor) : Bool :=
  decide (state m c.node ≠ 0) && decide (c.i ≤ nodeTableSize)

/-- `node = &(node_table_start[i])`, and `i++`. -/
def Cursor.nextLibre (c : Cursor) : Cursor := ⟨c.i, c.i + 1⟩

/-- A round of the free-slot loop. -/
def rondaLibre (m : Mem) : Cursor → Option (Cursor ⊕ Cursor) :=
  whileBody (sigueLibre m) Cursor.nextLibre

section Loops
variable {m : Mem} {nodoAnterior k : ℕ} {nombre : Str}

theorem iterate_nextNodo (k : ℕ) : Cursor.nextNodo^[k] Cursor.start = ⟨k, k⟩ := by
  induction k with
  | zero => rfl
  | succ k ih => rw [Function.iterate_succ_apply', ih, Cursor.nextNodo]

/-- The counter is one ahead of the pointer, but for the first round. -/
theorem iterate_nextLibre (k : ℕ) : Cursor.nextLibre^[k] Cursor.start = ⟨k - 1, k⟩ := by
  induction k with
  | zero => rfl
  | succ k ih => rw [Function.iterate_succ_apply', ih, Cursor.nextLibre, Nat.add_sub_cancel]

theorem sigueNodo_iff : sigueNodo m nodoAnterior nombre ⟨k, k⟩ = true ↔
    isNode m nodoAnterior nombre k = false ∧ k < sacFileByTable := by
  simp [sigueNodo]

theorem sigueLibre_iff : sigueLibre m ⟨k - 1, k⟩ = true ↔
    state m (k - 1) ≠ 0 ∧ k ≤ nodeTableSize := by
  simp [sigueLibre]

/-- The scan of `determinar_nodo` ends, with the answer of `buscarNodo`. -/
theorem loop_rondaNodo (m : Mem) (nodoAnterior : ℕ) (nombre : Str) :
    ∃ fuel c, loop (rondaNodo m nodoAnterior nombre) fuel Cursor.start = some c ∧
      buscarNodo m nodoAnterior nombre = if c.i ≥ sacFileByTable then noNode else c.i + 1 := by
  have hle : firstIndex (isNode m nodoAnterior nombre) sacFileByTable 0 ≤ 0 + sacFileByTable :=
    firstIndex_le
  refine ⟨_, _, loop_whileBody
    (k := firstIndex (isNode m nodoAnterior nombre) sacFileByTable 0) ?_ ?_, ?_⟩
  · intro j hj
    rw [iterate_nextNodo, sigueNodo_iff]
    exact ⟨not_of_lt_firstIndex (Nat.zero_le j) hj, by omega⟩
  · rw [iterate_nextNodo, ← Bool.not_eq_true, sigueNodo_iff]
    rintro ⟨hnode, hlt⟩
    have hfound : firstIndex (isNode m nodoAnterior nombre) sacFileByTable 0 <
        0 + sacFileByTable := by omega
    rw [firstIndex_spec hfound] at hnode
    cases hnode
  · rw [iterate_nextNodo]
    rfl

/-- The free-slot loop ends with the count of `buscarLibre` and the entry one below it. -/
theorem loop_rondaLibre (m : Mem) :
    ∃ fuel, loop (rondaLibre m) fuel Cursor.start =
      some ⟨buscarLibre m - 1, buscarLibre m⟩ := by
  have hle : buscarLibre m ≤ 0 + (nodeTableSize + 1) := firstIndex_le
  refine ⟨buscarLibre m + 1, ?_⟩
  rw [← iterate_nextLibre]
  apply loop_whileBody
  · intro j hj
    rw [iterate_nextLibre, sigueLibre_iff]
    exact ⟨of_decide_eq_false (not_of_lt_firstIndex (Nat.zero_le j) hj), by omega⟩
  · rw [iterate_nextLibre, ← Bool.not_eq_true, sigueLibre_iff]
    rintro ⟨hstate, hlt⟩
    have hfree : buscarLibre m < 0 + (nodeTableSize + 1) := by omega
    exact hstate (of_decide_eq_true (firstIndex_spec hfree))

/-- The scan comes to the entries in front of which none is the one it looks for, up to the
one behind the table. -/
theorem visits_rondaNodo_iff {c : Cursor} :
    Visits (rondaNodo m nodoAnterior nombre) Cursor.start c ↔
      ∃ k ≤ sacFileByTable, c = ⟨k, k⟩ ∧ ∀ j < k, isNode m nodoAnterior nombre j = false := by
  unfold rondaNodo
  rw [visits_whileBody_iff]
  simp only [iterate_nextNodo, sigueNodo_iff]
  constructor
  · rintro ⟨k, rfl, hgo⟩
    refine ⟨k, ?_, rfl, fun j hj => (hgo j hj).1⟩
    by_contra hlt
    have hlast := (hgo sacFileByTable (by omega)).2
    omega
  · rintro ⟨k, hk, rfl, hgo⟩
    exact ⟨k, rfl, fun j hj => ⟨hgo j hj, by omega⟩⟩

/-- The free-slot loop comes to the first entry and, as long as no entry so far was free, to
the next, up to the one behind the table. -/
theorem visits_rondaLibre_iff {c : Cursor} :
    Visits (rondaLibre m) Cursor.start c ↔
      ∃ k ≤ nodeTableSize + 1, c = ⟨k - 1, k⟩ ∧ ∀ j < k, state m (j - 1) ≠ 0 := by
  unfold rondaLibre
  rw [visits_whileBody_iff]
  simp only [iterate_nextLibre, sigueLibre_iff]
  constructor
  · rintro ⟨k, rfl, hgo⟩
    refine ⟨k, ?_, rfl, fun j hj => (hgo j hj).1⟩
    by_contra hlt
    have hlast := (hgo (nodeTableSize + 1) (by omega)).2
    omega
  · rintro ⟨k, hk, rfl, hgo⟩
    exact ⟨k, rfl, fun j hj => ⟨hgo j hj, by omega⟩⟩

end Loops

/-! ## The entries looked at -/

/-- An entry that the scans of `determinar_nodo(path)` look at: its own or those of the calls
on the upper path. -/
inductive Examina (m : Mem) : Str → ℕ → Prop
  | superior {path superPath nombre : Str} {k : ℕ}
      (hsplit : splitPath path = some (superPath, nombre)) (h : Examina m superPath k) :
      Examina m path k
  | tabla {path superPath nombre : Str} {nodoAnterior : ℕ} {c : Cursor}
      (hsplit : splitPath path = some (superPath, nombre))
      (hnodo : determinarNodo m superPath = some nodoAnterior)
      (hvisits : Visits (rondaNodo m nodoAnterior nombre) Cursor.start c) :
      Examina m path c.node

/-- An entry that the free-slot loop looks at. -/
def ExaminaLibre (m : Mem) (k : ℕ) : Prop := ∃ c, Visits (rondaLibre m) Cursor.start c ∧ c.node = k

/-- The path leads to the number: each of its names is that of an entry of the table, in use and
with the number of the entry before as its parent, and of these the first. -/
inductive Lleva (m : Mem) : Str → ℕ → Prop
  | raiz : Lleva m [slash] 0
  | entrada {path superPath nombre : Str} {n i : ℕ}
      (hsplit : splitPath path = some (superPath, nombre)) (h : Lleva m superPath n)
      (hi : i < sacFileByTable) (hnode : isNode m n nombre i = true)
      (hfirst : ∀ j < i, isNode m n nombre j = false) : Lleva m path (i + 1)

section Bounds
variable {m : Mem} {path : Str} {n : ℕ}

theorem splitPath_root : splitPath [slash] = none := by decide

/-- A path that leads to a number is looked up as that number. -/
theorem Lleva.determinarNodo (h : Lleva m path n) : determinarNodo m path = some n := by
  induction h with
  | raiz => rw [Sac.determinarNodo, if_pos rfl]
  | @entrada path superPath nombre n i hsplit _ hi hnode hfirst ih =>
      have hindex : firstIndex (isNode m n nombre) sacFileByTable 0 = i :=
        firstIndex_eq_of (Nat.zero_le i) (by omega) hnode fun j _ hj => hfirst j hj
      rw [determinarNodo_of_splitPath hsplit, ih, Option.map_some, buscarNodo, hindex,
        if_neg (by omega)]

/-- The scan stays inside the table exactly if it finds an entry there. -/
theorem scan_in_table_iff {nodoAnterior : ℕ} {nombre : Str} :
    (∀ c, Visits (rondaNodo m nodoAnterior nombre) Cursor.start c → c.node < sacFileByTable) ↔
      ∃ i < sacFileByTable, isNode m nodoAnterior nombre i = true := by
  constructor
  · intro h
    by_contra hnone
    have hvisits : Visits (rondaNodo m nodoAnterior nombre) Cursor.start
        ⟨sacFileByTable, sacFileByTable⟩ := by
      refine visits_rondaNodo_iff.2 ⟨sacFileByTable, le_rfl, rfl, fun j hj => ?_⟩
      by_contra hnode
      exact hnone ⟨j, hj, by simpa using hnode⟩
    exact lt_irrefl _ (h _ hvisits)
  · rintro ⟨i, hi, hnode⟩ c hvisits
    obtain ⟨k, hk, rfl, hpassed⟩ := visits_rondaNodo_iff.1 hvisits
    by_contra hge
    have hle : sacFileByTable ≤ k := Nat.not_lt.1 hge
    have hfalse := hpassed i (by omega)
    rw [hnode] at hfalse
    cases hfalse

/-- The free-slot loop stays inside the table exactly if an entry is free. -/
theorem examinaLibre_in_table_iff :
    (∀ k, ExaminaLibre m k → k < sacFileByTable) ↔ ∃ i < sacFileByTable, state m i = 0 := by
  constructor
  · intro h
    by_contra hnone
    have hvisits : Visits (rondaLibre m) Cursor.start ⟨nodeTableSize + 1 - 1, nodeTableSize + 1⟩ := by
      refine visits_rondaLibre_iff.2 ⟨nodeTableSize + 1, le_rfl, rfl, fun j hj hfree => ?_⟩
      unfold nodeTableSize at hj
      exact hnone ⟨j - 1, by unfold sacFileByTable; omega, hfree⟩
    exact lt_irrefl _ (h _ ⟨_, hvisits, rfl⟩)
  · rintro ⟨i, hi, hfree⟩ k ⟨c, hvisits, rfl⟩
    obtain ⟨k, hk, rfl, hpassed⟩ := visits_rondaLibre_iff.1 hvisits
    by_contra hge
    have hle : sacFileByTable ≤ k - 1 := Nat.not_lt.1 hge
    exact hpassed (i + 1) (by omega) hfree

/-- Where a path leads to a number, every entry looked at lies in the table. -/
theorem Lleva.examina_lt (h : Lleva m path n) {k : ℕ} (hk : Examina m path k) :
    k < sacFileByTable := by
  induction h generalizing k with
  | raiz =>
      cases hk with
      | superior hsplit => simp [splitPath_root] at hsplit
      | tabla hsplit => simp [splitPath_root] at hsplit
  | entrada hsplit hsuper hi hnode hfirst ih =>
      cases hk with
      | superior hsplit' hk =>
          obtain ⟨rfl, -⟩ := Prod.mk.inj (Option.some.inj (hsplit.symm.trans hsplit'))
          exact ih hk
      | tabla hsplit' hnodo hvisits =>
          obtain ⟨rfl, rfl⟩ := Prod.mk.inj (Option.some.inj (hsplit.symm.trans hsplit'))
          obtain rfl := Option.some.inj (hsuper.determinarNodo.symm.trans hnodo)
          exact scan_in_table_iff.2 ⟨_, hi, hnode⟩ _ hvisits

/-- Where the scans of a lookup stay inside the table, each has found its entry there. -/
theorem exists_lleva (h : Absolute path) (hin : ∀ k, Examina m path k → k < sacFileByTable) :
    ∃ n, Lleva m path n := by
  induction hlen : path.length using Nat.strongRecOn generalizing path with
  | _ len ih =>
      by_cases hroot : path = [slash]
      · exact ⟨0, hroot ▸ .raiz⟩
      · obtain ⟨superPath, nombre, hsplit, -, habs, -⟩ :=
          splitPath_absolute h (two_le_length h hroot)
        obtain ⟨n, hn⟩ := ih superPath.length (hlen ▸ length_of_splitPath hsplit) habs
          (fun k hk => hin k (.superior hsplit hk)) rfl
        have hfound : ∃ i < sacFileByTable, isNode m n nombre i = true := by
          apply scan_in_table_iff.1
          intro c hvisits
          exact hin c.node (.tabla hsplit hn.determinarNodo hvisits)
        classical
        obtain ⟨hi, hnode⟩ := Nat.find_spec hfound
        refine ⟨_, .entrada hsplit hn hi hnode fun j hj => ?_⟩
        have hbefore := Nat.find_min hfound hj
        by_contra hnode'
        exact hbefore ⟨by omega, by simpa using hnode'⟩

/-- For every content of the table and every absolute path: all entries that the scans of the
lookup and the free-slot loop look at lie in the table if and only if each name of the path has
an entry there and an entry is free. -/
theorem examined_in_table_iff (m : Mem) {path : Str} (h : Absolute path) :
    ((∀ k, Examina m path k → k < sacFileByTable) ∧ ∀ k, ExaminaLibre m k → k < sacFileByTable) ↔
      (∃ n, Lleva m path n) ∧ ∃ i < sacFileByTable, state m i = 0 := by
  rw [examinaLibre_in_table_iff]
  constructor
  · rintro ⟨hin, hfree⟩
    exact ⟨exists_lleva h hin, hfree⟩
  · rintro ⟨⟨n, hn⟩, hfree⟩
    exact ⟨fun k hk => hn.examina_lt hk, hfree⟩

/-- On the table that holds the directory `/a` alone, for `/a`. -/
theorem examined_in_table_iff_a :
    (∀ k, Examina (escribirNodo (fun _ => 0) 0 [97] 0) [slash, 97] k → k < sacFileByTable) ∧
      ∀ k, ExaminaLibre (escribirNodo (fun _ => 0) 0 [97] 0) k → k < sacFileByTable := by
  have hsplit : splitPath [slash, 97] = some ([slash], [97]) := by decide
  have hlleva : Lleva (escribirNodo (fun _ => 0) 0 [97] 0) [slash, 97] 1 :=
    .entrada hsplit .raiz (by decide) (by decide) fun j hj => absurd hj (Nat.not_lt_zero j)
  have habsolute : Absolute [slash, 97] := rfl
  exact (examined_in_table_iff _ habsolute).mpr ⟨⟨1, hlleva⟩, 1, by decide, by decide⟩

/-- The lookup of `/a` in an empty table, and the search of a free entry in a full one, come to
the entry behind the table. -/
theorem scans_leave_table :
    (¬ ∀ k, Examina (fun _ => 0) [slash, 97] k → k < sacFileByTable) ∧
      ¬ ∀ k, ExaminaLibre (fun _ => 1) k → k < sacFileByTable := by
  constructor
  · intro hin
    have hvisits : Visits (rondaNodo (fun _ => 0) 0 [97]) Cursor.start
        ⟨sacFileByTable, sacFileByTable⟩ := by
      refine visits_rondaNodo_iff.2 ⟨sacFileByTable, le_rfl, rfl, fun j _ => ?_⟩
      simp [isNode, state]
    have hsplit : splitPath [slash, 97] = some ([slash], [97]) := by decide
    have hroot : determinarNodo (fun _ => 0) [slash] = some 0 := by rw [determinarNodo, if_pos rfl]
    exact lt_irrefl _ (hin _ (.tabla hsplit hroot hvisits))
  · rw [examinaLibre_in_table_iff]
    rintro ⟨i, -, hfree⟩
    simp [state] at hfree

/-- A lookup that finds nothing has looked behind the table. -/
theorem examina_of_noNode (h : Absolute path) (hnone : determinarNodo m path = some noNode) :
    Examina m path sacFileByTable := by
  have hroot : path ≠ [slash] := by
    rintro rfl
    rw [determinarNodo, if_pos rfl] at hnone
    exact absurd hnone (by decide)
  obtain ⟨superPath, nombre, hsplit, -, habs, -⟩ := splitPath_absolute h (two_le_length h hroot)
  obtain ⟨n, hn⟩ := exists_determinarNodo m habs
  rw [determinarNodo_of_splitPath hsplit, hn, Option.map_some, Option.some.injEq] at hnone
  have hvisits : Visits (rondaNodo m n nombre) Cursor.start ⟨sacFileByTable, sacFileByTable⟩ := by
    refine visits_rondaNodo_iff.2 ⟨sacFileByTable, le_rfl, rfl, fun j hj => ?_⟩
    exact isNode_of_noNode hnone hj
  exact .tabla hsplit hn hvisits

/-- So has every call of `sac_create_directory` that creates a directory. -/
theorem examina_of_created (h : Absolute path) {m' : Mem}
    (hcall : sacCreateDirectory m path = some (0, m')) : Examina m path sacFileByTable := by
  apply examina_of_noNode h
  obtain ⟨nodo, hnodo⟩ := exists_determinarNodo m h
  by_cases hnone : nodo = noNode
  · rw [hnodo, hnone]
  · simp [sacCreateDirectory, hnodo, hnone, EEXIST] at hcall

end Bounds

end Threaders.Sac
