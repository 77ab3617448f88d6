import Threaders.Sac.AbsolutePaths
import Threaders.Sac.Lookup

/-!
# Every absolute path

`split_path` drops one slash from the end of a path and parts what is left at the last slash.  So
the names of a path are what stands between its slashes, the empty ones included: `/a//b` is `b`
in a directory with the empty name in `a`, and `mkdir //` makes a directory with the empty name.
Two paths lead to one directory exactly if they have the same names.

## Main definitions

* `nombres` — the names of a path.
* `Ordenada` — a table whose names end in their fields and whose parents are in use.
* `createDirectory_every_path` — every run of calls on absolute paths is a run on a tree.
-/

namespace Threaders.Sac

open Lib

/-! ## The names of a path -/

/-- What stands between the slashes of a path, but for one slash at its end. -/
def nombres (path : Str) : List Str := ((cutSlash path).splitOn slash).tail

section Names
variable {path superPath name as : Str} {m : Mem}

theorem nombres_of_cutSlash (hcut : cutSlash path = as ++ slash :: name) (hname : slash ∉ name) :
    nombres path = (as.splitOn slash).tail ++ [name] := by
  rw [nombres, hcut, List.splitOn_append_cons_self, List.splitOn_eq_singleton hname]
  exact List.tail_append_of_ne_nil (List.splitOn_ne_nil slash as)

theorem nombres_concat_slash (as : Str) : nombres (as ++ [slash]) = (as.splitOn slash).tail := by
  rw [nombres, cutSlash_concat, if_pos rfl]

/-- The names of a path are those of the upper path, and the name. -/
theorem exists_splitPath (h : Absolute path) (hroot : path ≠ [slash]) : ∃ superPath name,
    splitPath path = some (superPath, name) ∧ Absolute superPath ∧
      superPath.length < path.length ∧ nombres path = nombres superPath ++ [name] ∧
      superPath ++ name = cutSlash path := by
  have hlen := two_le_length h hroot
  have habs := absolute_cutSlash h hlen
  obtain ⟨s, hs⟩ := Option.ne_none_iff_exists'.1 habs.strrchr_ne_none
  obtain ⟨as, name, hcut, -, hname⟩ := exists_of_strrchr hs
  have hsplit := splitPath_of_cutSlash hcut hname
  obtain ⟨superPath, name', hsplit', -, hsuper, hwhole⟩ := splitPath_absolute h hlen
  obtain ⟨rfl, rfl⟩ : as ++ [slash] = superPath ∧ name = name' := by simpa [hsplit] using hsplit'
  exact ⟨_, _, hsplit, hsuper, length_of_splitPath hsplit,
    by rw [nombres_of_cutSlash hcut hname, nombres_concat_slash], hwhole⟩

theorem nombres_root : nombres [slash] = [] := nombres_concat_slash []

/-- On an absolute path `determinar_nodo` looks its names up one after another. -/
theorem determinarNodo_eq_resolve (m : Mem) (h : Absolute path) :
    determinarNodo m path = some (resolve m (nombres path)) := by
  induction hlen : path.length using Nat.strongRecOn generalizing path with
  | _ len ih =>
      by_cases hroot : path = [slash]
      · rw [hroot, nombres_root, determinarNodo, if_pos rfl, resolve_nil]
      · obtain ⟨superPath, name, hsplit, habs, hlt, hnames, -⟩ := exists_splitPath h hroot
        rw [determinarNodo_of_splitPath hsplit, ih superPath.length (hlen ▸ hlt) habs rfl,
          Option.map_some, hnames, resolve_concat]

theorem fatherNode_eq_resolve (m : Mem) (h : Absolute path) :
    fatherNode m path = some (toI32 (resolve m (nombres path))) := by
  by_cases hroot : path = [slash]
  · rw [hroot, nombres_root, resolve_nil]
    simp [fatherNode, toI32]
  · rw [fatherNode, if_neg hroot, determinarNodo_eq_resolve m h]
    rfl

/-- A byte of a name is a byte of the path. -/
theorem mem_of_mem_nombres (h : Absolute path) {b : UInt8} (hc : name ∈ nombres path)
    (hb : b ∈ name) : b ∈ path := by
  induction hlen : path.length using Nat.strongRecOn generalizing path with
  | _ len ih =>
      have hroot : path ≠ [slash] := by
        rintro rfl
        rw [nombres_root] at hc
        cases hc
      obtain ⟨superPath, last, -, habs, hlt, hnames, hwhole⟩ := exists_splitPath h hroot
      have hcut : b ∈ cutSlash path := by
        rw [← hwhole]
        rw [hnames, List.mem_append, List.mem_singleton] at hc
        rcases hc with hc | rfl
        · exact List.mem_append_left _ (ih superPath.length (hlen ▸ hlt) habs hc rfl)
        · exact List.mem_append_right _ hb
      rw [cutSlash] at hcut
      split at hcut
      · exact (List.dropLast_sublist _).subset hcut
      · exact hcut

theorem zero_not_mem_nombres (h : Absolute path) (h0 : 0 ∉ path) : ∀ c ∈ nombres path, 0 ∉ c :=
  fun _ hc hb => h0 (mem_of_mem_nombres h hc hb)

end Names

/-! ## Tables in order -/

/-- The names of the entries in use end in their fields, and their parents are the root or in
use. -/
structure Ordenada (m : Mem) : Prop where
  name : ∀ i < sacFileByTable, state m i ≠ 0 → NameTerminated m i
  parent : ∀ i < sacFileByTable, state m i ≠ 0 → ∀ j, parentDirBlock m i = j + 1 →
    j < sacFileByTable ∧ state m j ≠ 0

section Tree
variable {m m' : Mem} {cs ds : List Str} {c d : Str} {n k i j : ℕ}

theorem Ordenada.parent_ne (h : Ordenada m) :
    ∀ i < sacFileByTable, state m i ≠ 0 → parentDirBlock m i ≠ noNode := by
  intro i hi hlive heq
  have hlt := (h.parent i hi hlive (noNode - 1) (by rw [heq]; rfl)).1
  exact absurd hlt (by decide)

theorem Ordenada.resolve_eq (h : Ordenada m) (hcs : ∀ c ∈ cs, 0 ∉ c) :
    resolve m cs = (walk m cs).getD noNode :=
  resolve_eq_walk_of_not_mem h.parent_ne h.name hcs

theorem Ordenada.resolve_ne_iff (h : Ordenada m) (hcs : ∀ c ∈ cs, 0 ∉ c) :
    resolve m cs ≠ noNode ↔ walk m cs ≠ none := by
  rw [h.resolve_eq hcs]
  cases hwalk : walk m cs with
  | none => simp
  | some n => simpa using ((walk_le hwalk).trans_lt (by decide : sacFileByTable < noNode)).ne

theorem walk_concat_eq_some (h : walk m (cs ++ [c]) = some k) : ∃ n i, walk m cs = some n ∧
    i < sacFileByTable ∧ k = i + 1 ∧ IsChild m n c i := by
  rw [walk_concat, Option.bind_eq_some_iff] at h
  obtain ⟨n, hn, hchild⟩ := h
  obtain ⟨i, hi, hk, hnode, -⟩ := child_eq_some_iff.1 hchild
  exact ⟨n, i, hn, hi, hk, hnode⟩

/-- A number is that of one directory: an entry has one parent and one name. -/
theorem walk_injective (h : walk m cs = some n) (h' : walk m ds = some n) : cs = ds := by
  induction cs using List.reverseRecOn generalizing ds n with
  | nil =>
      obtain rfl : 0 = n := by simpa using h
      rcases ds.eq_nil_or_concat' with rfl | ⟨ds, d, rfl⟩
      · rfl
      · obtain ⟨k, i, -, -, hzero, -⟩ := walk_concat_eq_some h'
        cases hzero
  | append_singleton cs c ih =>
      obtain ⟨k, i, hk, -, rfl, -, hparent, hname⟩ := walk_concat_eq_some h
      rcases ds.eq_nil_or_concat' with rfl | ⟨ds, d, rfl⟩
      · cases h'
      · obtain ⟨k', i', hk', -, heq, -, hparent', hname'⟩ := walk_concat_eq_some h'
        obtain rfl : i = i' := Nat.succ.inj heq
        rw [ih hk (hparent.symm.trans hparent' ▸ hk'), ← hname, hname']

/-- The tree of the directories that a path leads to. -/
def arbol (m : Mem) : DirTree Str where
  dirs := {cs | walk m cs ≠ none}
  root_mem := by simp
  parent_mem p c h := by
    intro hnone
    simp [hnone] at h

theorem mem_arbol : cs ∈ (arbol m).dirs ↔ walk m cs ≠ none := Iff.rfl

/-! ## A new entry -/

theorem OnlyEntry.read_name_eq (h : OnlyEntry m m' i) (hij : j ≠ i) :
    m'.read (fileNameAt j) sacFileNameLength = m.read (fileNameAt j) sacFileNameLength :=
  Mem.read_congr fun a ha ha' => by
    unfold fileNameAt sacFileNameLength at *
    exact h.eq_of_entry hij (by omega) (by omega)

/-- A name found by `strcmp` within its field ends in it. -/
theorem nameTerminated_of_strEq (hc : c.length < sacFileNameLength)
    (h : m.strEq (fileNameAt i) c = true) : NameTerminated m i := by
  have hlen : sacFileNameLength = (c.length + 1) + (sacFileNameLength - (c.length + 1)) := by omega
  rw [NameTerminated, hlen, Mem.read_append, Mem.strEq_iff.mp h]
  simp

/-- The children, once an entry is filled for a new directory. -/
theorem isChild_fill (hfree : state m i = 0) (hfills : Fills m m' i c n) (h0 : 0 ∉ c)
    (hc : c.length < sacFileNameLength) :
    IsChild m' k d j ↔ IsChild m k d j ∨ j = i ∧ k = n ∧ d = c := by
  by_cases hij : j = i
  · have hname : fileName m' i = c :=
      (Mem.strEq_iff_takeWhile (nameTerminated_of_strEq hc hfills.name) h0).1 hfills.name
    have hlive : state m' i ≠ 0 := by
      rw [hfills.state]
      decide
    rw [hij, IsChild, IsChild, hfills.parent, hname]
    simp [hfree, hlive, eq_comm]
  · rw [IsChild, IsChild, hfills.only.state_eq hij, hfills.only.parentDirBlock_eq hij, fileName,
      hfills.only.read_name_eq hij, ← fileName]
    simp [hij]

theorem child_fill (hi : i < sacFileByTable) (hfree : state m i = 0) (hfills : Fills m m' i c n)
    (h0 : 0 ∉ c) (hc : c.length < sacFileNameLength) (hnew : child m n c = none) :
    child m' k d = if k = n ∧ d = c then some (i + 1) else child m k d := by
  split
  · next h =>
      obtain ⟨rfl, rfl⟩ := h
      refine child_eq_some_iff.2 ⟨i, hi, rfl, ?_, fun j hj => ?_⟩
      · exact (isChild_fill hfree hfills h0 hc).2 (.inr ⟨rfl, rfl, rfl⟩)
      · rw [isChild_fill hfree hfills h0 hc]
        rintro (hchild | ⟨rfl, -⟩)
        · exact child_eq_none_iff.1 hnew j (hj.trans hi) hchild
        · exact lt_irrefl j hj
  · next h =>
      have hsame : ∀ j, IsChild m' k d j ↔ IsChild m k d j := fun j => by
        rw [isChild_fill hfree hfills h0 hc]
        exact or_iff_left fun hnew => h hnew.2
      simp only [child, hsame]

theorem Ordenada.fill (h : Ordenada m) (hfills : Fills m m' i c n)
    (hc : c.length < sacFileNameLength) (hcs : walk m cs = some n) : Ordenada m' where
  name j hj hlive := by
    by_cases hij : j = i
    · rw [hij]
      exact nameTerminated_of_strEq hc hfills.name
    · rw [hfills.only.state_eq hij] at hlive
      rw [NameTerminated, hfills.only.read_name_eq hij]
      exact h.name j hj hlive
  parent j hj hlive k hk := by
    have hstate : ∀ l, state m l ≠ 0 → state m' l ≠ 0 := fun l hl => by
      by_cases hli : l = i
      · rw [hli, hfills.state]
        decide
      · rwa [hfills.only.state_eq hli]
    by_cases hij : j = i
    · rw [hij, hfills.parent] at hk
      subst hk
      rcases cs.eq_nil_or_concat' with rfl | ⟨cs, d, rfl⟩
      · cases hcs
      · obtain ⟨p, l, -, hl, heq, hnode⟩ := walk_concat_eq_some hcs
        obtain rfl : k = l := Nat.succ.inj heq
        exact ⟨hl, hstate k hnode.1⟩
    · rw [hfills.only.state_eq hij] at hlive
      rw [hfills.only.parentDirBlock_eq hij] at hk
      obtain ⟨hk', hlive'⟩ := h.parent j hj hlive k hk
      exact ⟨hk', hstate k hlive'⟩

/-- A directory is added to the tree, and no other. -/
theorem walk_fill (h : Ordenada m) (hi : i < sacFileByTable) (hfree : state m i = 0)
    (hfills : Fills m m' i c n) (h0 : 0 ∉ c) (hc : c.length < sacFileNameLength)
    (hn : walk m cs = some n) (hnew : child m n c = none) :
    walk m' ds = if ds = cs ++ [c] then some (i + 1) else walk m ds := by
  have hni : i + 1 ≠ n := by
    rintro rfl
    rcases cs.eq_nil_or_concat' with rfl | ⟨cs, d, rfl⟩
    · cases hn
    · obtain ⟨k, j, -, -, heq, hnode⟩ := walk_concat_eq_some hn
      obtain rfl : i = j := Nat.succ.inj heq
      exact hnode.1 hfree
  induction ds using List.reverseRecOn with
  | nil => simp
  | append_singleton ds d ih =>
      rw [walk_concat, ih, walk_concat]
      by_cases hds : ds = cs ++ [c]
      · -- Below the new directory there is nothing.
        have hnone : child m (i + 1) d = none :=
          child_eq_none_iff.2 fun j hj hnode => (h.parent j hj hnode.1 i hnode.2.1).2 hfree
        have hlonger : ds ++ [d] ≠ cs ++ [c] := by simp [hds]
        rw [if_pos hds, if_neg hlonger, hds, walk_concat, hn, Option.bind_some, Option.bind_some,
          child_fill hi hfree hfills h0 hc hnew, if_neg fun heq => hni heq.1, hnone, hnew,
          Option.bind_none]
      · rw [if_neg hds]
        cases hwalk : walk m ds with
        | none =>
            have hother : ds ++ [d] ≠ cs ++ [c] := fun heq => by
              rw [(List.append_inj' heq rfl).1, hn] at hwalk
              cases hwalk
            rw [if_neg hother, Option.bind_none, Option.bind_none]
        | some k =>
            rw [Option.bind_some, Option.bind_some, child_fill hi hfree hfills h0 hc hnew]
            have hpath : k = n ∧ d = c ↔ ds ++ [d] = cs ++ [c] := by
              constructor
              · rintro ⟨rfl, rfl⟩
                rw [walk_injective hwalk hn]
              · intro heq
                obtain ⟨rfl, hlast⟩ := List.append_inj' heq rfl
                rw [hn] at hwalk
                exact ⟨(Option.some.inj hwalk).symm, List.singleton_inj.mp hlast⟩
            simp only [hpath]

theorem arbol_fill (h : Ordenada m) (hi : i < sacFileByTable) (hfree : state m i = 0)
    (hfills : Fills m m' i c n) (h0 : 0 ∉ c) (hc : c.length < sacFileNameLength)
    (hn : walk m cs = some n) (hnew : child m n c = none) (hcs : cs ∈ (arbol m).dirs) :
    arbol m' = (arbol m).insert cs c hcs := by
  ext p
  have hwalk : walk m' p = if p = cs ++ [c] then some (i + 1) else walk m p :=
    walk_fill h hi hfree hfills h0 hc hn hnew
  rw [mem_arbol, hwalk]
  by_cases hp : p = cs ++ [c]
  · rw [if_pos hp]
    exact ⟨fun _ => .inl hp, fun _ => Option.some_ne_none _⟩
  · rw [if_neg hp]
    exact ⟨fun hmem => .inr hmem, fun hmem => hmem.resolve_left hp⟩

end Tree

/-! ## Calls -/

/-- An absolute path whose names are short enough for their fields. -/
structure PathCorto (path : Str) : Prop where
  absolute : Absolute path
  zero_not_mem : 0 ∉ path
  length_lt : ∀ c ∈ nombres path, c.length < sacFileNameLength

section Calls
variable {m m' : Mem} {path : Str}

/-- A call is a request to the tree of the table, at the names of the path. -/
theorem sacCreateDirectory_nombres (h : Ordenada m) (hpath : PathCorto path) : ∃ r m',
    sacCreateDirectory m path = some (errno r, m') ∧ Ordenada m' ∧
      DirTree.Mkdir (Full m) (arbol m) (nombres path) r (arbol m') ∧ (r ≠ .ok → m' = m) := by
  have hzero := zero_not_mem_nombres hpath.absolute hpath.zero_not_mem
  have hnodo := determinarNodo_eq_resolve m hpath.absolute
  by_cases hexist : nombres path ∈ (arbol m).dirs
  · have hne : resolve m (nombres path) ≠ noNode := (h.resolve_ne_iff hzero).2 hexist
    exact ⟨.exist, m, by simp [sacCreateDirectory, hnodo, hne, errno], h, .exist hexist,
      fun _ => rfl⟩
  have hnone : resolve m (nombres path) = noNode :=
    not_ne_iff.mp fun hne => hexist ((h.resolve_ne_iff hzero).1 hne)
  have hroot : path ≠ [slash] := by
    rintro rfl
    exact hexist (nombres_root ▸ (arbol m).root_mem)
  obtain ⟨superPath, name, hsplit, habs, -, hnames, -⟩ := exists_splitPath hpath.absolute hroot
  have hfather := fatherNode_eq_resolve m habs
  have hsuper : ∀ c ∈ nombres superPath, 0 ∉ c := fun c hc =>
    hzero c (hnames ▸ List.mem_append_left _ hc)
  rw [hnames] at hexist ⊢
  have hname : name ∈ nombres path := by simp [hnames]
  cases hwalk : walk m (nombres superPath) with
  | none =>
      have hmissing : resolve m (nombres superPath) = noNode := by
        rw [h.resolve_eq hsuper, hwalk, Option.getD_none]
      have hneg : toI32 (noNode : ℕ) < 0 := by decide
      refine ⟨.noEnt, m, ?_, h, .noEnt fun hmem => hmem hwalk, fun _ => rfl⟩
      simp [sacCreateDirectory, hnodo, hnone, hsplit, hfather, hmissing, hneg, errno]
  | some n =>
      have hn : resolve m (nombres superPath) = n := by
        rw [h.resolve_eq hsuper, hwalk, Option.getD_some]
      have hle : n ≤ sacFileByTable := walk_le hwalk
      have hint : toI32 n = n := by
        unfold sacFileByTable at hle
        exact toI32_of_mem (by omega) (by omega)
      have hpos : ¬(n : ℤ) < 0 := by omega
      have hmem : nombres superPath ∈ (arbol m).dirs := by simp [mem_arbol, hwalk]
      rcases buscarLibre_spec m with ⟨hlt, hfull⟩ | ⟨hge, hlow⟩
      · refine ⟨.dQuot, m, ?_, h, .dQuot hmem hexist hfull, fun _ => rfl⟩
        simp [sacCreateDirectory, hnodo, hnone, hsplit, hfather, hn, hint, hlt, errno]
      · have hlength := hpath.length_lt name hname
        have hfills := fills_escribirNodo m (buscarLibre m - 1) hlength n
        rw [toU32_of_le_table hle] at hfills
        have hnew : child m n name = none := by
          have hwalk' := not_ne_iff.mp hexist
          rwa [walk_concat, hwalk, Option.bind_some] at hwalk'
        refine ⟨.ok, _, ?_, h.fill hfills hlength hwalk, ?_, fun hr => absurd rfl hr⟩
        · have hle' : ¬nodeTableSize < buscarLibre m := by omega
          simp [sacCreateDirectory, hnodo, hnone, hsplit, hfather, hn, hint, hle', errno]
        · rw [arbol_fill h hlow.1 hlow.2.1 hfills (hzero name hname) hlength hwalk hnew hmem]
          exact .ok hmem hexist fun hfull => hfull _ hlow.1 hlow.2.1

/-- A call of `sac_create_directory` on such a path, with its answer. -/
def PathStep (m : Mem) (call : Str × MkdirResult) (m' : Mem) : Prop :=
  PathCorto call.1 ∧ sacCreateDirectory m call.1 = some (errno call.2, m')

theorem PathStep.request (h : Ordenada m) {call : Str × MkdirResult} (hstep : PathStep m call m') :
    Ordenada m' ∧ DirTree.Mkdir (Full m) (arbol m) (nombres call.1) call.2 (arbol m') := by
  obtain ⟨hpath, hcall⟩ := hstep
  obtain ⟨r, m'', hcall', hordenada, hmkdir, -⟩ := sacCreateDirectory_nombres h hpath
  obtain ⟨hr, rfl⟩ : errno r = errno call.2 ∧ m'' = m' := by simpa [hcall] using hcall'.symm
  exact ⟨hordenada, errno_injective hr ▸ hmkdir⟩

/-- A table of free entries is the tree of the root. -/
theorem arbol_root (hfree : ∀ i < sacFileByTable, state m i = 0) :
    Ordenada m ∧ arbol m = .root := by
  refine ⟨⟨fun i hi hlive => absurd (hfree i hi) hlive,
    fun i hi hlive => absurd (hfree i hi) hlive⟩, ?_⟩
  have hchild : ∀ n c, child m n c = none := fun n c =>
    child_eq_none_iff.2 fun i hi hnode => hnode.1 (hfree i hi)
  ext cs
  rw [mem_arbol]
  rcases cs.eq_nil_or_concat' with rfl | ⟨cs, c, rfl⟩
  · simp [DirTree.root]
  · cases hwalk : walk m cs <;> simp [hwalk, hchild, DirTree.root]

/-- Two paths lead to one node exactly if they have the same names. -/
theorem determinarNodo_eq_iff (h : Ordenada m) {path' : Str} (hpath : Absolute path)
    (hpath' : Absolute path') (h0 : 0 ∉ path) (h0' : 0 ∉ path')
    (hmem : nombres path ∈ (arbol m).dirs) :
    determinarNodo m path = determinarNodo m path' ↔ nombres path = nombres path' := by
  rw [determinarNodo_eq_resolve m hpath, determinarNodo_eq_resolve m hpath', Option.some.injEq]
  constructor
  · intro heq
    have hzero := zero_not_mem_nombres hpath h0
    have hzero' := zero_not_mem_nombres hpath' h0'
    have hmem' := (h.resolve_ne_iff hzero').1 (heq ▸ (h.resolve_ne_iff hzero).2 hmem)
    obtain ⟨n, hn⟩ := Option.ne_none_iff_exists'.mp hmem
    obtain ⟨n', hn'⟩ := Option.ne_none_iff_exists'.mp hmem'
    rw [h.resolve_eq hzero, h.resolve_eq hzero', hn, hn', Option.getD_some, Option.getD_some] at heq
    exact walk_injective hn (heq ▸ hn')
  · intro heq
    rw [heq]

end Calls

/-- **Every absolute path.**  From a table of free entries on, every run of `sac_create_directory`
on absolute paths with slashes in any number is a run of requests, at the names of the paths, to a
tree that starts as the root.  At every moment an absolute path of any length leads to a node
exactly if its names are a directory of the tree, two paths lead to one node exactly if they have
the same names, and the next call answers by the tree and by whether the table is full. -/
theorem createDirectory_every_path {m₀ m : Mem} {calls : List (Str × MkdirResult)}
    (hfree : ∀ i < sacFileByTable, state m₀ i = 0) (hrun : Run PathStep m₀ calls m) :
    ∃ t : DirTree Str,
      Run MkdirStep .root (calls.map fun call => (nombres call.1, call.2)) t ∧
      (∀ path, Absolute path → 0 ∉ path → ∃ n, determinarNodo m path = some n ∧
        (n ≠ noNode ↔ nombres path ∈ t.dirs)) ∧
      (∀ path path', Absolute path → Absolute path' → 0 ∉ path → 0 ∉ path' →
        nombres path ∈ t.dirs →
        (determinarNodo m path = determinarNodo m path' ↔ nombres path = nombres path')) ∧
      (∀ path, PathCorto path → ∃ r m' t', sacCreateDirectory m path = some (errno r, m') ∧
        DirTree.Mkdir (Full m) t (nombres path) r t' ∧ (r ≠ .ok → m' = m)) := by
  have hsim : ∀ m call m' t, Ordenada m ∧ arbol m = t → PathStep m call m' →
      ∃ t', MkdirStep t (nombres call.1, call.2) t' ∧ Ordenada m' ∧ arbol m' = t' := by
    rintro m call m' - ⟨hordenada, rfl⟩ hstep
    obtain ⟨hordenada', hmkdir⟩ := hstep.request hordenada
    exact ⟨_, ⟨_, hmkdir⟩, hordenada', rfl⟩
  obtain ⟨t, htree, h, rfl⟩ := hrun.simulation hsim (arbol_root hfree)
  refine ⟨_, htree, fun path hpath h0 => ?_, fun path path' hpath hpath' h0 h0' hmem =>
    determinarNodo_eq_iff h hpath hpath' h0 h0' hmem, fun path hpath => ?_⟩
  · exact ⟨_, determinarNodo_eq_resolve m hpath,
      h.resolve_ne_iff (zero_not_mem_nombres hpath h0)⟩
  · obtain ⟨r, m', hcall, -, hmkdir, herror⟩ := sacCreateDirectory_nombres h hpath
    exact ⟨r, m', _, hcall, hmkdir, herror⟩

/-- On an empty table `mkdir //` makes a directory, and not that of the root; `mkdir //` again
finds it there. -/
theorem createDirectory_every_path_slashes :
    ∃ m', sacCreateDirectory (fun _ => 0) [slash, slash] = some (0, m') ∧
      sacCreateDirectory m' [slash, slash] = some (-EEXIST, m') := by
  have hfree : ∀ i < sacFileByTable, state (fun _ => 0) i = 0 := fun _ _ => rfl
  have hpath : PathCorto [slash, slash] := ⟨rfl, by decide, by decide⟩
  obtain ⟨t, hrun, -, -, hcall⟩ := createDirectory_every_path hfree (.nil _)
  obtain rfl : t = .root := by cases hrun; rfl
  obtain ⟨r, m', t', hres, hmkdir, -⟩ := hcall [slash, slash] hpath
  have hroom : ¬Full fun _ => 0 := fun hfull => hfull 0 (by decide) rfl
  have hnames : nombres [slash, slash] = [[]] := by decide
  obtain rfl : r = .ok := by
    rw [hmkdir.result_iff.2.2.2, hnames]
    exact ⟨by simp [DirTree.root], rfl, hroom⟩
  have hstep : PathStep (fun _ => 0) ([slash, slash], .ok) m' := ⟨hpath, hres⟩
  obtain ⟨t, hrun', -, -, hcall'⟩ := createDirectory_every_path hfree (.single hstep)
  obtain ⟨t', ⟨full, hmade⟩, hnil⟩ := Run.cons_iff.mp hrun'
  obtain rfl := Run.nil_iff.mp hnil
  obtain ⟨r, m'', t'', hres', hmkdir', herror⟩ := hcall' [slash, slash] hpath
  obtain rfl : r = .exist := hmkdir'.result_iff.1.mpr hmade.mem_of_ok
  obtain rfl := herror (by decide)
  exact ⟨m'', hres, hres'⟩

end Threaders.Sac
