import Threaders.Lib.DirTree
import Threaders.Lib.Run
import Threaders.Sac.PathResolution

/-!
# Creating directories refines `mkdir` on a tree

An entry of the table stands for the path its parent chain spells out.  `Tabulates m
paths` says which path each entry in use stands for: its name is the last component and
its parent the number of the rest, and no path is held twice.  From this a lookup finds a
path exactly if some entry stands for it, and `sac_create_directory` is a step of the
tree of these paths.

## Main definitions

* `Numbered`, `Tabulates` — the path an entry stands for.
* `Tabulates.tree` — the tree a table represents.
* `createDirectory_refines_mkdir` — every run of calls is a run on the tree.
-/

namespace Threaders.Sac

open Lib

/-! ## Scans of the table -/

section Scans
variable {m : Mem} {a i : ℕ} {c : Str}

theorem buscarNodo_of_unique (hi : i < sacFileByTable) (hnode : isNode m a c i = true)
    (hunique : ∀ j < sacFileByTable, isNode m a c j = true → j = i) : buscarNodo m a c = i + 1 := by
  have hfirst : firstIndex (isNode m a c) sacFileByTable 0 = i := by
    refine firstIndex_eq_of (Nat.zero_le i) (by omega) hnode fun k _ hk => ?_
    by_contra hne
    have heq := hunique k (by omega) (by simpa using hne)
    omega
  rw [buscarNodo, hfirst, if_neg (by omega)]

theorem buscarNodo_of_none (hnone : ∀ j < sacFileByTable, isNode m a c j = false) :
    buscarNodo m a c = noNode := by
  have hfirst : firstIndex (isNode m a c) sacFileByTable 0 = 0 + sacFileByTable :=
    firstIndex_eq_add_iff.mpr fun j _ hj => hnone j (by omega)
  rw [buscarNodo, hfirst, if_pos (by omega)]

/-- A scan that finds nothing has passed every entry. -/
theorem isNode_of_noNode (h : buscarNodo m a c = noNode) {j : ℕ} (hj : j < sacFileByTable) :
    isNode m a c j = false := by
  by_contra hnode
  have hle : firstIndex (isNode m a c) sacFileByTable 0 ≤ j := by
    by_contra hlt
    exact hnode (not_of_lt_firstIndex (Nat.zero_le j) (not_le.1 hlt))
  have hnumber : firstIndex (isNode m a c) sacFileByTable 0 + 1 < noNode :=
    (Nat.succ_le_of_lt (hle.trans_lt hj)).trans_lt (by decide)
  rw [buscarNodo, if_neg (not_le.2 (hle.trans_lt hj))] at h
  exact hnumber.ne h

/-- Every entry of the table is in use. -/
def Full (m : Mem) : Prop := ∀ i < sacFileByTable, state m i ≠ 0

/-- The entry is the first that is free. -/
def LowestFree (m : Mem) (i : ℕ) : Prop :=
  i < sacFileByTable ∧ state m i = 0 ∧ ∀ j < i, state m j ≠ 0

/-- The free-slot loop ends past the table exactly if it is full, and else one above the
first free entry or, when that is entry 0, at 0. -/
theorem buscarLibre_spec (m : Mem) :
    (nodeTableSize < buscarLibre m ∧ Full m) ∨
    (buscarLibre m ≤ nodeTableSize ∧ LowestFree m (buscarLibre m - 1)) := by
  have hle : buscarLibre m ≤ 0 + (nodeTableSize + 1) := firstIndex_le
  have hpassed : ∀ j < buscarLibre m, state m (j - 1) ≠ 0 := fun j hj =>
    of_decide_eq_false (not_of_lt_firstIndex (Nat.zero_le j) hj)
  rcases lt_or_ge nodeTableSize (buscarLibre m) with hlt | hge
  · unfold nodeTableSize at hlt
    refine .inl ⟨hlt, fun i hi => hpassed (i + 1) ?_⟩
    unfold sacFileByTable at hi
    omega
  · have hfree : state m (buscarLibre m - 1) = 0 :=
      of_decide_eq_true (firstIndex_spec (show buscarLibre m < 0 + (nodeTableSize + 1) by omega))
    refine .inr ⟨hge, ?_, hfree, fun j hj => hpassed (j + 1) (by omega)⟩
    unfold nodeTableSize at hge
    unfold sacFileByTable
    omega

end Scans

/-! ## Writing one entry -/

/-- Nothing but the entry `i` differs. -/
def OnlyEntry (m m' : Mem) (i : ℕ) : Prop :=
  ∀ a, a < nodeAt i ∨ nodeAt i + 4096 ≤ a → m' a = m a

namespace OnlyEntry

variable {m m' : Mem} {i j : ℕ}

theorem eq_of_entry (h : OnlyEntry m m' i) (hij : j ≠ i) {a : ℤ} (ha : nodeAt j ≤ a)
    (ha' : a < nodeAt j + 4096) : m' a = m a := by
  unfold nodeAt at ha ha'
  refine h a ?_
  unfold nodeAt
  omega

theorem state_eq (h : OnlyEntry m m' i) (hij : j ≠ i) : state m' j = state m j :=
  h.eq_of_entry hij le_rfl (by omega)

theorem parentDirBlock_eq (h : OnlyEntry m m' i) (hij : j ≠ i) :
    parentDirBlock m' j = parentDirBlock m j :=
  Mem.readLe_congr fun a ha ha' =>
    h.eq_of_entry hij (by unfold parentDirBlockAt at ha; omega)
      (by unfold parentDirBlockAt at ha'; omega)

theorem strEq_eq (h : OnlyEntry m m' i) (hij : j ≠ i) {c : Str} (hc : c.length < sacFileNameLength) :
    m'.strEq (fileNameAt j) c = m.strEq (fileNameAt j) c := by
  unfold sacFileNameLength at hc
  exact Mem.strEq_congr fun a ha ha' =>
    h.eq_of_entry hij (by unfold fileNameAt at ha; omega) (by unfold fileNameAt at ha'; omega)

end OnlyEntry

section Write
variable (m : Mem) (i : ℕ) {c : Str} (father : ℤ)

/-- The four fields are written, and what the name takes behind its own. -/
theorem escribirNodo_frame {a : ℤ}
    (ha : a < nodeAt i ∨ nodeAt i + 80 ≤ a ∧ nodeAt i + 2 + c.length ≤ a) :
    escribirNodo m i c father a = m a := by
  unfold escribirNodo
  rw [Mem.writeLe_of_not_mem, Mem.writeLe_of_not_mem, Mem.write_of_not_mem, Mem.write_of_not_mem]
  all_goals simp only [fileNameAt, fileSizeAt, parentDirBlockAt, List.length_append,
    List.length_singleton] at *
  all_goals omega

theorem onlyEntry_escribirNodo (hc : c.length < sacFileNameLength) :
    OnlyEntry m (escribirNodo m i c father) i := by
  unfold sacFileNameLength at hc
  intro a ha
  exact escribirNodo_frame m i father (by omega)

theorem state_escribirNodo : state (escribirNodo m i c father) i = directoryT := by
  unfold escribirNodo state
  rw [Mem.writeLe_of_not_mem, Mem.writeLe_of_not_mem, Mem.write_of_not_mem]
  · simp [Mem.write]
  all_goals simp only [fileNameAt, fileSizeAt, parentDirBlockAt]
  all_goals omega

theorem strEq_escribirNodo (hc : c.length < sacFileNameLength) :
    (escribirNodo m i c father).strEq (fileNameAt i) c = true := by
  unfold sacFileNameLength at hc
  rw [← Mem.strEq_write (m := m.write (nodeAt i) [directoryT]) (a := fileNameAt i) (s := c)]
  refine Mem.strEq_congr fun a ha ha' => ?_
  unfold escribirNodo
  rw [Mem.writeLe_of_not_mem, Mem.writeLe_of_not_mem]
  all_goals simp only [fileNameAt, fileSizeAt, parentDirBlockAt] at *
  all_goals omega

theorem parentDirBlock_escribirNodo :
    parentDirBlock (escribirNodo m i c father) i = (toU32 father).toNat := by
  have hlt : (toU32 father).toNat < 256 ^ 4 := by
    obtain ⟨h0, h1⟩ := toU32_mem father
    omega
  unfold escribirNodo parentDirBlock
  rw [Mem.readLe_writeLe_self, Nat.mod_eq_of_lt hlt]

end Write

/-! ## The paths the entries stand for -/

/-- The directory with the given components has the number: 0 for the root, and one more
than the index of the entry that stands for it. -/
def Numbered (paths : ℕ → Option (List Str)) (cs : List Str) (n : ℕ) : Prop :=
  (cs = [] ∧ n = 0) ∨ ∃ j < sacFileByTable, paths j = some cs ∧ n = j + 1

namespace Numbered

variable {paths : ℕ → Option (List Str)} {cs cs' : List Str} {n : ℕ}

/-- A number belongs to one directory. -/
theorem path_unique (hn : Numbered paths cs n)
    (hn' : Numbered paths cs' n) : cs = cs' := by
  rcases hn with ⟨rfl, rfl⟩ | ⟨j, hj, hpath, rfl⟩ <;>
    rcases hn' with ⟨rfl, hn⟩ | ⟨k, hk, hpath', hn⟩
  · rfl
  · omega
  · omega
  · obtain rfl : j = k := by omega
    simpa [hpath] using hpath'

theorem le (hn : Numbered paths cs n) : n ≤ sacFileByTable := by
  rcases hn with ⟨-, rfl⟩ | ⟨j, hj, -, rfl⟩
  · exact Nat.zero_le _
  · omega

theorem lt_noNode (hn : Numbered paths cs n) : n < noNode :=
  hn.le.trans_lt (by decide)

end Numbered

/-- A component short enough for its field. -/
structure ShortComponent (c : Str) : Prop extends Component c where
  length_lt : c.length < sacFileNameLength

/-- Each entry in use is a directory that stands for a path, and no two for the same. -/
structure Tabulates (m : Mem) (paths : ℕ → Option (List Str)) : Prop where
  free : ∀ i < sacFileByTable, paths i = none → state m i = 0
  used : ∀ i < sacFileByTable, ∀ p, paths i = some p → state m i = directoryT
  entry : ∀ i < sacFileByTable, ∀ p, paths i = some p → ∃ cs c, p = cs ++ [c] ∧
    (∀ d ∈ p, ShortComponent d) ∧ m.strEq (fileNameAt i) c = true ∧
    Numbered paths cs (parentDirBlock m i)
  inj : ∀ i < sacFileByTable, ∀ j < sacFileByTable, ∀ p,
    paths i = some p → paths j = some p → i = j

namespace Tabulates

variable {m : Mem} {paths : ℕ → Option (List Str)} {cs cs' : List Str} {c : Str} {n n' i : ℕ}

theorem path_ne_nil (h : Tabulates m paths) (hi : i < sacFileByTable) : paths i ≠ some [] := by
  intro hnil
  obtain ⟨cs, c, hp, -⟩ := h.entry i hi [] hnil
  simp at hp

theorem numbered_nil (h : Tabulates m paths) : Numbered paths [] n ↔ n = 0 := by
  refine ⟨?_, fun hn => .inl ⟨rfl, hn⟩⟩
  rintro (⟨-, hn⟩ | ⟨j, hj, hpath, -⟩)
  · exact hn
  · exact absurd hpath (h.path_ne_nil hj)

/-- A directory has one number. -/
theorem numbered_unique (h : Tabulates m paths) (hn : Numbered paths cs n)
    (hn' : Numbered paths cs n') : n = n' := by
  rcases hn with ⟨rfl, rfl⟩ | ⟨j, hj, hpath, rfl⟩
  · exact (h.numbered_nil.mp hn').symm
  · rcases hn' with ⟨rfl, rfl⟩ | ⟨k, hk, hpath', rfl⟩
    · exact absurd hpath (h.path_ne_nil hj)
    · rw [h.inj j hj k hk cs hpath hpath']

/-- A scan looks for the entry that stands for a directory below the given node. -/
theorem isNode_iff (h : Tabulates m paths) (hi : i < sacFileByTable) (hc : Component c) :
    isNode m n c i = true ↔ ∃ cs, paths i = some (cs ++ [c]) ∧ Numbered paths cs n := by
  have hnode : isNode m n c i = true ↔
      parentDirBlock m i = n ∧ m.strEq (fileNameAt i) c = true ∧ state m i ≠ 0 := by
    simp [isNode, and_assoc]
  rw [hnode]
  constructor
  · rintro ⟨rfl, hname, hstate⟩
    obtain ⟨p, hp⟩ := Option.ne_none_iff_exists'.mp fun hnone => hstate (h.free i hi hnone)
    obtain ⟨cs, d, rfl, hcomp, hd, hparent⟩ := h.entry i hi p hp
    have hd0 : 0 ∉ d := (hcomp d (by simp)).zero_not_mem
    obtain rfl := Mem.strEq_unique hc.zero_not_mem hd0 hname hd
    exact ⟨cs, hp, hparent⟩
  · rintro ⟨cs, hp, hn⟩
    obtain ⟨cs', d, hpath, -, hd, hparent⟩ := h.entry i hi _ hp
    obtain ⟨rfl, heq⟩ := List.append_inj' hpath rfl
    obtain rfl : c = d := by simpa using heq
    exact ⟨h.numbered_unique hparent hn, hd, by rw [h.used i hi _ hp]; decide⟩

/-- A path leads to the number of its directory, and nowhere if there is none. -/
theorem resolve_spec (h : Tabulates m paths) (hcs : ∀ c ∈ cs, Component c) :
    Numbered paths cs (resolve m cs) ∨
      (∀ n, ¬Numbered paths cs n) ∧ resolve m cs = noNode := by
  induction cs using List.reverseRecOn with
  | nil => exact .inl (.inl ⟨rfl, rfl⟩)
  | append_singleton cs c ih =>
      have hc : Component c := hcs c (by simp)
      have hih := ih fun d hd => hcs d (List.mem_append_left [c] hd)
      rw [resolve_concat]
      by_cases hpath : ∃ i < sacFileByTable, paths i = some (cs ++ [c])
      · obtain ⟨i, hi, hp⟩ := hpath
        obtain ⟨cs', d, heq, -, -, hparent⟩ := h.entry i hi _ hp
        obtain ⟨rfl, -⟩ := List.append_inj' heq rfl
        -- the rest of the path is a directory, so its lookup gave its number
        have hn : Numbered paths cs (resolve m cs) := by
          rcases hih with hn | ⟨hnone, -⟩
          · exact hn
          · exact absurd hparent (hnone _)
        have hbuscar : buscarNodo m (resolve m cs) c = i + 1 := by
          refine buscarNodo_of_unique hi ((h.isNode_iff hi hc).mpr ⟨cs, hp, hn⟩) fun j hj hnode => ?_
          obtain ⟨cs', hp', hn'⟩ := (h.isNode_iff hj hc).mp hnode
          obtain rfl := hn.path_unique hn'
          exact h.inj j hj i hi _ hp' hp
        exact .inl (.inr ⟨i, hi, hp, hbuscar⟩)
      · have hnone : ∀ n, ¬Numbered paths (cs ++ [c]) n := by
          rintro n (⟨hnil, -⟩ | ⟨j, hj, hp, -⟩)
          · simp at hnil
          · exact hpath ⟨j, hj, hp⟩
        refine .inr ⟨hnone, buscarNodo_of_none fun j hj => ?_⟩
        by_contra hnode
        obtain ⟨cs', hp, hn⟩ := (h.isNode_iff hj hc).mp (by simpa using hnode)
        rcases hih with hn' | ⟨-, heq⟩
        · obtain rfl := hn.path_unique hn'
          exact hpath ⟨j, hj, hp⟩
        · exact absurd hn.lt_noNode (by omega)

/-- The tree of the paths that entries stand for. -/
def tree (h : Tabulates m paths) : DirTree Str where
  dirs := {cs | ∃ n, Numbered paths cs n}
  root_mem := ⟨0, .inl ⟨rfl, rfl⟩⟩
  parent_mem := by
    rintro p c ⟨n, ⟨hnil, -⟩ | ⟨j, hj, hp, -⟩⟩
    · simp at hnil
    · obtain ⟨cs, d, heq, -, -, hparent⟩ := h.entry j hj _ hp
      obtain ⟨rfl, -⟩ := List.append_inj' heq rfl
      exact ⟨_, hparent⟩

theorem mem_tree (h : Tabulates m paths) : cs ∈ h.tree.dirs ↔ ∃ n, Numbered paths cs n := Iff.rfl

theorem resolve_eq_noNode_iff (h : Tabulates m paths) (hcs : ∀ c ∈ cs, Component c) :
    resolve m cs = noNode ↔ cs ∉ h.tree.dirs := by
  rw [mem_tree, not_exists]
  rcases h.resolve_spec hcs with hn | ⟨hnone, heq⟩
  · exact ⟨fun heq => absurd hn.lt_noNode (by omega), fun hnone => absurd hn (hnone _)⟩
  · exact ⟨fun _ => hnone, fun _ => heq⟩

end Tabulates

/-! ## One call -/

/-- The entry is written for a directory and nothing else changes. -/
structure Fills (m m' : Mem) (i : ℕ) (c : Str) (father : ℕ) : Prop where
  only : OnlyEntry m m' i
  state : state m' i = directoryT
  name : m'.strEq (fileNameAt i) c = true
  parent : parentDirBlock m' i = father

theorem fills_escribirNodo (m : Mem) (i : ℕ) {c : Str} (hc : c.length < sacFileNameLength)
    (father : ℤ) : Fills m (escribirNodo m i c father) i c (toU32 father).toNat :=
  ⟨onlyEntry_escribirNodo m i father hc, state_escribirNodo m i father,
    strEq_escribirNodo m i father hc, parentDirBlock_escribirNodo m i father⟩

namespace Tabulates

variable {m m' : Mem} {paths : ℕ → Option (List Str)} {cs p : List Str} {c : Str} {n i : ℕ}

theorem path_eq_none (h : Tabulates m paths) (hi : i < sacFileByTable) (hfree : state m i = 0) :
    paths i = none := by
  by_contra hne
  obtain ⟨p, hp⟩ := Option.ne_none_iff_exists'.mp hne
  rw [h.used i hi p hp] at hfree
  exact absurd hfree (by decide)

/-- Giving a free entry a path numbers that path and changes no other number. -/
theorem numbered_update (h : Tabulates m paths) (hi : i < sacFileByTable) (hfree : state m i = 0)
    (hp : p ≠ []) : Numbered (Function.update paths i (some p)) cs n ↔
      Numbered paths cs n ∨ cs = p ∧ n = i + 1 := by
  have hnone := h.path_eq_none hi hfree
  constructor
  · rintro (hroot | ⟨j, hj, hpath, rfl⟩)
    · exact .inl (.inl hroot)
    · rcases eq_or_ne j i with rfl | hne
      · exact .inr ⟨by simpa using hpath.symm, rfl⟩
      · exact .inl (.inr ⟨j, hj, by simpa [hne] using hpath, rfl⟩)
  · rintro ((hroot | ⟨j, hj, hpath, rfl⟩) | ⟨rfl, rfl⟩)
    · exact .inl hroot
    · have hne : j ≠ i := by
        rintro rfl
        simp [hnone] at hpath
      exact .inr ⟨j, hj, by simpa [hne] using hpath, rfl⟩
    · exact .inr ⟨i, hi, by simp, rfl⟩

/-- A free entry filled for a new directory stands for it. -/
theorem fill (h : Tabulates m paths) (hi : i < sacFileByTable) (hfree : state m i = 0)
    (hfills : Fills m m' i c n) (hn : Numbered paths cs n)
    (hcs : ∀ d ∈ cs ++ [c], ShortComponent d) (hnew : cs ++ [c] ∉ h.tree.dirs) :
    Tabulates m' (Function.update paths i (some (cs ++ [c]))) := by
  have hnumbered : ∀ {cs' n'}, Numbered paths cs' n' →
      Numbered (Function.update paths i (some (cs ++ [c]))) cs' n' :=
    fun hn' => (h.numbered_update hi hfree (by simp)).mpr (.inl hn')
  have hfresh : ∀ j < sacFileByTable, paths j ≠ some (cs ++ [c]) :=
    fun j hj hp => hnew ⟨_, .inr ⟨j, hj, hp, rfl⟩⟩
  refine ⟨fun j hj hp => ?_, fun j hj p hp => ?_, fun j hj p hp => ?_,
    fun j hj k hk p hp hp' => ?_⟩
  · rcases eq_or_ne j i with rfl | hne
    · simp at hp
    · rw [hfills.only.state_eq hne]
      exact h.free j hj (by simpa [hne] using hp)
  · rcases eq_or_ne j i with rfl | hne
    · exact hfills.state
    · rw [hfills.only.state_eq hne]
      exact h.used j hj p (by simpa [hne] using hp)
  · rcases eq_or_ne j i with rfl | hne
    · obtain rfl : cs ++ [c] = p := by simpa using hp
      exact ⟨cs, c, rfl, hcs, hfills.name, hfills.parent ▸ hnumbered hn⟩
    · obtain ⟨cs', d, rfl, hcomp, hd, hparent⟩ := h.entry j hj p (by simpa [hne] using hp)
      have hdlen := (hcomp d (by simp)).length_lt
      refine ⟨cs', d, rfl, hcomp, (hfills.only.strEq_eq hne hdlen).trans hd, ?_⟩
      rw [hfills.only.parentDirBlock_eq hne]
      exact hnumbered hparent
  · rcases eq_or_ne j i with hji | hji <;> rcases eq_or_ne k i with hki | hki
    · exact hji.trans hki.symm
    · obtain rfl : cs ++ [c] = p := by simpa [hji] using hp
      exact absurd (by simpa [hki] using hp') (hfresh k hk)
    · obtain rfl : cs ++ [c] = p := by simpa [hki] using hp'
      exact absurd (by simpa [hji] using hp) (hfresh j hj)
    · exact h.inj j hj k hk p (by simpa [hji] using hp) (by simpa [hki] using hp')

theorem tree_fill (h : Tabulates m paths) (hi : i < sacFileByTable) (hfree : state m i = 0)
    (hcs : cs ∈ h.tree.dirs) (h' : Tabulates m' (Function.update paths i (some (cs ++ [c])))) :
    h'.tree = h.tree.insert cs c hcs := by
  ext p
  rw [mem_tree]
  simp only [h.numbered_update hi hfree (by simp : cs ++ [c] ≠ [])]
  constructor
  · rintro ⟨n, hn | ⟨rfl, -⟩⟩
    · exact .inr ⟨n, hn⟩
    · exact .inl rfl
  · rintro (rfl | ⟨n, hn⟩)
    · exact ⟨i + 1, .inr ⟨rfl, rfl⟩⟩
    · exact ⟨n, .inl hn⟩

end Tabulates

/-- The number `sac_create_directory` finds for the upper path. -/
theorem fatherNode_absPath (m : Mem) {cs : List Str} (hcs : ∀ c ∈ cs, Component c) :
    fatherNode m (absPath cs true) = some (toI32 (resolve m cs)) := by
  rcases cs.eq_nil_or_concat' with rfl | ⟨cs, c, rfl⟩
  · simp [fatherNode, toI32]
  · rw [fatherNode, if_neg (absPath_concat_ne (hcs c (by simp))), determinarNodo_absPath m hcs]
    rfl

/-- The value `sac_create_directory` returns. -/
def errno : MkdirResult → ℤ
  | .ok => 0
  | .exist => -EEXIST
  | .noEnt => -ENOENT
  | .dQuot => -EDQUOT

/-- A call on a table is a request to the tree it represents: an error changes no byte,
and a success fills the first free entry. -/
theorem sacCreateDirectory_spec {m : Mem} {paths : ℕ → Option (List Str)} (h : Tabulates m paths)
    {cs : List Str} (hcs : ∀ c ∈ cs, ShortComponent c) (trailing : Bool) :
    ∃ r m' paths', ∃ h' : Tabulates m' paths',
      sacCreateDirectory m (absPath cs trailing) = some (errno r, m') ∧
      DirTree.Mkdir (Full m) h.tree cs r h'.tree ∧ (r ≠ .ok → m' = m) ∧
      (r = .ok → ∃ i c, LowestFree m i ∧ Fills m m' i c (resolve m cs.dropLast) ∧
        cs.getLast? = some c) := by
  have hcomp : ∀ c ∈ cs, Component c := fun c hc => (hcs c hc).toComponent
  have hnodo := determinarNodo_absPath m hcomp trailing
  by_cases hexist : cs ∈ h.tree.dirs
  · have hne : resolve m cs ≠ noNode := fun heq => (h.resolve_eq_noNode_iff hcomp).mp heq hexist
    exact ⟨.exist, m, paths, h, by simp [sacCreateDirectory, hnodo, hne, errno], .exist hexist,
      fun _ => rfl, nofun⟩
  have hnone : resolve m cs = noNode := (h.resolve_eq_noNode_iff hcomp).mpr hexist
  rcases cs.eq_nil_or_concat' with rfl | ⟨cs, c, rfl⟩
  · exact absurd h.tree.root_mem hexist
  have hparent : ∀ d ∈ cs, Component d := fun d hd => hcomp d (List.mem_append_left [c] hd)
  have hsplit := splitPath_absPath cs trailing (hcomp c (by simp))
  have hfather := fatherNode_absPath m hparent
  rcases h.resolve_spec hparent with hn | ⟨hmissing, hmissing'⟩
  · have hle : resolve m cs ≤ sacFileByTable := hn.le
    have hint : toI32 (resolve m cs) = resolve m cs := by
      unfold sacFileByTable at hle
      exact toI32_of_mem (by omega) (by omega)
    have hpos : ¬(resolve m cs : ℤ) < 0 := by omega
    rcases buscarLibre_spec m with ⟨hlt, hfull⟩ | ⟨hge, hlow⟩
    · exact ⟨.dQuot, m, paths, h,
        by simp [sacCreateDirectory, hnodo, hnone, hsplit, hfather, hint, hlt, errno],
        .dQuot ⟨_, hn⟩ hexist hfull, fun _ => rfl, nofun⟩
    · have hfills : Fills m (escribirNodo m (buscarLibre m - 1) c (resolve m cs))
          (buscarLibre m - 1) c (resolve m cs) := by
        have hfills := fills_escribirNodo m (buscarLibre m - 1) (hcs c (by simp)).length_lt
          (resolve m cs)
        rwa [toU32_of_le_table hle] at hfills
      have h' := h.fill hlow.1 hlow.2.1 hfills hn hcs hexist
      refine ⟨.ok, _, _, h', ?_, ?_, fun hr => absurd rfl hr, fun _ => ⟨_, c, hlow, ?_, by simp⟩⟩
      · have hle' : ¬nodeTableSize < buscarLibre m := by omega
        simp [sacCreateDirectory, hnodo, hnone, hsplit, hfather, hint, hle', errno]
      · have hmem : cs ∈ h.tree.dirs := ⟨_, hn⟩
        rw [h.tree_fill hlow.1 hlow.2.1 hmem h']
        exact .ok hmem hexist fun hfull => hfull _ hlow.1 hlow.2.1
      · simpa using hfills
  · have hneg : toI32 (noNode : ℕ) < 0 := by decide
    exact ⟨.noEnt, m, paths, h,
      by simp [sacCreateDirectory, hnodo, hnone, hsplit, hfather, hmissing', hneg, errno],
      .noEnt fun hmem => hmem.elim hmissing, fun _ => rfl, nofun⟩

/-! ## Runs of calls -/

/-- One call of `sac_create_directory`, with the components of its path and the answer. -/
def CallStep (m : Mem) (call : List Str × MkdirResult) (m' : Mem) : Prop :=
  (∀ c ∈ call.1, ShortComponent c) ∧
  ∃ trailing, sacCreateDirectory m (absPath call.1 trailing) = some (errno call.2, m')

/-- The same request made to a tree, which may or may not have room. -/
def MkdirStep (t : DirTree Str) (call : List Str × MkdirResult) (t' : DirTree Str) : Prop :=
  ∃ full, DirTree.Mkdir full t call.1 call.2 t'

/-- The table stands for the paths of the tree. -/
def Represents (m : Mem) (t : DirTree Str) : Prop :=
  ∃ paths, ∃ h : Tabulates m paths, h.tree = t

theorem errno_injective : Function.Injective errno := by
  intro r r' h
  cases r <;> cases r' <;> first | rfl | cases h

theorem Represents.step {m m' : Mem} {t : DirTree Str} {call : List Str × MkdirResult}
    (h : Represents m t) (hstep : CallStep m call m') :
    ∃ t', MkdirStep t call t' ∧ Represents m' t' := by
  obtain ⟨cs, r⟩ := call
  obtain ⟨paths, h, rfl⟩ := h
  obtain ⟨hcs, trailing, hcall⟩ := hstep
  obtain ⟨r', m'', paths', h', hcall', hmkdir, -⟩ := sacCreateDirectory_spec h hcs trailing
  obtain ⟨hr, rfl⟩ : errno r = errno r' ∧ m' = m'' := by simpa [hcall] using hcall'
  obtain rfl := errno_injective hr
  exact ⟨h'.tree, ⟨_, hmkdir⟩, paths', h', rfl⟩

/-- A table of free entries represents the root alone. -/
theorem represents_root {m : Mem} (hfree : ∀ i < sacFileByTable, state m i = 0) :
    Represents m .root := by
  have h : Tabulates m fun _ => none := ⟨fun i hi _ => hfree i hi, nofun, nofun, nofun⟩
  refine ⟨_, h, ?_⟩
  ext cs
  simp [h.mem_tree, Numbered, DirTree.root]

/-! ## What the entries of a reachable table look like -/

/-- The parent chain of a node number ends at the root and passes live directories. -/
inductive ReachesRoot (m : Mem) : ℕ → Prop
  | root : ReachesRoot m 0
  | entry {i : ℕ} (hi : i < sacFileByTable) (hstate : state m i = directoryT)
      (hparent : ReachesRoot m (parentDirBlock m i)) : ReachesRoot m (i + 1)

/-- The name an entry is found by is the one in its field. -/
theorem fileName_of_strEq {m : Mem} {i : ℕ} {c : Str} (hc : ShortComponent c)
    (h : m.strEq (fileNameAt i) c = true) : fileName m i = c := by
  have hlen : sacFileNameLength = (c.length + 1) + (sacFileNameLength - (c.length + 1)) := by
    have hlt := hc.length_lt
    omega
  have hc0 : ∀ b ∈ c, decide (b ≠ 0) = true := fun b hb => by
    have hne : b ≠ 0 := fun heq => hc.zero_not_mem (heq ▸ hb)
    simpa using hne
  rw [fileName, hlen, Mem.read_append, Mem.strEq_iff.mp h, List.append_assoc,
    List.takeWhile_append_of_pos hc0]
  simp

namespace Tabulates

variable {m : Mem} {paths : ℕ → Option (List Str)} {cs : List Str} {i j n : ℕ}

theorem exists_path (h : Tabulates m paths) (hi : i < sacFileByTable) (hlive : state m i ≠ 0) :
    ∃ cs c, paths i = some (cs ++ [c]) ∧ fileName m i = c ∧ Numbered paths cs (parentDirBlock m i) := by
  obtain ⟨p, hp⟩ := Option.ne_none_iff_exists'.mp fun hnone => hlive (h.free i hi hnone)
  obtain ⟨cs, c, rfl, hcomp, hname, hparent⟩ := h.entry i hi p hp
  exact ⟨cs, c, hp, fileName_of_strEq (hcomp c (by simp)) hname, hparent⟩

theorem short_of_mem (h : Tabulates m paths) (hmem : cs ∈ h.tree.dirs) :
    ∀ c ∈ cs, ShortComponent c := by
  obtain ⟨n, ⟨rfl, -⟩ | ⟨j, hj, hp, -⟩⟩ := hmem
  · nofun
  · obtain ⟨cs', d, -, hcomp, -⟩ := h.entry j hj _ hp
    exact hcomp

theorem reachesRoot (h : Tabulates m paths) (hn : Numbered paths cs n) : ReachesRoot m n := by
  induction cs using List.reverseRecOn generalizing n with
  | nil =>
      rw [h.numbered_nil.mp hn]
      exact .root
  | append_singleton cs c ih =>
      rcases hn with ⟨hnil, -⟩ | ⟨j, hj, hp, rfl⟩
      · simp at hnil
      · obtain ⟨cs', d, heq, -, -, hparent⟩ := h.entry j hj _ hp
        obtain ⟨rfl, -⟩ := List.append_inj' heq rfl
        exact .entry hj (h.used j hj _ hp) (ih hparent)

/-- No two live entries agree in parent and name. -/
theorem entry_unique (h : Tabulates m paths) (hi : i < sacFileByTable) (hj : j < sacFileByTable)
    (hi' : state m i ≠ 0) (hj' : state m j ≠ 0) (hparent : parentDirBlock m i = parentDirBlock m j)
    (hname : fileName m i = fileName m j) : i = j := by
  obtain ⟨cs, c, hp, rfl, hn⟩ := h.exists_path hi hi'
  obtain ⟨cs', c', hp', rfl, hn'⟩ := h.exists_path hj hj'
  obtain rfl := (hparent ▸ hn).path_unique hn'
  exact h.inj i hi j hj _ hp (hname ▸ hp')

/-- A live entry hangs below the root or below another live directory, and from there the
parent chain reaches the root. -/
theorem parent_spec (h : Tabulates m paths) (hi : i < sacFileByTable) (hlive : state m i ≠ 0) :
    state m i = directoryT ∧ ReachesRoot m (parentDirBlock m i) ∧ parentDirBlock m i ≠ i + 1 := by
  obtain ⟨cs, c, hp, -, hn⟩ := h.exists_path hi hlive
  refine ⟨h.used i hi _ hp, h.reachesRoot hn, fun heq => ?_⟩
  have hpath : cs = cs ++ [c] := (heq ▸ hn).path_unique (.inr ⟨i, hi, hp, rfl⟩)
  simp at hpath

end Tabulates

/-- From a table of free entries on, every run of calls is a run of requests to a tree that
starts as the root: a lookup finds a path exactly if it is a directory of the tree, a call
answers by the tree and by whether the table is full, changes no byte unless it answers 0,
and then fills the first free entry.  No two live entries have the same parent and name,
and the parent chain of every live entry reaches the root through live directories. -/
theorem createDirectory_refines_mkdir {m₀ m : Mem} {calls : List (List Str × MkdirResult)}
    (hfree : ∀ i < sacFileByTable, state m₀ i = 0) (hrun : Run CallStep m₀ calls m) :
    (∃ t : DirTree Str, Run MkdirStep .root calls t ∧
      (∀ cs, (∀ c ∈ cs, ShortComponent c) → ∀ trailing, ∃ n,
        determinarNodo m (absPath cs trailing) = some n ∧ (n ≠ noNode ↔ cs ∈ t.dirs)) ∧
      (∀ cs ∈ t.dirs, ∀ c ∈ cs, ShortComponent c) ∧
      ∀ cs, (∀ c ∈ cs, ShortComponent c) → ∀ trailing, ∃ res m',
        sacCreateDirectory m (absPath cs trailing) = some (res, m') ∧
        (res = -EEXIST ↔ cs ∈ t.dirs) ∧
        (res = -ENOENT ↔ cs ∉ t.dirs ∧ cs.dropLast ∉ t.dirs) ∧
        (res = -EDQUOT ↔ cs ∉ t.dirs ∧ cs.dropLast ∈ t.dirs ∧ Full m) ∧
        (res = 0 ↔ cs ∉ t.dirs ∧ cs.dropLast ∈ t.dirs ∧ ¬Full m) ∧
        (res ≠ 0 → m' = m) ∧
        (res = 0 → ∃ i c, LowestFree m i ∧ cs.getLast? = some c ∧
          Fills m m' i c (resolve m cs.dropLast))) ∧
    (∀ i < sacFileByTable, ∀ j < sacFileByTable, state m i ≠ 0 → state m j ≠ 0 →
      parentDirBlock m i = parentDirBlock m j → fileName m i = fileName m j → i = j) ∧
    (∀ i < sacFileByTable, state m i ≠ 0 → state m i = directoryT ∧
      ReachesRoot m (parentDirBlock m i) ∧ parentDirBlock m i ≠ i + 1) := by
  obtain ⟨t, htree, paths, h, rfl⟩ := hrun.simulation (f := id)
    (fun _ _ _ _ hR hs => hR.step hs) (represents_root hfree)
  rw [List.map_id] at htree
  refine ⟨⟨h.tree, htree, fun cs hcs trailing => ?_, fun cs hmem => h.short_of_mem hmem,
    fun cs hcs trailing => ?_⟩, fun i hi j hj => h.entry_unique hi hj, fun i hi => h.parent_spec hi⟩
  · have hcomp : ∀ c ∈ cs, Component c := fun c hc => (hcs c hc).toComponent
    exact ⟨_, determinarNodo_absPath m hcomp trailing,
      by rw [Ne, h.resolve_eq_noNode_iff hcomp, not_not]⟩
  · obtain ⟨r, m', paths', h', hcall, hmkdir, herror, hok⟩ := sacCreateDirectory_spec h hcs trailing
    obtain ⟨hexist, hnoEnt, hdQuot, hroom⟩ := hmkdir.result_iff
    have hres : ∀ r', errno r = errno r' ↔ r = r' := fun r' => errno_injective.eq_iff
    refine ⟨errno r, m', hcall, (hres .exist).trans hexist, (hres .noEnt).trans hnoEnt,
      (hres .dQuot).trans hdQuot, (hres .ok).trans hroom, fun hne => ?_, fun heq => ?_⟩
    · exact herror fun hr => hne (by rw [hr]; rfl)
    · obtain ⟨i, c, hlow, hfills, hlast⟩ := hok ((hres .ok).mp heq)
      exact ⟨i, c, hlow, hlast, hfills⟩

/-- On an empty table `mkdir /a` makes a directory, and then `mkdir /a/` finds it there. -/
theorem createDirectory_refines_mkdir_first :
    ∃ m', sacCreateDirectory (fun _ => 0) [slash, 97] = some (0, m') ∧
      sacCreateDirectory m' [slash, 97, slash] = some (-EEXIST, m') := by
  have hshort : ∀ c ∈ [([97] : Str)], ShortComponent c := by
    intro c hc
    obtain rfl : c = [97] := by simpa using hc
    exact ⟨⟨by simp, by decide, by decide⟩, by decide⟩
  have hfree : ∀ i < sacFileByTable, state (fun _ => 0) i = 0 := fun _ _ => rfl
  obtain ⟨⟨t, hrun, -, -, hcall⟩, -, -⟩ := createDirectory_refines_mkdir hfree (.nil _)
  obtain rfl : t = .root := by cases hrun; rfl
  obtain ⟨res, m', hres, -, -, -, hok, -⟩ := hcall [[97]] hshort false
  have hroom : ¬Full fun _ => 0 := fun hfull => hfull 0 (by decide) rfl
  obtain rfl := hok.mpr ⟨by simp [DirTree.root], rfl, hroom⟩
  have hstep : CallStep (fun _ => 0) ([[97]], .ok) m' := ⟨hshort, false, hres⟩
  obtain ⟨⟨t', hrun', -, -, hcall'⟩, -, -⟩ := createDirectory_refines_mkdir hfree (.single hstep)
  obtain ⟨t, ⟨full, hmkdir⟩, hnil⟩ := Run.cons_iff.mp hrun'
  obtain rfl := Run.nil_iff.mp hnil
  obtain ⟨res, m'', hres', hexist, -, -, -, herror, -⟩ := hcall' [[97]] hshort true
  obtain rfl := hexist.mpr hmkdir.mem_of_ok
  obtain rfl := herror (by decide)
  exact ⟨m'', hres, hres'⟩

end Threaders.Sac
