import Threaders.Sac.Lookup

/-!
# Directories with long names

`sac_create_directory` copies the name with `strcpy`, and then sets the size and the parent
number, which stand behind the 71 bytes of `file_name`.  What the copy put there is lost, its
NUL included, so a name that does not fit reads back only if the bytes that were to follow are
those of the parent number.

## Main definitions

* `NameComponent`, `CreateStep` — names up to the limit of file systems, and the calls.
* `Created` — what a call that answers 0 should have done.
* `NameReadsBack` — when the name is found again.
-/

namespace Threaders.Sac

open Lib

/-- `NAME_MAX`. -/
def nameMax : ℕ := 255

/-- A component as long as a file system lets it be. -/
structure NameComponent (c : Str) : Prop extends Component c where
  length_le : c.length ≤ nameMax

/-- A call of `sac_create_directory` on an absolute path. -/
def CreateStep (m : Mem) (cs : List Str) (m' : Mem) : Prop :=
  (∀ c ∈ cs, NameComponent c) ∧
  ∃ trailing res, sacCreateDirectory m (absPath cs trailing) = some (res, m')

/-- The entry `i` is the first free one, and the directory is there: only the state, the name,
the parent and the size of the entry have changed, a lookup finds it, and it cannot be created
again. -/
structure Created (m m' : Mem) (i : ℕ) (path : Str) : Prop where
  chosen : LowestFree m i
  only : ∀ a, a < nodeAt i ∨ nodeAt i + 80 ≤ a → m' a = m a
  lookup : determinarNodo m' path = some (i + 1)
  again : sacCreateDirectory m' path = some (-EEXIST, m')

/-- The name fits its field, or what does not fit is, with its NUL, how the bytes of the
parent number begin. -/
def NameReadsBack (c : Str) (father : ℕ) : Prop :=
  c.length < sacFileNameLength ∨
    sacFileNameLength ≤ c.length ∧ c.drop sacFileNameLength ++ [0] <+: leBytes 4 father

/-! ## Writing an entry -/

section Write
variable {m : Mem} {i : ℕ} {c : Str} {father : ℤ} {a : ℤ}

/-- A name of file system length stays in its entry. -/
theorem onlyEntry_of_length_le (hc : c.length ≤ nameMax) :
    OnlyEntry m (escribirNodo m i c father) i := by
  unfold nameMax at hc
  intro a ha
  exact escribirNodo_frame m i father (by omega)

/-- One of up to 78 bytes stays in the first four fields. -/
theorem escribirNodo_of_not_mem (hc : c.length ≤ 78) (ha : a < nodeAt i ∨ nodeAt i + 80 ≤ a) :
    escribirNodo m i c father a = m a :=
  escribirNodo_frame m i father (by omega)

/-- The field holds what fits of the name. -/
theorem read_escribirNodo (hc : sacFileNameLength ≤ c.length) :
    (escribirNodo m i c father).read (fileNameAt i) sacFileNameLength
      = c.take sacFileNameLength := by
  have hcopied : (escribirNodo m i c father).read (fileNameAt i) sacFileNameLength
      = ((m.write (nodeAt i) [directoryT]).write (fileNameAt i) (c ++ [0])).read (fileNameAt i)
        sacFileNameLength := by
    refine Mem.read_congr fun a ha ha' => ?_
    unfold escribirNodo
    rw [Mem.writeLe_of_not_mem, Mem.writeLe_of_not_mem]
    all_goals simp only [fileNameAt, fileSizeAt, parentDirBlockAt, sacFileNameLength] at *
    all_goals omega
  have hall : ((m.write (nodeAt i) [directoryT]).write (fileNameAt i) (c ++ [0])).read
      (fileNameAt i) (sacFileNameLength + (c.length + 1 - sacFileNameLength)) = c ++ [0] := by
    have hlen : sacFileNameLength + (c.length + 1 - sacFileNameLength) = (c ++ [0]).length := by
      simp
      omega
    rw [hlen, Mem.read_write_self]
  rw [Mem.read_append] at hall
  have htake := congrArg (List.take sacFileNameLength) hall
  rw [List.take_append_of_le_length (by simp), List.take_append_of_le_length hc,
    List.take_of_length_le (by simp)] at htake
  rw [hcopied, htake]

/-- Behind the field stand the bytes of the parent number. -/
theorem read_parent_escribirNodo :
    (escribirNodo m i c father).read (fileNameAt i + sacFileNameLength) 4
      = leBytes 4 (toU32 father).toNat := by
  have hplace : fileNameAt i + sacFileNameLength = parentDirBlockAt i := by
    unfold fileNameAt sacFileNameLength parentDirBlockAt
    omega
  rw [hplace, ← length_leBytes 4 (toU32 father).toNat]
  exact Mem.read_write_self

/-- A node number has a byte that is zero. -/
theorem zero_mem_leBytes {n : ℕ} (hn : n ≤ sacFileByTable) : 0 ∈ leBytes 4 n := by
  unfold sacFileByTable at hn
  have hbyte : UInt8.ofNat (n / 256 / 256) = 0 := by
    rw [show n / 256 / 256 = 0 by omega]
    rfl
  simp [leBytes, hbyte]

/-- The name reads back exactly if what did not fit is how the parent number begins. -/
theorem strEq_escribirNodo_iff (hc : 0 ∉ c) (hfather : (toU32 father).toNat ≤ sacFileByTable) :
    (escribirNodo m i c father).strEq (fileNameAt i) c = true ↔
      NameReadsBack c (toU32 father).toNat := by
  unfold NameReadsBack
  rcases lt_or_ge c.length sacFileNameLength with hlt | hge
  · exact iff_of_true (strEq_escribirNodo m i father hlt) (.inl hlt)
  · have hdrop : 0 ∉ c.drop sacFileNameLength := fun hmem => hc (List.mem_of_mem_drop hmem)
    have hlen : (c.take sacFileNameLength).length = sacFileNameLength :=
      List.length_take_of_le hge
    have hsplit := Mem.strEq_append (m := escribirNodo m i c father) (a := fileNameAt i)
      (s := c.take sacFileNameLength) (t := c.drop sacFileNameLength)
    rw [List.take_append_drop, hlen] at hsplit
    rw [hsplit, read_escribirNodo hge,
      Mem.strEq_iff_prefix (n := 4) (by
        rw [read_parent_escribirNodo]
        exact zero_mem_leBytes hfather) hdrop, read_parent_escribirNodo]
    simp [hge, not_lt.2 hge]

/-- A name that reads back is at most three bytes too long. -/
theorem length_le_of_nameReadsBack {n : ℕ} (h : NameReadsBack c n) : c.length ≤ 78 := by
  unfold NameReadsBack sacFileNameLength at h
  rcases h with hlt | ⟨-, hprefix⟩
  · omega
  · have hle := hprefix.length_le
    simp at hle
    omega

end Write

/-! ## Looking the new directory up -/

/-- No live entry has `-1` for a parent. -/
def NoOrphans (m : Mem) : Prop :=
  ∀ i < sacFileByTable, state m i ≠ 0 → parentDirBlock m i ≠ noNode

/-- The node is the given number of directories below the root. -/
inductive Depth (m : Mem) : ℕ → ℕ → Prop
  | root : Depth m 0 0
  | entry {i d : ℕ} (hparent : Depth m (parentDirBlock m i) d) : Depth m (i + 1) (d + 1)

section Lookup
variable {m m' : Mem} {i n d d' : ℕ} {cs : List Str} {c : Str}

theorem Depth.unique (h : Depth m n d) (h' : Depth m n d') : d = d' := by
  induction h generalizing d' with
  | root =>
      cases h'
      rfl
  | entry _ ih =>
      cases h' with
      | entry hparent => rw [ih hparent]

theorem isNode_of_buscarNodo (h : buscarNodo m n c ≠ noNode) :
    ∃ i < sacFileByTable, buscarNodo m n c = i + 1 ∧ isNode m n c i = true := by
  unfold buscarNodo at h ⊢
  simp only at h ⊢
  split at h
  · exact absurd rfl h
  · next hlt =>
      rw [if_neg hlt]
      exact ⟨_, not_le.1 hlt, rfl, firstIndex_spec (by omega)⟩

theorem buscarNodo_orphan (h : NoOrphans m) : buscarNodo m noNode c = noNode := by
  refine buscarNodo_of_none fun j hj => ?_
  by_contra hnode
  have hnode' : parentDirBlock m j = noNode ∧ m.strEq (fileNameAt j) c = true ∧ state m j ≠ 0 := by
    simpa [isNode, and_assoc] using hnode
  exact h j hj hnode'.2.2 hnode'.1

/-- A path that leads somewhere leads as deep as it is long, and so do its beginnings. -/
theorem depth_resolve (h : NoOrphans m) (hne : resolve m cs ≠ noNode) :
    Depth m (resolve m cs) cs.length := by
  induction cs using List.reverseRecOn with
  | nil => exact .root
  | append_singleton cs c ih =>
      rw [resolve_concat] at hne ⊢
      have hcs : resolve m cs ≠ noNode := by
        intro heq
        rw [heq, buscarNodo_orphan h] at hne
        exact hne rfl
      obtain ⟨i, -, heq, hnode⟩ := isNode_of_buscarNodo hne
      have hparent : parentDirBlock m i = resolve m cs := by
        have hnode' := hnode
        simp [isNode, and_assoc] at hnode'
        exact hnode'.1
      rw [heq, List.length_append, List.length_singleton]
      exact .entry (hparent ▸ ih hcs)

end Lookup

/-! ## One entry more -/

section Entry
variable {m : Mem} {i n a : ℕ} {cs : List Str} {c d : Str}

theorem strEq_of_onlyEntry {m' : Mem} {j : ℕ} (h : OnlyEntry m m' i) (hij : j ≠ i)
    (hd : d.length ≤ nameMax) : m'.strEq (fileNameAt j) d = m.strEq (fileNameAt j) d := by
  unfold nameMax at hd
  exact Mem.strEq_congr fun a ha ha' =>
    h.eq_of_entry hij (by unfold fileNameAt at ha; omega) (by unfold fileNameAt at ha'; omega)

/-- The other entries are found as before. -/
theorem isNode_of_ne (hc : c.length ≤ nameMax) (hd : d.length ≤ nameMax) {j : ℕ} (hij : j ≠ i)
    (father : ℤ) : isNode (escribirNodo m i c father) a d j = isNode m a d j := by
  have honly : OnlyEntry m (escribirNodo m i c father) i := onlyEntry_of_length_le hc
  rw [isNode, isNode, honly.parentDirBlock_eq hij, honly.state_eq hij,
    strEq_of_onlyEntry honly hij hd]

/-- The new entry is found below its parent, by its name if it reads back. -/
theorem isNode_self (hc : Component c) (hn : n ≤ sacFileByTable) :
    isNode (escribirNodo m i c n) n c i = true ↔ NameReadsBack c n := by
  have hu32 := toU32_of_le_table hn
  have hstr : (escribirNodo m i c n).strEq (fileNameAt i) c = true ↔ NameReadsBack c n := by
    rw [strEq_escribirNodo_iff hc.zero_not_mem (by rwa [hu32]), hu32]
  rw [isNode, parentDirBlock_escribirNodo, hu32, state_escribirNodo, ← hstr]
  simp [directoryT]

/-- Below the other nodes nothing is new. -/
theorem buscarNodo_of_ne (hc : c.length ≤ nameMax) (hd : d.length ≤ nameMax)
    (hfree : state m i = 0) (hn : n ≤ sacFileByTable) (ha : a ≠ n) :
    buscarNodo (escribirNodo m i c n) a d = buscarNodo m a d := by
  have hindex : firstIndex (isNode (escribirNodo m i c n) a d) sacFileByTable 0
      = firstIndex (isNode m a d) sacFileByTable 0 := by
    refine firstIndex_congr fun j _ _ => ?_
    by_cases hij : j = i
    · subst hij
      simp [isNode, parentDirBlock_escribirNodo, toU32_of_le_table hn, Ne.symm ha, hfree]
    · exact isNode_of_ne hc hd hij n
  rw [buscarNodo, buscarNodo, hindex]

/-- The upper path leads where it led. -/
theorem resolve_upper (h : NoOrphans m) (hcs : ∀ d ∈ cs, NameComponent d)
    (hc : c.length ≤ nameMax) (hfree : state m i = 0) (hn : resolve m cs ≤ sacFileByTable) :
    resolve (escribirNodo m i c (resolve m cs)) cs = resolve m cs := by
  have hlt : resolve m cs < noNode := hn.trans_lt (by decide)
  suffices H : ∀ p q, cs = p ++ q →
      resolve (escribirNodo m i c (resolve m cs)) p = resolve m p from H cs [] (by simp)
  intro p
  induction p using List.reverseRecOn with
  | nil =>
      intro q _
      rw [resolve_nil, resolve_nil]
  | append_singleton p d ih =>
      intro q heq
      have hp : cs = p ++ d :: q := by rw [heq]; simp
      -- the new entry is below a node that is deeper than this one
      have hne : resolve m p ≠ resolve m cs := by
        intro hsame
        have hdepth := depth_resolve h hlt.ne
        rw [← hsame] at hdepth
        have hlen := hdepth.unique (depth_resolve h (hsame ▸ hlt.ne))
        rw [hp] at hlen
        simp at hlen
      rw [resolve_concat, resolve_concat, ih (d :: q) hp,
        buscarNodo_of_ne hc (hcs d (by simp [hp])).length_le hfree hn hne]

/-- After the call the path leads to the new entry if its name reads back, and nowhere if it
does not. -/
theorem resolve_escribirNodo (h : NoOrphans m) (hcs : ∀ d ∈ cs ++ [c], NameComponent d)
    (hi : i < sacFileByTable) (hfree : state m i = 0) (hn : resolve m cs ≤ sacFileByTable)
    (hnew : resolve m (cs ++ [c]) = noNode) :
    (NameReadsBack c (resolve m cs) →
      resolve (escribirNodo m i c (resolve m cs)) (cs ++ [c]) = i + 1) ∧
    (¬ NameReadsBack c (resolve m cs) →
      resolve (escribirNodo m i c (resolve m cs)) (cs ++ [c]) = noNode) := by
  have hc : NameComponent c := hcs c (by simp)
  have hupper := resolve_upper h (fun d hd => hcs d (List.mem_append_left [c] hd)) hc.length_le
    hfree hn
  rw [resolve_concat] at hnew
  rw [resolve_concat, hupper]
  have hother : ∀ j < sacFileByTable, j ≠ i →
      isNode (escribirNodo m i c (resolve m cs)) (resolve m cs) c j = false := fun j hj hij => by
    rw [isNode_of_ne hc.length_le hc.length_le hij]
    exact isNode_of_noNode hnew hj
  constructor
  · intro hback
    refine buscarNodo_of_unique hi ((isNode_self hc.toComponent hn).2 hback) fun j hj hnode => ?_
    by_contra hij
    rw [hother j hj hij] at hnode
    cases hnode
  · intro hlost
    refine buscarNodo_of_none fun j hj => ?_
    by_cases hij : j = i
    · subst hij
      rw [Bool.eq_false_iff]
      exact fun hnode => hlost ((isNode_self hc.toComponent hn).1 hnode)
    · exact hother j hj hij

end Entry

/-! ## The call -/

section Call
variable {m m' : Mem} {cs : List Str} {c : Str} {trailing : Bool}

theorem resolve_le (m : Mem) (cs : List Str) :
    resolve m cs ≤ sacFileByTable ∨ resolve m cs = noNode := by
  rcases cs.eq_nil_or_concat' with rfl | ⟨cs, c, rfl⟩
  · exact .inl (Nat.zero_le _)
  · rw [resolve_concat]
    exact buscarNodo_le m _ _

/-- What a call that answers 0 has found and done. -/
theorem sacCreateDirectory_zero (hcs : ∀ d ∈ cs, Component d)
    (hok : sacCreateDirectory m (absPath cs trailing) = some (0, m')) :
    ∃ p c i, cs = p ++ [c] ∧ resolve m cs = noNode ∧ resolve m p ≤ sacFileByTable ∧
      LowestFree m i ∧ m' = escribirNodo m i c (resolve m p) := by
  have hnodo := determinarNodo_absPath m hcs trailing
  by_cases hnone : resolve m cs = noNode
  · rcases cs.eq_nil_or_concat' with rfl | ⟨p, c, rfl⟩
    · rw [resolve_nil] at hnone
      exact absurd hnone (by decide)
    have hparent : ∀ d ∈ p, Component d := fun d hd => hcs d (List.mem_append_left [c] hd)
    have hsplit := splitPath_absPath p trailing (hcs c (by simp))
    have hfather := fatherNode_absPath m hparent
    rcases resolve_le m p with hle | hmissing
    · have hint : toI32 (resolve m p) = resolve m p := by
        unfold sacFileByTable at hle
        exact toI32_of_mem (by omega) (by omega)
      have hpos : ¬(resolve m p : ℤ) < 0 := by omega
      rcases buscarLibre_spec m with ⟨hlt, -⟩ | ⟨hge, hlow⟩
      · simp [sacCreateDirectory, hnodo, hnone, hsplit, hfather, hint, hpos, hlt, EDQUOT] at hok
      · have hle' : ¬nodeTableSize < buscarLibre m := by omega
        simp [sacCreateDirectory, hnodo, hnone, hsplit, hfather, hint, hpos, hle'] at hok
        exact ⟨p, c, _, rfl, hnone, hle, hlow, hok.symm⟩
    · have hneg : toI32 (noNode : ℕ) < 0 := by decide
      simp [sacCreateDirectory, hnodo, hnone, hsplit, hfather, hmissing, hneg, ENOENT] at hok
  · simp [sacCreateDirectory, hnodo, hnone, EEXIST] at hok

/-- The first free entry is the one there is. -/
theorem LowestFree.unique {i j : ℕ} (h : LowestFree m i) (h' : LowestFree m j) : i = j := by
  rcases lt_trichotomy i j with hlt | heq | hlt
  · exact absurd h.2.1 (h'.2.2 i hlt)
  · exact heq
  · exact absurd h'.2.1 (h.2.2 j hlt)

/-- A call that answers 0 has created the directory exactly if the name reads back. -/
theorem created_iff (h : NoOrphans m) (hcs : ∀ d ∈ cs, NameComponent d)
    (hok : sacCreateDirectory m (absPath cs trailing) = some (0, m')) :
    ∃ p c, cs = p ++ [c] ∧
      ((∃ i, Created m m' i (absPath cs trailing)) ↔ NameReadsBack c (resolve m p)) := by
  have hcomp : ∀ d ∈ cs, Component d := fun d hd => (hcs d hd).toComponent
  obtain ⟨p, c, i, rfl, hnone, hle, hlow, rfl⟩ := sacCreateDirectory_zero hcomp hok
  obtain ⟨hback, hlost⟩ := resolve_escribirNodo h hcs hlow.1 hlow.2.1 hle hnone
  have hnodo := determinarNodo_absPath (escribirNodo m i c (resolve m p)) hcomp trailing
  refine ⟨p, c, rfl, ?_, fun hname => ⟨i, hlow, fun a ha => ?_, ?_, ?_⟩⟩
  · rintro ⟨j, hcreated⟩
    obtain rfl := hlow.unique hcreated.chosen
    by_contra hnot
    have hlookup := hcreated.lookup
    rw [hnodo, hlost hnot, Option.some.injEq] at hlookup
    exact absurd hlookup ((Nat.succ_le_of_lt hlow.1).trans_lt (by decide)).ne'
  · exact escribirNodo_of_not_mem (length_le_of_nameReadsBack hname) ha
  · rw [hnodo, hback hname]
  · have hne : i + 1 ≠ noNode := ((Nat.succ_le_of_lt hlow.1).trans_lt (by decide)).ne
    simp [sacCreateDirectory, hnodo, hback hname, hne]

end Call

/-! ## Reachable tables -/

theorem sacCreateDirectory_error {m m' : Mem} {path : Str} {res : ℤ}
    (h : sacCreateDirectory m path = some (res, m')) (hres : res ≠ 0) : m' = m := by
  simp only [sacCreateDirectory, Option.bind_eq_bind, Option.bind_eq_some_iff] at h
  obtain ⟨nodo, -, h⟩ := h
  by_cases hnodo : nodo ≠ noNode
  · rw [if_pos hnodo] at h
    exact (congrArg Prod.snd (Option.some.inj h)).symm
  rw [if_neg hnodo, Option.bind_eq_some_iff] at h
  obtain ⟨⟨dirPadre, nombre⟩, -, h⟩ := h
  obtain ⟨father, -, h⟩ := Option.bind_eq_some_iff.1 h
  by_cases hfather : father < 0
  · rw [if_pos hfather] at h
    exact (congrArg Prod.snd (Option.some.inj h)).symm
  rw [if_neg hfather] at h
  by_cases hfull : buscarLibre m > nodeTableSize
  · rw [if_pos hfull] at h
    exact (congrArg Prod.snd (Option.some.inj h)).symm
  · rw [if_neg hfull] at h
    exact absurd (congrArg Prod.fst (Option.some.inj h)).symm hres

/-- A call puts no entry below node `-1`. -/
theorem NoOrphans.step {m m' : Mem} {cs : List Str} (h : NoOrphans m)
    (hstep : CreateStep m cs m') : NoOrphans m' := by
  obtain ⟨hcs, trailing, res, hcall⟩ := hstep
  by_cases hres : res = 0
  · subst hres
    obtain ⟨p, c, i, rfl, -, hle, -, rfl⟩ :=
      sacCreateDirectory_zero (fun d hd => (hcs d hd).toComponent) hcall
    have honly : OnlyEntry m (escribirNodo m i c (resolve m p)) i :=
      onlyEntry_of_length_le (hcs c (by simp)).length_le
    intro j hj hlive
    by_cases hij : j = i
    · subst hij
      rw [parentDirBlock_escribirNodo, toU32_of_le_table hle]
      exact (hle.trans_lt (by decide)).ne
    · rw [honly.parentDirBlock_eq hij]
      rw [honly.state_eq hij] at hlive
      exact h j hj hlive
  · obtain rfl := sacCreateDirectory_error hcall hres
    exact h

theorem resolve_of_empty (c : Str) : resolve (fun _ => 0) [c] = noNode :=
  buscarNodo_of_none fun j _ => by simp [isNode, state]

/-- A directory below the root takes the first entry of an empty table. -/
theorem sacCreateDirectory_first {c : Str} (hc : Component c) (trailing : Bool) :
    sacCreateDirectory (fun _ => 0) (absPath [c] trailing)
      = some (0, escribirNodo (fun _ => 0) 0 c 0) := by
  have hcs : ∀ d ∈ [c], Component d := fun d hd => by
    obtain rfl : d = c := by simpa using hd
    exact hc
  have hsplit := splitPath_absPath [] trailing hc
  have hlibre : buscarLibre (fun _ => 0) = 0 := rfl
  rw [List.nil_append] at hsplit
  simp [sacCreateDirectory, determinarNodo_absPath _ hcs, resolve_of_empty, hsplit, fatherNode,
    hlibre]

/-- On every table that calls lead to from one of free entries, a call that answers 0 has
created the directory exactly if the name fits its field, or what does not fit is how the bytes
of the parent number begin. -/
theorem create_then_lookup_iff {m₀ m m' : Mem} {cs : List Str} {trailing : Bool}
    (hfree : ∀ i < sacFileByTable, state m₀ i = 0) (hreach : Reachable CreateStep m₀ m)
    (hcs : ∀ d ∈ cs, NameComponent d)
    (hok : sacCreateDirectory m (absPath cs trailing) = some (0, m')) :
    ∃ p c, cs = p ++ [c] ∧
      ((∃ i, Created m m' i (absPath cs trailing)) ↔ NameReadsBack c (resolve m p)) := by
  have horphans : NoOrphans m :=
    hreach.invariant (fun _ _ _ h hstep => h.step hstep) fun i hi hlive =>
      absurd (hfree i hi) hlive
  exact created_iff horphans hcs hok

/-- A name of one letter. -/
theorem create_then_lookup_a : ∃ i, Created (fun _ => 0) (escribirNodo (fun _ => 0) 0 [97] 0) i
    (absPath [[97]] false) := by
  have hc : Component [97] := ⟨by decide, by decide, by decide⟩
  obtain ⟨p, c, hpath, hiff⟩ := create_then_lookup_iff (fun _ _ => rfl) (.refl _)
    (fun d hd => by
      obtain rfl : d = [97] := by simpa using hd
      exact ⟨hc, by decide⟩) (sacCreateDirectory_first hc false)
  obtain ⟨rfl, hc⟩ := List.append_inj' (show [] ++ [[97]] = p ++ [c] from hpath) rfl
  obtain rfl : [97] = c := by simpa using hc
  exact hiff.2 (.inl (by decide))

/-- A name of 72 bytes below the root: the call answers 0, and the directory is not found. -/
theorem created_not_found :
    sacCreateDirectory (fun _ => 0) (absPath [List.replicate 72 120] false)
      = some (0, escribirNodo (fun _ => 0) 0 (List.replicate 72 120) 0) ∧
    determinarNodo (escribirNodo (fun _ => 0) 0 (List.replicate 72 120) 0)
      (absPath [List.replicate 72 120] false) = some noNode ∧
    ¬ ∃ i, Created (fun _ => 0) (escribirNodo (fun _ => 0) 0 (List.replicate 72 120) 0) i
      (absPath [List.replicate 72 120] false) := by
  have hc : NameComponent (List.replicate 72 120) :=
    ⟨⟨by decide, by decide, by decide⟩, by decide⟩
  have hcs : ∀ d ∈ [] ++ [List.replicate 72 (120 : UInt8)], NameComponent d := fun d hd => by
    obtain rfl : d = List.replicate 72 120 := by simpa using hd
    exact hc
  have hnone : resolve (fun _ => 0) ([] ++ [List.replicate 72 120]) = noNode := by
    rw [List.nil_append, resolve_of_empty]
  have hlost : ¬ NameReadsBack (List.replicate 72 120) (resolve (fun _ => 0) []) := by
    rw [resolve_nil]
    unfold NameReadsBack
    decide
  have horphans : NoOrphans fun _ => 0 := fun _ _ hlive => absurd rfl hlive
  have hresolve := (resolve_escribirNodo horphans hcs (i := 0) (by decide) rfl (Nat.zero_le _)
    hnone).2 hlost
  rw [resolve_nil, Nat.cast_zero, List.nil_append] at hresolve
  have hlookup : determinarNodo (escribirNodo (fun _ => 0) 0 (List.replicate 72 120) 0)
      (absPath [List.replicate 72 120] false) = some noNode := by
    have hcomp : ∀ d ∈ [List.replicate 72 (120 : UInt8)], Component d :=
      fun d hd => (hcs d hd).toComponent
    rw [determinarNodo_absPath _ hcomp, hresolve]
  refine ⟨sacCreateDirectory_first hc.toComponent false, hlookup, ?_⟩
  rintro ⟨i, hcreated⟩
  have hfound := hcreated.lookup
  rw [hlookup, Option.some.injEq] at hfound
  exact absurd hfound.symm ((Nat.succ_le_of_lt hcreated.chosen.1).trans_lt (by decide)).ne

end Threaders.Sac
