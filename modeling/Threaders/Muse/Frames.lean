import Threaders.Lib.Run
import Threaders.Muse.Malloc
import Mathlib.Data.List.Nodup
import Mathlib.Data.List.Pairwise

/-!
# Frames, page entries and page lists stay in lockstep

Nothing is ever given back, both tables are searched from their start, and each round of
the assignment loop takes one entry of each.  So after `k` rounds in all, the first `k`
frames and the first `k` page entries are taken and entry `i` holds frame `i`: this is
`Lockstep c s k`.  `Paged` adds that the page lists of the segments hold these entries
once each.

## Main definitions

* `Lockstep`, `Paged` — the invariants.
* `MallocEffect` — what serving a `MALLOC` does to the tables.
* `malloc_keeps_tables` — the invariant in every state a run of requests reaches.
-/

namespace Threaders.Muse

open Lib Common

/-! ## The two tables -/

/-- The first `k` frames and the first `k` page entries are taken, each entry with the
frame of its own index. -/
structure Lockstep (c : Config) (s : Globals) (k : ℕ) : Prop where
  le : k ≤ c.entradas
  frames : ∀ i < c.entradas, s.vectorFrames i = decide (k ≤ i)
  entries : ∀ i < c.entradas, (s.vectorAtributoPaginas i).libre = decide (k ≤ i)
  frame : ∀ i < k, (s.vectorAtributoPaginas i).frame = i

namespace Lockstep

variable {c : Config} {s s' : Globals} {k : ℕ}

theorem congr (h : Lockstep c s k) (hframes : s'.vectorFrames = s.vectorFrames)
    (hentries : s'.vectorAtributoPaginas = s.vectorAtributoPaginas) : Lockstep c s' k :=
  ⟨h.le, hframes ▸ h.frames, hentries ▸ h.entries, hentries ▸ h.frame⟩

theorem unique {k' : ℕ} (h : Lockstep c s k) (h' : Lockstep c s k') : k = k' := by
  have hle : ∀ {k k' : ℕ}, Lockstep c s k → Lockstep c s k' → k ≤ k' := by
    intro k k' h h'
    by_contra hlt
    have hentradas := h.le
    have hfree := (h'.frames k' (by omega)).symm.trans (h.frames k' (by omega))
    rw [decide_eq_decide] at hfree
    exact hlt (hfree.mp le_rfl)
  exact le_antisymm (hle h h') (hle h' h)

theorem asignarFrameLibre_eq (h : Lockstep c s k) (hk : k < c.entradas) :
    asignarFrameLibre c s = k := primerLibre_eq h.frames hk

theorem asignarIndiceVectorLibre_eq (h : Lockstep c s k) (hk : k < c.entradas) :
    asignarIndiceVectorLibre c s = k := primerLibre_eq h.entries hk

/-- There is room for a positive number of pages exactly if that many frames are free. -/
theorem existe_iff (h : Lockstep c s k) {cantidad : ℤ} (hpos : 0 < cantidad) :
    existeMemoriaPararPaginas c s cantidad = true ↔ k + cantidad ≤ c.entradas := by
  have hle := h.le
  rw [existeMemoriaPararPaginas, decide_eq_true_iff, contarLibres_eq_iff (by omega),
    libres_eq h.frames (by omega)]
  omega

/-- A round of the assignment loop takes the next frame and the next entry. -/
theorem asignarPagina (h : Lockstep c s k) (hk : k < c.entradas) (i : ℕ) (paginas : List ℤ)
    (l : Locales) :
    Lockstep c (Muse.asignarPagina c i ⟨s, paginas, l⟩).globals (k + 1) ∧
    (Muse.asignarPagina c i ⟨s, paginas, l⟩).paginas = paginas ++ [(k : ℤ)] ∧
    (Muse.asignarPagina c i ⟨s, paginas, l⟩).locales =
      ⟨if i = 0 then k else l.primerFrameLibre, k⟩ := by
  have hframe := h.asignarFrameLibre_eq hk
  have hindice := h.asignarIndiceVectorLibre_eq hk
  refine ⟨⟨hk, fun j hj => ?_, fun j hj => ?_, fun j hj => ?_⟩, ?_, ?_⟩
  · rcases eq_or_ne j k with rfl | hne
    · simp [Muse.asignarPagina, cambiarEstadoPagina, hframe]
    · have hne' : (j : ℤ) ≠ k := by exact_mod_cast hne
      simp only [Muse.asignarPagina, cambiarEstadoPagina, hframe, Function.update_of_ne hne',
        h.frames j hj]
      exact decide_eq_decide.mpr (by omega)
  · rcases eq_or_ne j k with rfl | hne
    · simp [Muse.asignarPagina, cambiarEstadoPagina, hindice]
    · have hne' : (j : ℤ) ≠ k := by exact_mod_cast hne
      simp only [Muse.asignarPagina, cambiarEstadoPagina, hindice, Function.update_of_ne hne',
        h.entries j hj]
      exact decide_eq_decide.mpr (by omega)
  · rcases eq_or_ne j k with rfl | hne
    · simp [Muse.asignarPagina, cambiarEstadoPagina, hframe, hindice]
    · have hne' : (j : ℤ) ≠ k := by exact_mod_cast hne
      simp only [Muse.asignarPagina, cambiarEstadoPagina, hindice, Function.update_of_ne hne',
        h.frame j (by omega)]
  · simp [Muse.asignarPagina, hindice]
  · simp [Muse.asignarPagina, hframe]

end Lockstep

/-- The consecutive indices from `k` on. -/
def desde (k n : ℕ) : List ℤ := (List.range n).map fun i => ((k + i : ℕ) : ℤ)

@[simp] theorem desde_zero (k : ℕ) : desde k 0 = [] := rfl

theorem desde_succ (k n : ℕ) : desde k (n + 1) = desde k n ++ [((k + n : ℕ) : ℤ)] := by
  simp [desde, List.range_succ]

theorem desde_add (n k : ℕ) : desde 0 (k + n) = desde 0 k ++ desde k n := by
  induction n with
  | zero => simp
  | succ n ih => rw [← Nat.add_assoc, desde_succ, ih, desde_succ, Nat.zero_add, List.append_assoc]

theorem mem_desde {k n : ℕ} {x : ℤ} : x ∈ desde k n ↔ (k : ℤ) ≤ x ∧ x < k + n := by
  simp only [desde, List.mem_map, List.mem_range]
  constructor
  · rintro ⟨i, hi, rfl⟩
    omega
  · rintro ⟨h0, h1⟩
    exact ⟨(x - k).toNat, by omega, by omega⟩

theorem nodup_desde (k n : ℕ) : (desde k n).Nodup :=
  List.Nodup.map (fun i j h => by simpa using h) List.nodup_range

theorem desde_injective {k k' n n' : ℕ} (hpos : 0 < n) (h : desde k n = desde k' n') :
    k = k' ∧ n = n' := by
  have hlength := congrArg List.length h
  simp only [desde, List.length_map, List.length_range] at hlength
  have hmem : (k : ℤ) ∈ desde k' n' := h ▸ mem_desde.mpr ⟨le_rfl, by omega⟩
  have hmem' : (k' : ℤ) ∈ desde k n := h ▸ mem_desde.mpr ⟨le_rfl, by omega⟩
  rw [mem_desde] at hmem hmem'
  omega

section Assignment
variable {c : Config} {s : Globals} {k n : ℕ} {l : Locales}

@[simp] theorem memoria_asignarPaginas : (asignarPaginas c ⟨s, [], l⟩ n).globals.memoria = s.memoria := by
  induction n with
  | zero => rfl
  | succ n ih => exact ih

@[simp] theorem listaProcesos_asignarPaginas :
    (asignarPaginas c ⟨s, [], l⟩ n).globals.listaProcesos = s.listaProcesos := by
  induction n with
  | zero => rfl
  | succ n ih => exact ih

/-- The assignment loop takes the next `n` frames with the next `n` entries. -/
theorem Lockstep.asignarPaginas (h : Lockstep c s k) (hn : k + n ≤ c.entradas) :
    Lockstep c (asignarPaginas c ⟨s, [], l⟩ n).globals (k + n) ∧
    (Muse.asignarPaginas c ⟨s, [], l⟩ n).paginas = desde k n ∧
    (0 < n → (Muse.asignarPaginas c ⟨s, [], l⟩ n).locales = ⟨k, ((k + n - 1 : ℕ) : ℤ)⟩) := by
  induction n with
  | zero => exact ⟨h, rfl, fun hpos => absurd hpos (lt_irrefl 0)⟩
  | succ n ih =>
      obtain ⟨hlock, hpaginas, hlocales⟩ := ih (by omega)
      obtain ⟨hlock', hpaginas', hlocales'⟩ :=
        hlock.asignarPagina (by omega) n (Muse.asignarPaginas c ⟨s, [], l⟩ n).paginas
          (Muse.asignarPaginas c ⟨s, [], l⟩ n).locales
      refine ⟨hlock', ?_, fun _ => ?_⟩
      · rw [desde_succ, ← hpaginas]
        exact hpaginas'
      · refine hlocales'.trans ?_
        rcases Nat.eq_zero_or_pos n with rfl | hpos
        · simp
        · rw [if_neg (by omega), hlocales hpos]
          simp

/-- While the pre-check holds, no round of the loop is answered -1. -/
theorem Lockstep.asignaciones (h : Lockstep c s k) (hn : k + n ≤ c.entradas) {i : ℕ} (hi : i < n) :
    asignarFrameLibre c (Muse.asignarPaginas c ⟨s, [], l⟩ i).globals = ((k + i : ℕ) : ℤ) ∧
    asignarIndiceVectorLibre c (Muse.asignarPaginas c ⟨s, [], l⟩ i).globals = ((k + i : ℕ) : ℤ) := by
  obtain ⟨hlock, -, -⟩ := h.asignarPaginas (l := l) (show k + i ≤ c.entradas by omega)
  exact ⟨hlock.asignarFrameLibre_eq (by omega), hlock.asignarIndiceVectorLibre_eq (by omega)⟩

end Assignment

/-! ## The page lists -/

/-- The page nodes of every segment of every process. -/
def paginas (procesos : List NodoProceso) : List ℤ :=
  procesos.flatMap fun nodo => nodo.listSegmento.flatMap NodoSegmento.listPaginas

theorem existeProcesoEnLista_spec {s : Globals} {id : Int32} {nodo : NodoProceso}
    (h : existeProcesoEnLista s id = some nodo) : nodo ∈ s.listaProcesos ∧ nodo.id = id :=
  ⟨List.mem_of_find?_eq_some h, by simpa using List.find?_some h⟩

/-- Registering a process changes nothing else and adds no page. -/
theorem procesarId_spec (s : Globals) (id : Int32) :
    (procesarId s id).2.memoria = s.memoria ∧
    (procesarId s id).2.vectorFrames = s.vectorFrames ∧
    (procesarId s id).2.vectorAtributoPaginas = s.vectorAtributoPaginas ∧
    existeProcesoEnLista (procesarId s id).2 id = some (procesarId s id).1 ∧
    ((procesarId s id).2.listaProcesos = s.listaProcesos ∨
      existeProcesoEnLista s id = none ∧ (procesarId s id).1 = crearNodo id ∧
        (procesarId s id).2.listaProcesos = s.listaProcesos ++ [crearNodo id]) := by
  unfold procesarId
  cases h : existeProcesoEnLista s id with
  | some nodo => exact ⟨rfl, rfl, rfl, h, .inl rfl⟩
  | none =>
      refine ⟨rfl, rfl, rfl, ?_, .inr ⟨rfl, rfl, rfl⟩⟩
      unfold existeProcesoEnLista at h ⊢
      rw [List.find?_append, h]
      simp [crearNodo]

theorem paginas_procesarId (s : Globals) (id : Int32) :
    paginas (procesarId s id).2.listaProcesos = paginas s.listaProcesos := by
  obtain ⟨-, -, -, -, h | ⟨-, -, h⟩⟩ := procesarId_spec s id <;> rw [h]
  simp [paginas, crearNodo]

/-- Adding a segment to a registered process adds its pages. -/
theorem paginas_agregarSegmento {id : Int32} {segmento : NodoSegmento} {procesos : List NodoProceso}
    (h : ∃ nodo ∈ procesos, nodo.id = id) :
    (paginas (agregarSegmento id segmento procesos)).Perm
      (paginas procesos ++ segmento.listPaginas) := by
  induction procesos with
  | nil => simp at h
  | cons nodo nodos ih =>
      rw [agregarSegmento]
      split
      · simp only [paginas, List.flatMap_cons, List.flatMap_append, List.flatMap_nil,
          List.append_nil, List.append_assoc]
        exact List.perm_append_comm.append_left _
      · next hid =>
          have hrest : ∃ nodo ∈ nodos, nodo.id = id := by
            obtain ⟨nodo', hmem, hid'⟩ := h
            rcases List.mem_cons.mp hmem with rfl | hmem
            · exact absurd hid' hid
            · exact ⟨nodo', hmem, hid'⟩
          simp only [paginas, List.flatMap_cons, List.append_assoc] at ih ⊢
          exact (ih hrest).append_left _

/-- The segments after one is added: those there were, and the new one in a process of
its owner. -/
theorem mem_agregarSegmento {id : Int32} {segmento : NodoSegmento} {procesos : List NodoProceso}
    {nodo : NodoProceso} (h : nodo ∈ agregarSegmento id segmento procesos) :
    nodo ∈ procesos ∨ nodo.id = id ∧
      ∃ nodo' ∈ procesos, nodo'.id = id ∧ nodo.listSegmento = nodo'.listSegmento ++ [segmento] := by
  induction procesos with
  | nil => cases h
  | cons nodo' nodos ih =>
      rw [agregarSegmento] at h
      split at h
      · next hid =>
          rcases List.mem_cons.mp h with rfl | hmem
          · exact .inr ⟨hid, nodo', List.mem_cons_self, hid, rfl⟩
          · exact .inl (List.mem_cons_of_mem _ hmem)
      · rcases List.mem_cons.mp h with rfl | hmem
        · exact .inl List.mem_cons_self
        · rcases ih hmem with hmem | ⟨hid, nodo'', hmem, hrest⟩
          · exact .inl (List.mem_cons_of_mem _ hmem)
          · exact .inr ⟨hid, nodo'', List.mem_cons_of_mem _ hmem, hrest⟩

/-! ## One request -/

/-- A walk over a segment without pages reads the page `NULL`, so one that ends had a page. -/
theorem listPaginas_ne_nil {fuel : ℕ} {c : Config} {m : Mem} {segmento : NodoSegmento}
    {memoriaReservar : ℕ} {x : ℤ × Mem}
    (h : recorerSegmentoEspacioLibre fuel c m segmento memoriaReservar = some x) :
    segmento.listPaginas ≠ [] := by
  intro hnil
  have hwalk : recorrerSegmento fuel c m segmento memoriaReservar = none := by
    unfold recorrerSegmento
    cases fuel with
    | zero => rfl
    | succ fuel => simp [loop, rondaSegmento, listGet, hnil]
  rw [recorerSegmentoEspacioLibre, hwalk] at h
  cases h

theorem listPaginas_of_eq_mk {base tamanio : ℤ} {listPaginas : List ℤ} {segmento : NodoSegmento}
    (h : segmento = ⟨base, tamanio, listPaginas⟩) : segmento.listPaginas = listPaginas := by
  subst h
  rfl

/-- What `asignar_dir_memoria` does once the pre-check holds: as it goes on to walk the
segment, it has assigned a page. -/
theorem asignarDirMemoria_of_existe {c : Config} {s s' : Globals} {tam : UInt32} {fuel : ℕ}
    {l : Locales} {ptr : ℤ} {segmento : NodoSegmento}
    (hlibre : existeMemoriaPararPaginas c s (cantidadPaginasNecesarias c tam) = true)
    (h : asignarDirMemoria fuel c l s tam = some (ptr, segmento, s')) :
    ∃ n m, 0 < n ∧ cantidadPaginasNecesarias c tam = (n : ℕ) ∧
      ptr = toI32 (toI32 ((asignarPaginas c ⟨s, [], l⟩ n).locales.primerFrameLibre * c.pagina) + 5) ∧
      segmento.listPaginas = (asignarPaginas c ⟨s, [], l⟩ n).paginas ∧
      s' = { (asignarPaginas c ⟨s, [], l⟩ n).globals with memoria := m } := by
  obtain ⟨-, -, -, hsegmento, hptr, respuesta, m, hwalk, hs'⟩ :=
    asignarDirMemoria_eq_some rfl rfl hlibre h
  have hpos : 0 < cantidadPaginasNecesarias c tam := by
    by_contra hle
    have hzero : (cantidadPaginasNecesarias c tam).toNat = 0 := by omega
    rw [hzero] at hsegmento
    exact listPaginas_ne_nil hwalk (listPaginas_of_eq_mk hsegmento)
  refine ⟨(cantidadPaginasNecesarias c tam).toNat, _, by omega, (Int.toNat_of_nonneg hpos.le).symm,
    ?_, listPaginas_of_eq_mk hsegmento, hs'⟩
  rw [hptr, dirPrimera]

/-! ## The uninitialised variables -/

section Locals
variable {c : Config} {s s' : Globals} {l l' : Locales} {fuel fuel' n memoriaReservar : ℕ} {m : Mem}
  {segmento : NodoSegmento} {tam : UInt32}

end Locals

/-! ## What a request does to the tables -/

/-- What serving a `MALLOC` does, after the process is registered: it refuses a first
request, gives it frames, or walks the headers of the last segment. -/
inductive MallocEffect (c : Config) (s : Globals) (p : TMalloc) : TMallocOk → Globals → Prop
  | refused {s₁ s' : Globals} (hs₁ : s₁ = (procesarId s p.idLibmuse).2)
      (hnuevo : (procesarId s p.idLibmuse).1.listSegmento = [])
      (hlleno : existeMemoriaPararPaginas c s₁ (cantidadPaginasNecesarias c p.tam) = false)
      (hs' : s' = { s₁ with
        listaProcesos := agregarSegmento p.idLibmuse crearNodoSegmento s₁.listaProcesos }) :
      MallocEffect c s p ⟨UInt32.ofInt (-1)⟩ s'
  | assigned {s₁ s' : Globals} {n : ℕ} {l : Locales} {segmento : NodoSegmento} {m : Mem}
      (hs₁ : s₁ = (procesarId s p.idLibmuse).2)
      (hnuevo : (procesarId s p.idLibmuse).1.listSegmento = [])
      (hn : cantidadPaginasNecesarias c p.tam = n) (hpos : 0 < n)
      (hlibre : existeMemoriaPararPaginas c s₁ n = true)
      (hpaginas : segmento.listPaginas = (asignarPaginas c ⟨s₁, [], l⟩ n).paginas)
      (hs' : s' = { (asignarPaginas c ⟨s₁, [], l⟩ n).globals with
        memoria := m
        listaProcesos := agregarSegmento p.idLibmuse segmento s₁.listaProcesos }) :
      MallocEffect c s p
        ⟨UInt32.ofInt (toI32 (toI32
          ((asignarPaginas c ⟨s₁, [], l⟩ n).locales.primerFrameLibre * c.pagina) + 5))⟩ s'
  | walked {s₁ s' : Globals} {segmento : NodoSegmento} {fuel : ℕ} {respuesta : ℤ} {m : Mem}
      (hs₁ : s₁ = (procesarId s p.idLibmuse).2)
      (hultimo : (procesarId s p.idLibmuse).1.listSegmento.getLast? = some segmento)
      (hwalk : recorerSegmentoEspacioLibre fuel c s₁.memoria segmento p.tam.toNat =
        some (respuesta, m))
      (hs' : s' = { s₁ with memoria := m }) : MallocEffect c s p ⟨UInt32.ofInt respuesta⟩ s'

theorem malloc_effect {c : Config} {s s' : Globals} {p : TMalloc} {r : TMallocOk}
    (h : MallocStep c s (p, r) s') : MallocEffect c s p r s' := by
  obtain ⟨fuel, l, h⟩ := h
  simp only [atenderMalloc] at h
  split at h
  · next hnone =>
      have hnuevo : (procesarId s p.idLibmuse).1.listSegmento = [] := by simpa using hnone
      simp only [Option.bind_eq_bind, Option.bind_eq_some_iff, Option.some.injEq,
        Prod.mk.injEq, Prod.exists] at h
      obtain ⟨ptr, segmento, s₂, hasignar, hr, hs'⟩ := h
      by_cases hlibre : existeMemoriaPararPaginas c (procesarId s p.idLibmuse).2
          (cantidadPaginasNecesarias c p.tam) = true
      · obtain ⟨n, m, hpos, hn, hptr, hpaginas, hs₂⟩ := asignarDirMemoria_of_existe hlibre hasignar
        rw [← hr, hptr]
        exact .assigned (m := m) rfl hnuevo hn hpos (hn ▸ hlibre) hpaginas
          (by rw [← hs', hs₂]; simp)
      · simp only [asignarDirMemoria, hlibre, Bool.false_eq_true, if_false, Option.some.injEq,
          Prod.mk.injEq] at hasignar
        obtain ⟨hptr, hsegmento, hs₂⟩ := hasignar
        rw [← hr, ← hptr]
        exact .refused rfl hnuevo (by simpa using hlibre) (by rw [← hs', ← hsegmento, ← hs₂])
  · next segmento hlast =>
      simp only [Option.bind_eq_bind, Option.bind_eq_some_iff, Option.some.injEq,
        Prod.mk.injEq, Prod.exists] at h
      obtain ⟨respuesta, m, hwalk, hr, hs'⟩ := h
      rw [← hr]
      exact .walked rfl hlast hwalk hs'.symm

/-! ## Runs of requests -/

/-- The tables are in lockstep, the page lists hold the taken entries once each, and those
of a segment are consecutive. -/
structure Paged (c : Config) (s : Globals) (k : ℕ) : Prop extends Lockstep c s k where
  perm : (paginas s.listaProcesos).Perm (desde 0 k)
  consecutive : ∀ nodo ∈ s.listaProcesos, ∀ segmento ∈ nodo.listSegmento,
    ∃ a n, segmento.listPaginas = desde a n

theorem paged_museInit (c : Config) (m : Mem) : Paged c (museInit c m) 0 := by
  have hrange : ∀ i : ℕ, i < c.entradas → 0 ≤ (i : ℤ) ∧ (i : ℤ) < c.cantidadPaginasTotales := by
    intro i hi
    unfold Config.entradas at hi
    omega
  refine ⟨⟨Nat.zero_le _, fun i hi => ?_, fun i hi => ?_, nofun⟩, .refl _, nofun⟩
  · simp [museInit, hrange i hi]
  · simp [museInit, hrange i hi]

namespace Paged

variable {c : Config} {s s' : Globals} {k : ℕ}

theorem procesarId (h : Paged c s k) (id : Int32) : Paged c (Muse.procesarId s id).2 k := by
  obtain ⟨-, hframes, hentries, -, hlista⟩ := procesarId_spec s id
  refine ⟨h.toLockstep.congr hframes hentries, paginas_procesarId s id ▸ h.perm, ?_⟩
  rcases hlista with hlista | ⟨-, -, hlista⟩ <;> rw [hlista]
  · exact h.consecutive
  · intro nodo hnodo segmento hsegmento
    rcases List.mem_append.mp hnodo with hnodo | hnodo
    · exact h.consecutive nodo hnodo segmento hsegmento
    · obtain rfl : nodo = crearNodo id := by simpa using hnodo
      cases hsegmento

/-- Adding a segment whose pages are the entries just taken. -/
theorem agregar (h : Paged c s k) {id : Int32} {segmento : NodoSegmento} {n : ℕ}
    (hid : ∃ nodo ∈ s.listaProcesos, nodo.id = id) (hlock : Lockstep c s' (k + n))
    (hpaginas : segmento.listPaginas = desde k n)
    (hlista : s'.listaProcesos = agregarSegmento id segmento s.listaProcesos) :
    Paged c s' (k + n) := by
  refine ⟨hlock, ?_, fun nodo hnodo seg hseg => ?_⟩
  · rw [hlista, desde_add, ← hpaginas]
    exact (paginas_agregarSegmento hid).trans (h.perm.append_right _)
  · rw [hlista] at hnodo
    rcases mem_agregarSegmento hnodo with hmem | ⟨-, nodo', hmem, -, hsegs⟩
    · exact h.consecutive nodo hmem seg hseg
    · rcases List.mem_append.mp (hsegs ▸ hseg) with hseg | hseg
      · exact h.consecutive nodo' hmem seg hseg
      · obtain rfl : seg = segmento := by simpa using hseg
        exact ⟨k, n, hpaginas⟩

theorem step (h : Paged c s k) {label : TMalloc × TMallocOk} (hstep : MallocStep c s label s') :
    ∃ k', Paged c s' k' := by
  obtain ⟨p, r⟩ := label
  have h₁ := h.procesarId p.idLibmuse
  have hid : ∃ nodo ∈ (Muse.procesarId s p.idLibmuse).2.listaProcesos, nodo.id = p.idLibmuse := by
    obtain ⟨-, -, -, hexiste, -⟩ := procesarId_spec s p.idLibmuse
    exact ⟨_, existeProcesoEnLista_spec hexiste⟩
  cases malloc_effect hstep with
  | refused hs₁ _ _ hs' =>
      subst hs₁ hs'
      exact ⟨k + 0, h₁.agregar hid (h₁.toLockstep.congr rfl rfl) rfl rfl⟩
  | @assigned s₁ _ n l segmento m hs₁ _ _ hpos hlibre hpaginas hs' =>
      subst hs₁
      have hroom : k + n ≤ c.entradas := by
        have := (h₁.existe_iff (show 0 < (n : ℤ) by omega)).mp hlibre
        omega
      obtain ⟨hlock, hdesde, -⟩ := h₁.toLockstep.asignarPaginas (l := l) hroom
      refine ⟨k + n, h₁.agregar hid ?_ (hpaginas.trans hdesde) ?_⟩ <;> rw [hs']
      exact hlock.congr rfl rfl
  | walked hs₁ _ _ hs' =>
      subst hs₁ hs'
      exact ⟨k, ⟨h₁.toLockstep.congr rfl rfl, h₁.perm, h₁.consecutive⟩⟩

theorem of_reachable {m : Mem} (hs : Reachable (MallocStep c) (museInit c m) s) :
    ∃ k, Paged c s k :=
  hs.invariant (P := fun s => ∃ k, Paged c s k) (fun _ _ _ ⟨_, h⟩ hstep => h.step hstep)
    ⟨0, paged_museInit c m⟩

end Paged

/-! ## The invariant in the terms of the tables -/

theorem countP_range (k n : ℕ) : (List.range n).countP (fun f => decide (k ≤ f)) = n - k := by
  induction n with
  | zero => simp
  | succ n ih =>
      rw [List.range_succ, List.countP_append, ih]
      by_cases hk : k ≤ n
      · simp [hk]
        omega
      · simp [hk]
        omega

namespace Paged

variable {c : Config} {s : Globals} {k : ℕ}

theorem frame_used_iff (h : Paged c s k) {f : ℕ} (hf : f < c.entradas) :
    s.vectorFrames f = false ↔ f < k := by
  rw [h.frames f hf]
  simp

/-- A frame is taken exactly if one taken entry holds it. -/
theorem frame_owner (h : Paged c s k) {f : ℕ} (hf : f < c.entradas) :
    s.vectorFrames f = false ↔ ∃! i : ℕ, i < c.entradas ∧
      (s.vectorAtributoPaginas i).libre = false ∧ (s.vectorAtributoPaginas i).frame = f := by
  have howner : ∀ i : ℕ, i < c.entradas → (s.vectorAtributoPaginas i).libre = false →
      (s.vectorAtributoPaginas i).frame = f → i = f ∧ f < k := by
    intro i hi hlibre hframe
    have hik : i < k := by
      rw [h.entries i hi] at hlibre
      simpa using hlibre
    rw [h.frame i hik] at hframe
    omega
  rw [h.frame_used_iff hf]
  constructor
  · intro hfk
    refine ⟨f, ⟨hf, ?_, h.frame f hfk⟩, fun i hi => (howner i hi.1 hi.2.1 hi.2.2).1⟩
    rw [h.entries f hf]
    simpa using hfk
  · rintro ⟨i, ⟨hi, hlibre, hframe⟩, -⟩
    exact (howner i hi hlibre hframe).2

theorem mem_paginas (h : Paged c s k) {x : ℤ} : x ∈ paginas s.listaProcesos ↔ 0 ≤ x ∧ x < k := by
  rw [h.perm.mem_iff, mem_desde]
  simp

/-- A page is one of one process. -/
theorem nodo_unico (h : Paged c s k) {nodo nodo' : NodoProceso} {i : ℤ}
    (hnodo : nodo ∈ s.listaProcesos) (hnodo' : nodo' ∈ s.listaProcesos)
    (hi : i ∈ nodo.listSegmento.flatMap NodoSegmento.listPaginas)
    (hi' : i ∈ nodo'.listSegmento.flatMap NodoSegmento.listPaginas) : nodo = nodo' := by
  have hnodup : (paginas s.listaProcesos).Nodup := h.perm.nodup_iff.mpr (nodup_desde 0 k)
  have hapart := (List.nodup_flatMap.mp hnodup).2
  have : Std.Symm (Function.onFun List.Disjoint fun nodo : NodoProceso =>
      nodo.listSegmento.flatMap NodoSegmento.listPaginas) := ⟨fun _ _ hdisjoint => hdisjoint.symm⟩
  by_contra hne
  exact hapart.forall hnodo hnodo' hne hi hi'

/-- A page entry is referenced once if it is taken and not at all if it is free. -/
theorem count_paginas (h : Paged c s k) {i : ℕ} (hi : i < c.entradas) :
    (paginas s.listaProcesos).count (i : ℤ)
      = if (s.vectorAtributoPaginas i).libre then 0 else 1 := by
  have hmem : (i : ℤ) ∈ desde 0 k ↔ ¬ k ≤ i := by
    rw [mem_desde]
    omega
  rw [h.perm.count_eq, (nodup_desde 0 k).count, h.entries i hi]
  by_cases hk : k ≤ i <;> simp [hmem, hk]

/-- The frames of a segment, in page order, are consecutive. -/
theorem frames_consecutive (h : Paged c s k) {nodo : NodoProceso} (hnodo : nodo ∈ s.listaProcesos)
    {segmento : NodoSegmento} (hsegmento : segmento ∈ nodo.listSegmento) :
    ∃ a n, segmento.listPaginas.map (fun i => (s.vectorAtributoPaginas i).frame) = desde a n := by
  obtain ⟨a, n, hpaginas⟩ := h.consecutive nodo hnodo segmento hsegmento
  refine ⟨a, n, ?_⟩
  rw [hpaginas, desde, List.map_map]
  refine List.map_congr_left fun i hi => ?_
  have hmem : ((a + i : ℕ) : ℤ) ∈ paginas s.listaProcesos :=
    List.mem_flatMap.mpr ⟨nodo, hnodo, List.mem_flatMap.mpr ⟨segmento, hsegmento, by
      rw [hpaginas]
      exact List.mem_map.mpr ⟨i, hi, rfl⟩⟩⟩
  have hlt := (h.mem_paginas.mp hmem).2
  exact h.frame (a + i) (by omega)

end Paged

/-- In every state that a run of `MALLOC`s reaches: a frame is taken exactly if one taken
page entry holds it; a taken entry is one page of one segment and a free one is none; the
taken frames are the first ones, and those of a segment are consecutive in page order; the
pre-check counts the free frames; and where it holds, every round of the assignment loop
finds a frame and an entry. -/
theorem malloc_keeps_tables {c : Config} {m : Mem} {s : Globals}
    (hs : Reachable (MallocStep c) (museInit c m) s) :
    (∀ f < c.entradas, s.vectorFrames f = false ↔ ∃! i : ℕ, i < c.entradas ∧
      (s.vectorAtributoPaginas i).libre = false ∧ (s.vectorAtributoPaginas i).frame = f) ∧
    (∀ i < c.entradas, (paginas s.listaProcesos).count (i : ℤ)
      = if (s.vectorAtributoPaginas i).libre then 0 else 1) ∧
    (∀ x ∈ paginas s.listaProcesos, 0 ≤ x ∧ x < c.entradas) ∧
    (∃ k ≤ c.entradas, ∀ f < c.entradas, s.vectorFrames f = false ↔ f < k) ∧
    (∀ nodo ∈ s.listaProcesos, ∀ segmento ∈ nodo.listSegmento, ∃ a n,
      segmento.listPaginas.map (fun i => (s.vectorAtributoPaginas i).frame) = desde a n) ∧
    (∀ cantidad : ℤ, 0 < cantidad → (existeMemoriaPararPaginas c s cantidad = true ↔
      cantidad ≤ (List.range c.entradas).countP fun f : ℕ => s.vectorFrames f)) ∧
    ∀ id cantidad l (i : ℕ), existeMemoriaPararPaginas c (procesarId s id).2 cantidad = true →
      i < cantidad →
      asignarFrameLibre c (asignarPaginas c ⟨(procesarId s id).2, [], l⟩ i).globals ≠ -1 ∧
      asignarIndiceVectorLibre c (asignarPaginas c ⟨(procesarId s id).2, [], l⟩ i).globals ≠ -1 := by
  obtain ⟨k, h⟩ := Paged.of_reachable hs
  have hle := h.le
  refine ⟨fun f hf => h.frame_owner hf, fun i hi => h.count_paginas hi, fun x hx => ?_,
    ⟨k, hle, fun f hf => h.frame_used_iff hf⟩, fun nodo hn seg hs => h.frames_consecutive hn hs,
    fun cantidad hpos => ?_, fun id cantidad l i hexiste hi => ?_⟩
  · have hx := h.mem_paginas.mp hx
    omega
  · have hcount : (List.range c.entradas).countP (fun f : ℕ => s.vectorFrames f) = c.entradas - k := by
      rw [← countP_range k c.entradas]
      refine List.countP_congr fun f hf => ?_
      rw [h.frames f (List.mem_range.mp hf)]
    rw [h.existe_iff hpos, hcount]
    omega
  · have h₁ := h.procesarId id
    have hroom := (h₁.existe_iff (by omega)).mp hexiste
    obtain ⟨hframe, hindice⟩ := h₁.toLockstep.asignaciones (l := l) (n := cantidad.toNat)
      (by omega) (i := i) (by omega)
    rw [hframe, hindice]
    omega

theorem malloc_keeps_tables_first : ∃ r s,
    MallocStep ⟨96, 32, 0, 0⟩ (museInit ⟨96, 32, 0, 0⟩ fun _ => 0) (⟨1, 7⟩, r) s ∧
    ∀ x ∈ paginas s.listaProcesos, 0 ≤ x ∧ x < 3 := by
  have hserved : (atenderMalloc 10 ⟨96, 32, 0, 0⟩ ⟨0, 0⟩ (museInit ⟨96, 32, 0, 0⟩ fun _ => 0)
      ⟨1, 7⟩).isSome = true := by decide +kernel
  obtain ⟨⟨r, s⟩, hs⟩ := Option.isSome_iff_exists.mp hserved
  have hstep : MallocStep ⟨96, 32, 0, 0⟩ (museInit ⟨96, 32, 0, 0⟩ fun _ => 0) (⟨1, 7⟩, r) s :=
    ⟨10, ⟨0, 0⟩, hs⟩
  obtain ⟨-, -, hpaginas, -⟩ := malloc_keeps_tables ((Reachable.refl _).step_right hstep)
  exact ⟨r, s, hstep, hpaginas⟩

end Threaders.Muse
