import Threaders.Lib.Arena
import Threaders.Muse.Heap
import Threaders.Muse.Refusal

/-!
# Whose pages they are

Of all that a client sends, only its first `MALLOC` moves the page tables: it is given the next
entries with the next frames, or a segment without pages where there are not enough.  `MEMFREE`
gives none back, and what stands in the memory decides nothing here.  So the tables and the page
lists are those of an arena that takes the same requests.

## Main definitions

* `reparto` — what a request is to the arena.
* `Refleja` — the tables and the arena.
-/

namespace Threaders.Muse

open Lib Common

/-- What a request is to the arena: a process comes, or asks for its pages. -/
def reparto (c : Config) (r : Arena Int32 c.entradas) : Package → Arena Int32 c.entradas
  | .malloc p => r.ask p.idLibmuse (cantidadPaginasNecesarias c p.tam).toNat
  | .get p => r.enter p.idLibmuse
  | .copy p => r.enter p.selfId
  | _ => r

/-- The arena after some requests. -/
def repartos (c : Config) (r : Arena Int32 c.entradas) (peticiones : List Package) :
    Arena Int32 c.entradas := peticiones.foldl (reparto c) r

/-- The taken entries are the first ones, each with the frame of its number; the processes are
the owners; and their page lists the spans of their grants. -/
structure Refleja (c : Config) (s : Globals) (r : Arena Int32 c.entradas) : Prop where
  lockstep : Lockstep c s r.taken
  procesos : s.listaProcesos.map NodoProceso.id = r.owners
  paginas : ∀ id, (segmentos s id).map NodoSegmento.listPaginas =
    (r.spansOf id).map fun span => desde span.1 span.2

theorem refleja_museInit (c : Config) (m : Mem) : Refleja c (museInit c m) Arena.empty where
  lockstep := (paged_museInit c m).toLockstep
  procesos := rfl
  paginas _ := rfl

section Refleja
variable {c : Config} {s s' : Globals} {r : Arena Int32 c.entradas} {id : Int32}
  {peticion : Package}

theorem mem_owners_iff (h : Refleja c s r) : id ∈ r.owners ↔ existeProcesoEnLista s id ≠ none := by
  rw [← h.procesos, existeProcesoEnLista, List.mem_map, Ne, List.find?_eq_none]
  push Not
  simp

theorem segmentos_eq_nil_iff (h : Refleja c s r) :
    segmentos s id = [] ↔ id ∉ r.grants.map Prod.fst := by
  rw [← Arena.spansOf_eq_nil_iff, ← List.map_eq_nil_iff (f := NodoSegmento.listPaginas),
    h.paginas, List.map_eq_nil_iff]

/-- The memory decides nothing. -/
theorem Refleja.congr (h : Refleja c s r) (hframes : s'.vectorFrames = s.vectorFrames)
    (hatributos : s'.vectorAtributoPaginas = s.vectorAtributoPaginas)
    (hlista : s'.listaProcesos = s.listaProcesos) : Refleja c s' r where
  lockstep := h.lockstep.congr hframes hatributos
  procesos := hlista ▸ h.procesos
  paginas id := segmentos_congr hlista id ▸ h.paginas id

/-- A process is registered. -/
theorem Refleja.enter (h : Refleja c s r) (id : Int32) :
    Refleja c (procesarId s id).2 (r.enter id) := by
  obtain ⟨-, hframes, hatributos, -, hlista⟩ := procesarId_spec s id
  have htaken : (r.enter id).taken = r.taken := by
    rw [Arena.taken, Arena.taken, Arena.grants_enter]
  refine ⟨htaken ▸ h.lockstep.congr hframes hatributos, ?_, fun id' => ?_⟩
  · rw [Arena.owners_enter, ← h.procesos]
    cases hexiste : existeProcesoEnLista s id with
    | some nodo =>
        have hmem : id ∈ r.owners := (mem_owners_iff h).mpr (by simp [hexiste])
        rw [if_pos (h.procesos ▸ hmem)]
        simp [procesarId, hexiste]
    | none =>
        have hmem : id ∉ r.owners := fun hmem => (mem_owners_iff h).mp hmem hexiste
        rw [if_neg (h.procesos ▸ hmem)]
        simp [procesarId, hexiste, crearNodo]
  · rw [segmentos_procesarId, h.paginas, Arena.spansOf_congr (Arena.grants_enter r id)]

theorem map_id_agregarSegmento (id : Int32) (segmento : NodoSegmento)
    (procesos : List NodoProceso) :
    (agregarSegmento id segmento procesos).map NodoProceso.id = procesos.map NodoProceso.id := by
  induction procesos with
  | nil => rfl
  | cons nodo nodos ih =>
      rw [agregarSegmento]
      split
      · rfl
      · rw [List.map_cons, ih, List.map_cons]

/-- A first request is given a segment with the pages that the arena grants. -/
theorem Refleja.ask (h : Refleja c s r) {s₁ : Globals} {n : ℕ} {segmento : NodoSegmento}
    (hs₁ : s₁ = (procesarId s id).2) (hnuevo : segmentos s id = [])
    (hlock : Lockstep c s' (r.taken + r.share n))
    (hpaginas : segmento.listPaginas = desde r.taken (r.share n))
    (hlista : s'.listaProcesos = agregarSegmento id segmento s₁.listaProcesos) :
    Refleja c s' (r.ask id n) := by
  have hnot := (segmentos_eq_nil_iff h).mp hnuevo
  have hexiste : existeProcesoEnLista (procesarId s id).2 id ≠ none := by
    rw [(procesarId_spec s id).2.2.2.1]
    exact Option.some_ne_none _
  subst hs₁
  refine ⟨?_, ?_, fun id' => ?_⟩
  · rw [Arena.taken, Arena.grants_ask_of_not_mem hnot, List.map_append, List.sum_append]
    exact hlock
  · rw [hlista, map_id_agregarSegmento, (h.enter id).procesos, Arena.owners_ask]
  · rcases eq_or_ne id' id with rfl | hne
    · rw [segmentos_agregarSegmento hexiste segmento hlista, segmentos_procesarId, hnuevo,
        Arena.spansOf_ask_self hnot]
      simp [hpaginas]
    · rw [segmentos_agregarSegmento_of_ne hne.symm hlista, segmentos_procesarId,
        Arena.spansOf_ask_of_ne hne, h.paginas]

/-- A `MALLOC` is answered with the next pages, without pages, or out of those there are. -/
theorem Refleja.malloc (h : Refleja c s r) {p : TMalloc} (hstep : Atiende c s (.malloc p) s') :
    Refleja c s' (reparto c r (.malloc p)) := by
  obtain ⟨res, hstep⟩ := atiende_malloc_iff.mp hstep
  have h₁ := h.enter p.idLibmuse
  have htaken : (r.enter p.idLibmuse).taken = r.taken := by
    rw [Arena.taken, Arena.taken, Arena.grants_enter]
  have hlock₁ := htaken ▸ h₁.lockstep
  cases malloc_effect hstep with
  | refused hs₁ hnuevo hlleno hs' =>
      rw [listSegmento_procesarId] at hnuevo
      have hshare : r.share (cantidadPaginasNecesarias c p.tam).toNat = 0 := by
        unfold Arena.share
        split
        · next hroom =>
            by_contra hne
            have hpos : 0 < cantidadPaginasNecesarias c p.tam := by omega
            have hexiste := (hlock₁.existe_iff hpos).mpr (by omega)
            rw [← hs₁, hlleno] at hexiste
            cases hexiste
        · rfl
      subst hs' hs₁
      exact h.ask rfl hnuevo (by rw [hshare]; exact hlock₁.congr rfl rfl) (by rw [hshare]; rfl) rfl
  | @assigned s₁ _ n l segmento m hs₁ hnuevo hn hpos hlibre hpaginas hs' =>
      rw [listSegmento_procesarId] at hnuevo
      subst hs₁
      have hroom : r.taken + n ≤ c.entradas := by
        have hroom := (hlock₁.existe_iff (show 0 < (n : ℤ) by omega)).mp hlibre
        omega
      have hshare : r.share (cantidadPaginasNecesarias c p.tam).toNat = n := by
        rw [hn, Int.toNat_natCast, Arena.share, if_pos hroom]
      obtain ⟨hlock, hdesde, -⟩ := hlock₁.asignarPaginas (l := l) hroom
      subst hs'
      exact h.ask rfl hnuevo (by rw [hshare]; exact hlock.congr rfl rfl)
        (by rw [hshare, hpaginas, hdesde]) rfl
  | walked hs₁ hultimo _ hs' =>
      rw [listSegmento_procesarId] at hultimo
      have hmem : p.idLibmuse ∈ r.grants.map Prod.fst := by
        by_contra hnot
        rw [(segmentos_eq_nil_iff h).mpr hnot] at hultimo
        cases hultimo
      have hask : reparto c r (.malloc p) = r := dif_pos hmem
      have henter : r.enter p.idLibmuse = r := dif_pos (r.entered _ hmem)
      rw [henter] at h₁
      rw [hask]
      subst hs' hs₁
      exact h₁.congr rfl rfl rfl

/-- Every request does to the tables what it does to the arena. -/
theorem Refleja.step (h : Refleja c s r) (hstep : Atiende c s peticion s') :
    Refleja c s' (reparto c r peticion) := by
  by_cases hmalloc : ∃ p, peticion = .malloc p
  · obtain ⟨p, rfl⟩ := hmalloc
    exact h.malloc hstep
  · have hother : ∀ p, peticion ≠ .malloc p := fun p hp => hmalloc ⟨p, hp⟩
    obtain ⟨hframes, hatributos, hlista⟩ := tablas_of_not_malloc hstep hother
    refine Refleja.congr (s := registrado s peticion) ?_ hframes hatributos hlista
    cases peticion with
    | malloc p => exact absurd rfl (hother p)
    | get p => exact h.enter p.idLibmuse
    | copy p => exact h.enter p.selfId
    | _ => exact h

theorem Refleja.run {peticiones : List Package} (h : Refleja c s r)
    (hrun : Run (Atiende c) s peticiones s') : Refleja c s' (repartos c r peticiones) := by
  induction hrun generalizing r with
  | nil => exact h
  | cons hstep _ ih => exact ih (h.step hstep)

end Refleja

/-! ## Runs -/

section Arena
variable {c : Config}

/-- No request takes a grant back. -/
theorem grants_prefix_reparto (r : Arena Int32 c.entradas) (peticion : Package) :
    r.grants <+: (reparto c r peticion).grants := by
  cases peticion with
  | malloc p => exact Arena.grants_prefix_ask ..
  | get p => exact (Arena.grants_enter r p.idLibmuse).symm ▸ List.prefix_rfl
  | copy p => exact (Arena.grants_enter r p.selfId).symm ▸ List.prefix_rfl
  | _ => exact List.prefix_rfl

theorem grants_prefix_repartos (r : Arena Int32 c.entradas) (peticiones : List Package) :
    r.grants <+: (repartos c r peticiones).grants := by
  induction peticiones generalizing r with
  | nil => exact List.prefix_rfl
  | cons peticion peticiones ih => exact (grants_prefix_reparto r peticion).trans (ih _)

end Arena

/-- **Whose pages they are.**  In every state that the server reaches with requests of any kind,
the processes, the page lists and both page tables are those of the arena that has taken the same
requests, whatever the memory holds and whatever was answered: the taken frames are the first
ones, each process has one segment at most, and its pages are the span of its grant.  And in every
later state they have what they have now. -/
theorem tables_follow_requests {c : Config} {m : Mem} {peticiones : List Package} {s : Globals}
    (h : Run (Atiende c) (museInit c m) peticiones s) : ∃ r : Arena Int32 c.entradas,
    r = repartos c Arena.empty peticiones ∧
    s.listaProcesos.map NodoProceso.id = r.owners ∧
    (∀ id, (segmentos s id).map NodoSegmento.listPaginas =
      (r.spansOf id).map fun span => desde span.1 span.2) ∧
    (∀ id, (segmentos s id).length ≤ 1) ∧
    (∀ i < c.entradas, s.vectorFrames i = decide (r.taken ≤ i) ∧
      (s.vectorAtributoPaginas i).libre = decide (r.taken ≤ i)) ∧
    (∀ i < r.taken, (s.vectorAtributoPaginas i).frame = i) ∧
    ∀ peticiones' s', Run (Atiende c) s peticiones' s' →
      r.grants <+: (repartos c r peticiones').grants ∧
      ∀ id, segmentos s id ≠ [] → (segmentos s' id).map NodoSegmento.listPaginas =
        (segmentos s id).map NodoSegmento.listPaginas := by
  have hs := (refleja_museInit c m).run h
  have hlength : ∀ {s : Globals} {r : Arena Int32 c.entradas}, Refleja c s r →
      ∀ id, (segmentos s id).length = (r.spansOf id).length := fun hs id => by
    rw [← List.length_map (f := NodoSegmento.listPaginas), hs.paginas, List.length_map]
  refine ⟨_, rfl, hs.procesos, hs.paginas, fun id => ?_,
    fun i hi => ⟨hs.lockstep.frames i hi, hs.lockstep.entries i hi⟩, hs.lockstep.frame,
    fun peticiones' s' hrun => ⟨grants_prefix_repartos _ _, fun id hne => ?_⟩⟩
  · rw [hlength hs]
    exact Arena.length_spansOf_le _ id
  · have hmem := not_imp_comm.mp (segmentos_eq_nil_iff hs).mpr hne
    have hspans := Arena.spansOf_of_prefix (grants_prefix_repartos _ peticiones') hmem
    rw [(hs.run hrun).paginas, hs.paginas, hspans]

/-- Five bytes for the first process, and the second one reads a word. -/
theorem tables_follow_requests_cinco : ∃ (s : Globals) (r : Arena Int32 3),
    Run (Atiende ⟨96, 32, 0, 0⟩) (museInit ⟨96, 32, 0, 0⟩ fun _ => 0)
      [.malloc ⟨5, 1⟩, .get ⟨0, 2, 4⟩] s ∧
    r.owners = [1, 2] ∧ r.grants = [(1, 1)] ∧ s.listaProcesos.map NodoProceso.id = r.owners ∧
    ∀ i : ℕ, i < 3 → s.vectorFrames i = decide (1 ≤ i) := by
  obtain ⟨s, hmalloc, -⟩ := malloc_cinco
  have hrun : Run (Atiende ⟨96, 32, 0, 0⟩) (museInit ⟨96, 32, 0, 0⟩ fun _ => 0)
      [.malloc ⟨5, 1⟩, .get ⟨0, 2, 4⟩] (procesarId s 2).2 := by
    refine .cons (t := s) (atiende_malloc_iff.mpr ⟨_, 200, _, hmalloc⟩) (.single ?_)
    exact ⟨0, ⟨0, fun _ => 0⟩, ⟨0, 0⟩, _, (atenderGet_eq ..).trans (if_pos (by decide))⟩
  obtain ⟨r, hr, hprocesos, -, -, hframes, -⟩ := tables_follow_requests hrun
  have howners : r.owners = [1, 2] := by
    rw [hr]
    decide
  have hgrants : r.grants = [(1, 1)] := by
    rw [hr]
    decide
  refine ⟨_, r, hrun, howners, hgrants, hprocesos, fun i hi => ?_⟩
  rw [(hframes i hi).1, Arena.taken, hgrants]
  rfl

end Threaders.Muse
