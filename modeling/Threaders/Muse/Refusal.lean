import Threaders.Muse.Isolation

/-!
# A `MALLOC` that is refused

`asignar_dir_memoria` finds out that there are not enough frames when the segment is already
made, and the request appends it to the process whatever the answer was.  From then on the
process has a segment, so that its next request walks the pages of one that has none.

## Main definitions

* `segmentos` — the segments of a process.
* `NoHayMemoria` — `existe_memoria_parar_paginas` is asked for the request, and answers false.
* `LeePaginaNull` — serving a `MALLOC` reads a page that does not exist.
* `MallocAtomico` — what a refusal should come to; `refused_malloc` says that it never does.
-/

namespace Threaders.Muse

open Lib Common

/-! ## The segments of a process -/

/-- The segments of a process, none of one that is not registered. -/
def segmentos (s : Globals) (id : Int32) : List NodoSegmento :=
  ((existeProcesoEnLista s id).map NodoProceso.listSegmento).getD []

section Segmentos
variable {s s' : Globals} {id : Int32}

theorem listSegmento_procesarId (s : Globals) (id : Int32) :
    (procesarId s id).1.listSegmento = segmentos s id := by
  unfold procesarId segmentos
  cases existeProcesoEnLista s id <;> rfl

theorem segmentos_congr (h : s'.listaProcesos = s.listaProcesos) (id : Int32) :
    segmentos s' id = segmentos s id := by
  rw [segmentos, segmentos, existeProcesoEnLista, existeProcesoEnLista, h]

/-- A node without segments at the end of the list changes the segments of no process. -/
theorem segmentos_procesarId (s : Globals) (id' id : Int32) :
    segmentos (procesarId s id').2 id = segmentos s id := by
  obtain ⟨-, -, -, -, h | ⟨-, -, h⟩⟩ := procesarId_spec s id'
  · exact segmentos_congr h id
  · rw [segmentos, segmentos, existeProcesoEnLista, existeProcesoEnLista, h, List.find?_append]
    cases s.listaProcesos.find? fun nodo => decide (nodo.id = id) with
    | some nodo => rfl
    | none =>
        by_cases hid : id' = id
        · simp [crearNodo, hid]
        · simp [crearNodo, hid]

theorem find?_agregarSegmento_self {procesos : List NodoProceso} {nodo : NodoProceso}
    (segmento : NodoSegmento) (h : procesos.find? (fun nodo => decide (nodo.id = id)) = some nodo) :
    (agregarSegmento id segmento procesos).find? (fun nodo => decide (nodo.id = id))
      = some { nodo with listSegmento := nodo.listSegmento ++ [segmento] } := by
  induction procesos with
  | nil => cases h
  | cons nodo' nodos ih =>
      rw [agregarSegmento]
      by_cases hid : nodo'.id = id
      · obtain rfl : nodo' = nodo := by simpa [List.find?_cons, hid] using h
        simp [hid]
      · simpa [List.find?_cons, hid] using ih (by simpa [List.find?_cons, hid] using h)

theorem find?_agregarSegmento_of_ne {procesos : List NodoProceso} {id' : Int32} (hne : id' ≠ id)
    (segmento : NodoSegmento) :
    (agregarSegmento id' segmento procesos).find? (fun nodo => decide (nodo.id = id))
      = procesos.find? fun nodo => decide (nodo.id = id) := by
  induction procesos with
  | nil => rfl
  | cons nodo nodos ih =>
      rw [agregarSegmento]
      by_cases hid' : nodo.id = id'
      · simp [hid', hne]
      · simp [List.find?_cons, hid', ih]

/-- A segment is added to its process. -/
theorem segmentos_agregarSegmento (hid : existeProcesoEnLista s id ≠ none)
    (segmento : NodoSegmento)
    (hlista : s'.listaProcesos = agregarSegmento id segmento s.listaProcesos) :
    segmentos s' id = segmentos s id ++ [segmento] := by
  obtain ⟨nodo, hnodo⟩ := Option.ne_none_iff_exists'.1 hid
  have hfind := find?_agregarSegmento_self segmento hnodo
  rw [segmentos, segmentos, hnodo, existeProcesoEnLista, hlista, hfind]
  rfl

/-- The others keep theirs. -/
theorem segmentos_agregarSegmento_of_ne {id' : Int32} (hne : id' ≠ id) {segmento : NodoSegmento}
    (hlista : s'.listaProcesos = agregarSegmento id' segmento s.listaProcesos) :
    segmentos s' id = segmentos s id := by
  rw [segmentos, segmentos, existeProcesoEnLista, hlista, find?_agregarSegmento_of_ne hne,
    existeProcesoEnLista]

end Segmentos

/-! ## What a refusal should come to -/

/-- The request is the first one of its process, so that `existe_memoria_parar_paginas` is
asked, and it answers false. -/
def NoHayMemoria (c : Config) (s : Globals) (p : TMalloc) : Prop :=
  segmentos s p.idLibmuse = [] ∧
    existeMemoriaPararPaginas c (procesarId s p.idLibmuse).2
      (cantidadPaginasNecesarias c p.tam) = false

instance (c : Config) (s : Globals) (p : TMalloc) : Decidable (NoHayMemoria c s p) :=
  inferInstanceAs (Decidable (_ ∧ _))

/-- The walk over a segment comes to a page for which `list_get` answers `NULL`. -/
def RecorridoLeeNull (c : Config) (m : Mem) (segmento : NodoSegmento) (memoriaReservar : ℕ) :
    Prop :=
  ∃ p, Visits (rondaSegmento c m segmento (limiteSegmento c segmento) memoriaReservar)
    ⟨0, 0, 0⟩ p ∧ listGet segmento.listPaginas p.pagina = none

/-- Serving the `MALLOC` reads a page that does not exist, in the walk over the last segment
of the process or in the one over the segment it is given. -/
def LeePaginaNull (c : Config) (s : Globals) (p : TMalloc) : Prop :=
  match (segmentos s p.idLibmuse).getLast? with
  | some segmento => RecorridoLeeNull c s.memoria segmento p.tam.toNat
  | none =>
      let s₁ := (procesarId s p.idLibmuse).2
      let n := cantidadPaginasNecesarias c p.tam
      existeMemoriaPararPaginas c s₁ n = true ∧ ∃ l,
        let a := asignarPaginas c ⟨s₁, [], l⟩ n.toNat
        RecorridoLeeNull c (cabeceras c s₁.memoria n p.tam a.locales)
          ⟨0, toI32 (toI32 (n * c.pagina) - 1), a.paginas⟩ 5

/-- The tables, the memory and the segments of every process are as they were. -/
structure SinCambios (s s' : Globals) : Prop where
  frames : s'.vectorFrames = s.vectorFrames
  atributos : s'.vectorAtributoPaginas = s.vectorAtributoPaginas
  memoria : s'.memoria = s.memoria
  segmentos : ∀ id, segmentos s' id = segmentos s id

/-- Serving the `MALLOC` changes nothing, and no later one of its process reads a page that
does not exist. -/
def MallocAtomico (c : Config) (s : Globals) (p : TMalloc) : Prop :=
  ∀ s', Atiende c s (.malloc p) s' → SinCambios s s' ∧
    ∀ es s'', Run (Atiende c) s' es s'' → ∀ tam, ¬ LeePaginaNull c s'' ⟨tam, p.idLibmuse⟩

/-! ## What it comes to -/

section Refusal
variable {c : Config} {s s' s'' : Globals} {p : TMalloc} {id : Int32}

theorem malloc_served (h : NoHayMemoria c s p) : ∃ s', Atiende c s (.malloc p) s' := by
  have hlast : (procesarId s p.idLibmuse).1.listSegmento.getLast? = none := by
    rw [listSegmento_procesarId, h.1]
    rfl
  have hserved : atenderMalloc 0 c ⟨0, 0⟩ s p = some (⟨UInt32.ofInt (-1)⟩,
      { (procesarId s p.idLibmuse).2 with
        listaProcesos := agregarSegmento p.idLibmuse crearNodoSegmento
          (procesarId s p.idLibmuse).2.listaProcesos }) := by
    simp only [atenderMalloc, hlast, asignarDirMemoria, h.2, Bool.false_eq_true, if_false]
    rfl
  exact ⟨_, atiende_malloc_iff.2 ⟨_, 0, ⟨0, 0⟩, hserved⟩⟩

/-- A request that is refused leaves its process a segment without pages. -/
theorem refused_effect (h : NoHayMemoria c s p) (hstep : Atiende c s (.malloc p) s') :
    s'.vectorFrames = s.vectorFrames ∧ s'.vectorAtributoPaginas = s.vectorAtributoPaginas ∧
    s'.memoria = s.memoria ∧ segmentos s' p.idLibmuse = [crearNodoSegmento] ∧
    ∀ id, id ≠ p.idLibmuse → segmentos s' id = segmentos s id := by
  obtain ⟨r, hstep⟩ := atiende_malloc_iff.1 hstep
  obtain ⟨hnuevo, hlleno⟩ := h
  obtain ⟨hmemoria, hframes, hatributos, hexiste, -⟩ := procesarId_spec s p.idLibmuse
  cases malloc_effect hstep with
  | refused hs₁ _ _ hs' =>
      subst hs₁ hs'
      refine ⟨hframes, hatributos, hmemoria, ?_, fun id hid => ?_⟩
      · rw [segmentos_agregarSegmento (by simp [hexiste]) crearNodoSegmento rfl,
          segmentos_procesarId, hnuevo]
        rfl
      · rw [segmentos_agregarSegmento_of_ne (Ne.symm hid) rfl, segmentos_procesarId]
  | assigned hs₁ _ hn _ hlibre =>
      subst hs₁
      rw [hn, hlibre] at hlleno
      cases hlleno
  | walked _ hultimo =>
      rw [listSegmento_procesarId, hnuevo] at hultimo
      cases hultimo

/-- The other requests register their process at most. -/
theorem segmentos_of_not_malloc {peticion : Package} (hstep : Atiende c s peticion s')
    (hother : ∀ p, peticion ≠ .malloc p) (id : Int32) : segmentos s' id = segmentos s id := by
  obtain ⟨-, -, hlista⟩ := tablas_of_not_malloc hstep hother
  rw [segmentos_congr hlista]
  cases peticion with
  | get p => exact segmentos_procesarId s p.idLibmuse id
  | copy p => exact segmentos_procesarId s p.selfId id
  | _ => rfl

/-- A `MALLOC` of a process whose last segment has no pages reads the first of them. -/
theorem leePaginaNull_of_nil {segmento : NodoSegmento}
    (hlast : (segmentos s id).getLast? = some segmento) (hnil : segmento.listPaginas = [])
    (tam : UInt32) : LeePaginaNull c s ⟨tam, id⟩ := by
  rw [LeePaginaNull, hlast]
  exact ⟨⟨0, 0, 0⟩, .refl, by rw [hnil]; rfl⟩

/-- Such a process keeps its segments: its own requests are never served, and those of the
others leave them alone. -/
theorem segmentos_of_atiende {segmento : NodoSegmento} {peticion : Package}
    (hlast : (segmentos s id).getLast? = some segmento) (hnil : segmento.listPaginas = [])
    (hstep : Atiende c s peticion s') : segmentos s' id = segmentos s id := by
  by_cases hmalloc : ∃ p, peticion = .malloc p
  · obtain ⟨p, rfl⟩ := hmalloc
    obtain ⟨r, hstep⟩ := atiende_malloc_iff.1 hstep
    -- a first request has no segment, and the walk over this one does not end
    have hid : p.idLibmuse ≠ id := by
      rintro rfl
      cases malloc_effect hstep with
      | refused _ hnuevo | assigned _ hnuevo =>
          rw [listSegmento_procesarId] at hnuevo
          simp [hnuevo] at hlast
      | walked _ hultimo hwalk =>
          rw [listSegmento_procesarId, hlast, Option.some.injEq] at hultimo
          subst hultimo
          exact listPaginas_ne_nil hwalk hnil
    cases malloc_effect hstep with
    | refused hs₁ _ _ hs' | assigned hs₁ _ _ _ _ _ hs' =>
        subst hs₁ hs'
        rw [segmentos_agregarSegmento_of_ne hid rfl, segmentos_procesarId]
    | walked hs₁ _ _ hs' =>
        subst hs₁ hs'
        exact (segmentos_congr rfl id).trans (segmentos_procesarId s p.idLibmuse id)
  · exact segmentos_of_not_malloc hstep (fun p hp => hmalloc ⟨p, hp⟩) id

/-- A refused request always leaves a segment behind, and from then on every `MALLOC` of its
process reads a page that does not exist. -/
theorem refused_malloc (h : NoHayMemoria c s p) :
    ¬ MallocAtomico c s p ∧ (∃ s', Atiende c s (.malloc p) s') ∧
    ∀ s', Atiende c s (.malloc p) s' →
      s'.vectorFrames = s.vectorFrames ∧ s'.vectorAtributoPaginas = s.vectorAtributoPaginas ∧
      s'.memoria = s.memoria ∧ (∀ id, id ≠ p.idLibmuse → segmentos s' id = segmentos s id) ∧
      segmentos s' p.idLibmuse ≠ segmentos s p.idLibmuse ∧
      ∀ es s'', Run (Atiende c) s' es s'' → ∀ tam, LeePaginaNull c s'' ⟨tam, p.idLibmuse⟩ := by
  have hserved := malloc_served h
  refine ⟨?_, hserved, fun s' hstep => ?_⟩
  · intro hatomico
    obtain ⟨s', hstep⟩ := hserved
    have hsegmentos := (hatomico s' hstep).1.segmentos p.idLibmuse
    rw [(refused_effect h hstep).2.2.2.1, h.1] at hsegmentos
    cases hsegmentos
  · obtain ⟨hframes, hatributos, hmemoria, hpropio, hotros⟩ := refused_effect h hstep
    refine ⟨hframes, hatributos, hmemoria, hotros, by simp [hpropio, h.1], ?_⟩
    intro es s'' hrun tam
    have hkept : segmentos s'' p.idLibmuse = [crearNodoSegmento] :=
      hrun.invariant (P := fun s => segmentos s p.idLibmuse = [crearNodoSegmento])
        (fun t e t' ht hstep' =>
          (segmentos_of_atiende (by rw [ht]; rfl) rfl hstep').trans ht) hpropio
    exact leePaginaNull_of_nil (by rw [hkept]; rfl) rfl tam

end Refusal

/-- Three frames, and a request for four. -/
theorem refused_malloc_cien : ¬ MallocAtomico ⟨96, 32, 0, 0⟩
    (museInit ⟨96, 32, 0, 0⟩ fun _ => 0) ⟨100, 1⟩ :=
  (refused_malloc (by decide)).1

/-- It leaves its process a segment without pages, and the next request reads the first. -/
theorem refused_malloc_not_atomic : ∃ s' : Globals,
    NoHayMemoria ⟨96, 32, 0, 0⟩ (museInit ⟨96, 32, 0, 0⟩ fun _ => 0) ⟨100, 1⟩ ∧
    Atiende ⟨96, 32, 0, 0⟩ (museInit ⟨96, 32, 0, 0⟩ fun _ => 0) (.malloc ⟨100, 1⟩) s' ∧
    segmentos (museInit ⟨96, 32, 0, 0⟩ fun _ => 0) 1 = [] ∧ segmentos s' 1 = [⟨0, 0, []⟩] ∧
    LeePaginaNull ⟨96, 32, 0, 0⟩ s' ⟨1, 1⟩ ∧
    ¬ MallocAtomico ⟨96, 32, 0, 0⟩ (museInit ⟨96, 32, 0, 0⟩ fun _ => 0) ⟨100, 1⟩ := by
  have hlleno : NoHayMemoria ⟨96, 32, 0, 0⟩ (museInit ⟨96, 32, 0, 0⟩ fun _ => 0) ⟨100, 1⟩ := by
    decide
  obtain ⟨s', hstep⟩ := malloc_served hlleno
  have hpropio : segmentos s' 1 = [crearNodoSegmento] := (refused_effect hlleno hstep).2.2.2.1
  have hnull : LeePaginaNull ⟨96, 32, 0, 0⟩ s' ⟨1, 1⟩ :=
    leePaginaNull_of_nil (by rw [hpropio]; rfl) rfl 1
  exact ⟨s', hlleno, hstep, rfl, hpropio, hnull,
    fun hatomico => (hatomico s' hstep).2 [] s' (.nil s') 1 hnull⟩

end Threaders.Muse
