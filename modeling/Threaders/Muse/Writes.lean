import Threaders.Muse.Frames
import Threaders.Muse.Walk

/-!
# Where a `MALLOC` writes

A request writes headers only: a first one the two behind the assignment loop, those of a
block that the walk over the segment cuts, and the last one; a later one those of a block that
the walk cuts.  They are listed here with their addresses, as far as the request gets, whether
or not it is answered; where it is, `memoria` afterwards is `memoria` before with the list
applied to it.

The pre-check counts the frames of the swap space as well, and no address is compared with
the size of `memoria`.  `Dentro` says of a request what keeps it inside.

## Main definitions

* `escriturasMalloc`, `aplicar` — the headers a request writes.
* `LimiteFisico` — all frames and all bytes written are in the real memory.
* `Dentro` — the condition on a request.
* `physical_bound` — the property, of runs whose requests meet it.
-/

namespace Threaders.Muse

open Lib Common

/-! ## The headers written -/

/-- Write headers, one after the other. -/
def aplicar (m : Mem) : List Cabecera → Mem
  | [] => m
  | w :: ws => aplicar (escribirHeap m w.1 w.2) ws

/-- Those of a block that is cut. -/
def escriturasCortar (memoriaReservar : ℕ) : Option Cabecera → List Cabecera
  | none => []
  | some b => [(b.1, ⟨memoriaReservar, false⟩),
      (b.1 + 5 + memoriaReservar, ⟨(toU32 (toI32 b.2.size - memoriaReservar - 5)).toNat, true⟩)]

/-- Those behind the assignment loop. -/
def escriturasCabeceras (c : Config) (cantidad : ℤ) (memoriaReservar : UInt32) (l : Locales) :
    List Cabecera :=
  [(dirPrimera c l, ⟨memoriaReservar.toNat, false⟩),
    (dirProximaEstructura c cantidad memoriaReservar l,
      ⟨(toU32 (bytesSobran c cantidad memoriaReservar - 5 - 1)).toNat, true⟩)]

/-- The one written last. -/
def escrituraFinal (c : Config) (cantidad : ℤ) (l : Locales) : Cabecera :=
  (5 + dirPrimera c l + 5, ⟨(toU32 (toI32 (cantidad * c.pagina) - 5 - 5 - 5 - 1)).toNat, true⟩)

/-- The segment a first request is given. -/
def segmentoNuevo (c : Config) (cantidad : ℤ) (paginas : List ℤ) : NodoSegmento :=
  ⟨0, toI32 (toI32 (cantidad * c.pagina) - 1), paginas⟩

/-- Those of the walk over a segment. -/
def escriturasRecorrido (fuel : ℕ) (c : Config) (m : Mem) (segmento : NodoSegmento)
    (memoriaReservar : ℕ) : List Cabecera :=
  match buscarSegmento fuel c m segmento memoriaReservar with
  | none => []
  | some b => escriturasCortar memoriaReservar b

/-- Those of `asignar_dir_memoria`. -/
def escriturasAsignar (fuel : ℕ) (c : Config) (l : Locales) (s : Globals)
    (memoriaReservar : UInt32) : List Cabecera :=
  let cantidad := cantidadPaginasNecesarias c memoriaReservar
  if existeMemoriaPararPaginas c s cantidad then
    let a := asignarPaginas c ⟨s, [], l⟩ cantidad.toNat
    let m := cabeceras c s.memoria cantidad memoriaReservar a.locales
    let segmento := segmentoNuevo c cantidad a.paginas
    escriturasCabeceras c cantidad memoriaReservar a.locales ++
      if c.EnMemoria (dirPrimera c a.locales) 5 ∧
          c.EnMemoria (dirProximaEstructura c cantidad memoriaReservar a.locales) 5 then
        escriturasRecorrido fuel c m segmento 5 ++
          if (recorerSegmentoEspacioLibre fuel c m segmento 5).isSome then
            [escrituraFinal c cantidad a.locales]
          else []
      else []
  else []

/-- Those of a request. -/
def escriturasMalloc (fuel : ℕ) (c : Config) (l : Locales) (s : Globals) (p : TMalloc) :
    List Cabecera :=
  let (nodoProceso, s) := procesarId s p.idLibmuse
  match nodoProceso.listSegmento.getLast? with
  | none => escriturasAsignar fuel c l s p.tam
  | some segmento => escriturasRecorrido fuel c s.memoria segmento p.tam.toNat

section Writes
variable {c : Config} {m : Mem} {s s' : Globals} {l : Locales} {p : TMalloc} {r : TMallocOk}
  {fuel : ℕ}

theorem aplicar_append (ws vs : List Cabecera) :
    aplicar m (ws ++ vs) = aplicar (aplicar m ws) vs := by
  induction ws generalizing m with
  | nil => rfl
  | cons w ws ih => exact ih

theorem aplicar_cortar (memoriaReservar : ℕ) (b : Option Cabecera) :
    aplicar m (escriturasCortar memoriaReservar b) = cortar m memoriaReservar b := by
  cases b <;> rfl

theorem aplicar_cabeceras (cantidad : ℤ) (memoriaReservar : UInt32) :
    aplicar m (escriturasCabeceras c cantidad memoriaReservar l)
      = cabeceras c m cantidad memoriaReservar l := rfl

theorem aplicar_final (cantidad : ℤ) :
    aplicar m [escrituraFinal c cantidad l] = cabeceraFinal c m cantidad l := rfl

/-- All segments start at the logical address 0. -/
def BaseCero (s : Globals) : Prop :=
  ∀ nodo ∈ s.listaProcesos, ∀ segmento ∈ nodo.listSegmento, segmento.base = 0

theorem BaseCero.procesarId (h : BaseCero s) (id : Int32) :
    BaseCero (Muse.procesarId s id).2 := by
  intro nodo hnodo segmento hsegmento
  obtain ⟨-, -, -, -, hlista | ⟨-, -, hlista⟩⟩ := procesarId_spec s id <;> rw [hlista] at hnodo
  · exact h nodo hnodo segmento hsegmento
  · rcases List.mem_append.1 hnodo with hnodo | hnodo
    · exact h nodo hnodo segmento hsegmento
    · obtain rfl : nodo = crearNodo id := by simpa using hnodo
      cases hsegmento

theorem BaseCero.agregar (h : BaseCero s) {id : Int32} {segmento : NodoSegmento}
    (hbase : segmento.base = 0)
    (hlista : s'.listaProcesos = agregarSegmento id segmento s.listaProcesos) : BaseCero s' := by
  intro nodo hnodo seg hseg
  rw [hlista] at hnodo
  rcases mem_agregarSegmento hnodo with hmem | ⟨-, nodo', hmem, -, hsegs⟩
  · exact h nodo hmem seg hseg
  · rcases List.mem_append.1 (hsegs ▸ hseg) with hseg | hseg
    · exact h nodo' hmem seg hseg
    · obtain rfl : seg = segmento := by simpa using hseg
      exact hbase

/-- Any request leaves the segments at 0 that are there. -/
theorem BaseCero.registrado (h : BaseCero s) (peticion : Package) :
    BaseCero (Muse.registrado s peticion) := by
  cases peticion with
  | get p => exact h.procesarId p.idLibmuse
  | copy p => exact h.procesarId p.selfId
  | _ => exact h

/-- What `asignar_dir_memoria` leaves in `memoria` is what it lists. -/
theorem memoria_asignar {ptr : ℤ} {segmento : NodoSegmento} {tam : UInt32}
    (h : asignarDirMemoria fuel c l s tam = some (ptr, segmento, s')) :
    segmento.base = 0 ∧ s'.listaProcesos = s.listaProcesos ∧
      (existeMemoriaPararPaginas c s (cantidadPaginasNecesarias c tam) = true →
        segmento = segmentoNuevo c (cantidadPaginasNecesarias c tam)
          (asignarPaginas c ⟨s, [], l⟩ (cantidadPaginasNecesarias c tam).toNat).paginas) ∧
      s'.memoria = aplicar s.memoria (escriturasAsignar fuel c l s tam) := by
  by_cases hexiste : existeMemoriaPararPaginas c s (cantidadPaginasNecesarias c tam) = true
  · obtain ⟨hprimera, hproxima, -, rfl, -, respuesta, m, hwalk, rfl⟩ :=
      asignarDirMemoria_eq_some rfl rfl hexiste h
    unfold escriturasAsignar
    rw [if_pos hexiste]
    obtain ⟨n, hn⟩ : ∃ n, n = (cantidadPaginasNecesarias c tam).toNat := ⟨_, rfl⟩
    rw [← hn] at hprimera hproxima hwalk ⊢
    have hlista := listaProcesos_asignarPaginas (c := c) (s := s) (l := l) (n := n)
    generalize asignarPaginas c ⟨s, [], l⟩ n = a at hprimera hproxima hwalk hlista ⊢
    obtain ⟨b, b', hb, -, rfl, -⟩ := recorer_eq_some (by rfl) hwalk
    refine ⟨rfl, hlista, fun _ => rfl, ?_⟩
    have hdentro := And.intro hprimera hproxima
    have hvuelve : (recorerSegmentoEspacioLibre fuel c
        (cabeceras c s.memoria (cantidadPaginasNecesarias c tam) tam a.locales)
        (segmentoNuevo c (cantidadPaginasNecesarias c tam) a.paginas) 5).isSome = true := by
      rw [segmentoNuevo, hwalk]
      rfl
    have hcorte : escriturasRecorrido fuel c
        (cabeceras c s.memoria (cantidadPaginasNecesarias c tam) tam a.locales)
        (segmentoNuevo c (cantidadPaginasNecesarias c tam) a.paginas) 5 = escriturasCortar 5 b := by
      rw [escriturasRecorrido, segmentoNuevo, hb]
    simp only [if_pos hdentro, if_pos hvuelve, hcorte]
    rw [aplicar_append, aplicar_append, aplicar_cabeceras, aplicar_cortar, aplicar_final]
  · unfold asignarDirMemoria at h
    rw [if_neg hexiste, Option.some.injEq, Prod.mk.injEq, Prod.mk.injEq] at h
    obtain ⟨-, rfl, rfl⟩ := h
    unfold escriturasAsignar
    rw [if_neg hexiste]
    exact ⟨rfl, rfl, fun h => absurd h hexiste, rfl⟩

/-- What a request that is answered leaves in `memoria` is what it lists. -/
theorem memoria_malloc (hbase : BaseCero s) (h : atenderMalloc fuel c l s p = some (r, s')) :
    BaseCero s' ∧ s'.memoria = aplicar s.memoria (escriturasMalloc fuel c l s p) := by
  have hbase₁ := hbase.procesarId p.idLibmuse
  obtain ⟨hmemoria, -, -, hexiste, -⟩ := procesarId_spec s p.idLibmuse
  rw [← hmemoria]
  unfold atenderMalloc at h
  unfold escriturasMalloc
  generalize procesarId s p.idLibmuse = nodo at h hbase₁ hexiste ⊢
  obtain ⟨nodo, s₁⟩ := nodo
  simp only at h hbase₁ hexiste ⊢
  cases hlast : nodo.listSegmento.getLast? with
  | none =>
      simp only [hlast, Option.bind_eq_bind, Option.bind_eq_some_iff, Option.some.injEq,
        Prod.mk.injEq, Prod.exists] at h
      obtain ⟨ptr, segmento, s₂, hasignar, -, rfl⟩ := h
      obtain ⟨hcero, hlista, -, hws⟩ := memoria_asignar hasignar
      exact ⟨hbase₁.agregar hcero (by rw [hlista]), hws⟩
  | some segmento =>
      simp only [hlast, Option.bind_eq_bind, Option.bind_eq_some_iff, Option.some.injEq,
        Prod.mk.injEq, Prod.exists] at h
      obtain ⟨respuesta, m, hwalk, -, rfl⟩ := h
      have hcero := hbase₁ nodo (existeProcesoEnLista_spec hexiste).1 segmento
        (List.mem_of_getLast? hlast)
      obtain ⟨b, b', hb, -, rfl, -⟩ := recorer_eq_some hcero hwalk
      refine ⟨hbase₁, ?_⟩
      simp only [escriturasRecorrido, hb]
      rw [aplicar_cortar]

theorem BaseCero.atiende (h : BaseCero s) {peticion : Package}
    (hstep : Atiende c s peticion s') : BaseCero s' := by
  by_cases hmalloc : ∃ p, peticion = .malloc p
  · obtain ⟨p, rfl⟩ := hmalloc
    obtain ⟨r, fuel, l, hserved⟩ := atiende_malloc_iff.1 hstep
    exact (memoria_malloc h hserved).1
  · obtain ⟨-, -, hlista⟩ := tablas_of_not_malloc hstep fun p hp => hmalloc ⟨p, hp⟩
    intro nodo hnodo
    exact h.registrado peticion nodo (hlista ▸ hnodo)

end Writes

/-! ## The bound -/

/-- The frames of the page entries in use are frames of `memoria`. -/
def MarcosReales (c : Config) (s : Globals) : Prop :=
  ∀ i : ℕ, i < c.entradas → (s.vectorAtributoPaginas i).libre = false →
    ((s.vectorAtributoPaginas i).frame + 1) * c.pagina ≤ c.memorySize.toInt

/-- The frames that a first request takes are frames of `memoria`, whether or not it is
answered. -/
def AsignaDentro (c : Config) (s : Globals) (p : TMalloc) : Prop :=
  let (nodoProceso, s) := procesarId s p.idLibmuse
  let cantidad := cantidadPaginasNecesarias c p.tam
  nodoProceso.listSegmento = [] → existeMemoriaPararPaginas c s cantidad = true →
    ∀ l, MarcosReales c (asignarPaginas c ⟨s, [], l⟩ cantidad.toNat).globals

/-- Whatever serving the request writes is in `memoria`, whether or not it is answered; and if
it is, nothing else is written. -/
def EscribeDentro (c : Config) (s : Globals) (p : TMalloc) : Prop :=
  ∀ fuel l, (∀ w ∈ escriturasMalloc fuel c l s p, c.EnMemoria w.1 5) ∧
    ∀ r s', atenderMalloc fuel c l s p = some (r, s') →
      s'.memoria = aplicar s.memoria (escriturasMalloc fuel c l s p)

/-- All along a sequence of requests, the last of which need not be answered, the frames in use
and the bytes written are in `memoria`. -/
def LimiteFisico (c : Config) (m : Mem) (labels : List (TMalloc × TMallocOk)) : Prop :=
  Along (MallocStep c) (fun _ s => MarcosReales c s) (museInit c m) labels ∧
    EachStep (MallocStep c) (fun s label => AsignaDentro c s label.1 ∧ EscribeDentro c s label.1)
      (museInit c m) labels

/-- The walk over the segment reads in `memoria` only (what it would find behind it, and cut
there, is undefined), and the header behind the bytes reserved of a block that it cuts ends in
it. -/
structure CorteDentro (c : Config) (m : Mem) (segmento : NodoSegmento) (memoriaReservar : ℕ) :
    Prop where
  lee : ∀ offset, ComesTo (leerSegmento c m segmento) siguiente (hueco memoriaReservar)
    (limiteSegmento c segmento) 0 offset → ∀ nroFrame,
      listGet segmento.listPaginas (posicion c segmento.base offset).pagina = some nroFrame →
        c.EnMemoria (direccion c nroFrame (posicion c segmento.base offset)) 5
  corta : ∀ b, Finds (leerSegmento c m segmento) siguiente (hueco memoriaReservar)
    (limiteSegmento c segmento) 0 b → b.1 + 5 + memoriaReservar + 5 ≤ c.memorySize.toInt

/-- A first request stays inside, where `k` frames are taken and it needs `n` pages: one or more
and all of them frames of `memoria`; the header behind its block ends in `memoria`, and so does
the one written last; and so does the block that is cut. -/
structure PrimeraDentro (c : Config) (m : Mem) (k n : ℤ) (tam : UInt32) : Prop where
  paginas : 0 < n
  marcos : (k + n) * c.pagina ≤ c.memorySize.toInt
  segunda : 0 ≤ k * c.pagina + toI32 (tam.toNat + 5) ∧
    k * c.pagina + toI32 (tam.toNat + 5) + 5 ≤ c.memorySize.toInt
  ultima : k * c.pagina + 15 ≤ c.memorySize.toInt
  corte : CorteDentro c (cabeceras c m n tam ⟨k, k + n - 1⟩)
    (segmentoNuevo c n (desde k.toNat n.toNat)) 5

/-- A request stays inside: a first one is refused by the pre-check or stays inside, and a
later one cuts a block inside, if any. -/
def Dentro (c : Config) (s : Globals) (p : TMalloc) : Prop :=
  match (procesarId s p.idLibmuse).1.listSegmento.getLast? with
  | none => existeMemoriaPararPaginas c s (cantidadPaginasNecesarias c p.tam) = false ∨
      PrimeraDentro c s.memoria (asignarFrameLibre c s) (cantidadPaginasNecesarias c p.tam) p.tam
  | some segmento => CorteDentro c s.memoria segmento p.tam.toNat

section Bound
variable {c : Config} {m : Mem} {s s' : Globals} {k n : ℕ} {l : Locales} {p : TMalloc}
  {tam : UInt32} {segmento : NodoSegmento} {fuel memoriaReservar : ℕ}

/-- The header behind the block of a first request. -/
theorem dirProxima_eq (hp : 0 < c.pagina) (hpos : 0 < n)
    (hmarcos : ((k : ℤ) + n) * c.pagina ≤ c.memorySize.toInt)
    (hlo : 0 ≤ k * c.pagina + toI32 (tam.toNat + 5))
    (hhi : k * c.pagina + toI32 (tam.toNat + 5) < 2147483648) :
    dirProximaEstructura c n tam ⟨k, (k : ℤ) + n - 1⟩ = k * c.pagina + toI32 (tam.toNat + 5) := by
  have hmem := Int32.toInt_lt c.memorySize
  have hk : 0 ≤ (k : ℤ) * c.pagina := mul_nonneg (by omega) hp.le
  have hpagina : c.pagina ≤ n * c.pagina := by
    have := mul_le_mul_of_nonneg_right (show (1 : ℤ) ≤ n by omega) hp.le
    rwa [one_mul] at this
  have hprimero : ((k : ℤ) + n - 1) * c.pagina = k * c.pagina + n * c.pagina - c.pagina := by ring
  rw [add_mul] at hmarcos
  rw [dirProximaEstructura, bytesSobran, hprimero,
    toI32_of_mem (x := n * c.pagina) (by omega) (by omega)]
  -- what is left over, taken from a page, is how far the block reaches into the last one
  have hresto : toI32 (c.pagina - toI32 (n * c.pagina - tam.toNat - 5))
      = toI32 (tam.toNat + 5) - (n * c.pagina - c.pagina) := by
    generalize (n : ℤ) * c.pagina = x at *
    generalize (k : ℤ) * c.pagina = y at *
    unfold toI32 at *
    omega
  have hultimo : toI32 (k * c.pagina + n * c.pagina - c.pagina)
      = k * c.pagina + n * c.pagina - c.pagina := toI32_of_mem (by omega) (by omega)
  rw [hultimo, hresto, toI32_of_mem (by omega) (by omega)]
  ring

theorem escriturasRecorrido_dentro (h : CorteDentro c m segmento memoriaReservar) :
    ∀ w ∈ escriturasRecorrido fuel c m segmento memoriaReservar, c.EnMemoria w.1 5 := by
  intro w hw
  unfold escriturasRecorrido at hw
  cases hb : buscarSegmento fuel c m segmento memoriaReservar with
  | none =>
      rw [hb] at hw
      cases hw
  | some b =>
      rw [hb] at hw
      cases b with
      | none => cases hw
      | some b =>
          have hfinds := finds_or_misses hb
          have hhi := h.corta b hfinds
          obtain ⟨cs, x, -, hleer, -⟩ := hfinds
          have hdir := (leerSegmento_heap hleer).1
          obtain ⟨hlo, -⟩ := (Config.enMemoria_iff (by decide)).1 hdir
          simp only [escriturasCortar, List.mem_cons, List.not_mem_nil, or_false] at hw
          rcases hw with rfl | rfl
          · exact hdir
          · refine .inr ⟨by dsimp only; omega, ?_⟩
            push_cast
            omega

/-- What a first request writes, where the first `k` frames are taken: it takes the next ones. -/
theorem escriturasAsignar_eq (hlock : Lockstep c s k) (hpos : 0 < n)
    (hn : cantidadPaginasNecesarias c tam = n) (hroom : k + n ≤ c.entradas) :
    escriturasAsignar fuel c l s tam =
      escriturasCabeceras c n tam ⟨k, (k : ℤ) + n - 1⟩ ++
        if c.EnMemoria (dirPrimera c ⟨k, (k : ℤ) + n - 1⟩) 5 ∧
            c.EnMemoria (dirProximaEstructura c n tam ⟨k, (k : ℤ) + n - 1⟩) 5 then
          escriturasRecorrido fuel c (cabeceras c s.memoria n tam ⟨k, (k : ℤ) + n - 1⟩)
              (segmentoNuevo c n (desde k n)) 5 ++
            if (recorerSegmentoEspacioLibre fuel c
                (cabeceras c s.memoria n tam ⟨k, (k : ℤ) + n - 1⟩)
                (segmentoNuevo c n (desde k n)) 5).isSome then
              [escrituraFinal c n ⟨k, (k : ℤ) + n - 1⟩]
            else []
        else [] := by
  have hexiste := (hlock.existe_iff (show 0 < (n : ℤ) by omega)).2 (by omega)
  obtain ⟨-, hpaginas, hlocales⟩ := hlock.asignarPaginas (l := l) (n := n) (by omega)
  have hultimo : ((k + n - 1 : ℕ) : ℤ) = (k : ℤ) + n - 1 := by omega
  unfold escriturasAsignar
  rw [hn, if_pos hexiste]
  simp only [Int.toNat_natCast, hpaginas, hlocales hpos, hultimo]

/-- The headers of a first request that stays inside. -/
theorem asignar_dentro (hp : 0 < c.pagina) (hlock : Lockstep c s k)
    (hexiste : existeMemoriaPararPaginas c s (cantidadPaginasNecesarias c tam) = true)
    (h : PrimeraDentro c s.memoria (asignarFrameLibre c s) (cantidadPaginasNecesarias c tam) tam) :
    ∀ w ∈ escriturasAsignar fuel c l s tam, c.EnMemoria w.1 5 := by
  obtain ⟨n, hn⟩ := Int.eq_ofNat_of_zero_le h.paginas.le
  have hpos : 0 < n := by
    have := h.paginas
    omega
  rw [hn] at hexiste
  have hroom := (hlock.existe_iff (by omega)).1 hexiste
  rw [escriturasAsignar_eq hlock hpos hn (by omega)]
  rw [hlock.asignarFrameLibre_eq (by omega), hn] at h
  have hmem := Int32.toInt_lt c.memorySize
  have hk : 0 ≤ (k : ℤ) * c.pagina := mul_nonneg (by omega) hp.le
  have hultima := h.ultima
  obtain ⟨hlo, hhi⟩ := h.segunda
  have hbase : dirPrimera c ⟨k, (k : ℤ) + n - 1⟩ = k * c.pagina :=
    toI32_of_mem (x := k * c.pagina) (by omega) (by omega)
  have hproxima : dirProximaEstructura c n tam ⟨k, (k : ℤ) + n - 1⟩
      = k * c.pagina + toI32 (tam.toNat + 5) := dirProxima_eq hp hpos h.marcos hlo (by omega)
  intro w hw
  rcases List.mem_append.1 hw with hw | hw
  · rcases List.mem_cons.1 hw with rfl | hw
    · rw [hbase]
      exact .inr ⟨by omega, by push_cast; omega⟩
    · obtain rfl := List.mem_singleton.1 hw
      rw [hproxima]
      exact .inr ⟨by omega, by push_cast; omega⟩
  · split at hw
    · rcases List.mem_append.1 hw with hw | hw
      · exact escriturasRecorrido_dentro h.corte w hw
      · split at hw
        · obtain rfl := List.mem_singleton.1 hw
          rw [escrituraFinal, hbase]
          exact .inr ⟨by omega, by push_cast; omega⟩
        · cases hw
    · cases hw

/-- A request that stays inside writes inside. -/
theorem escribeDentro (hp : 0 < c.pagina) (hlock : Lockstep c s k) (hbase : BaseCero s)
    (h : Dentro c s p) : EscribeDentro c s p := by
  intro fuel l
  refine ⟨?_, fun r s' hserved => (memoria_malloc hbase hserved).2⟩
  obtain ⟨hmemoria, hframes, hentries, -, -⟩ := procesarId_spec s p.idLibmuse
  have hlock₁ := hlock.congr hframes hentries
  unfold escriturasMalloc
  unfold Dentro at h
  have hexiste : existeMemoriaPararPaginas c s (cantidadPaginasNecesarias c p.tam)
      = existeMemoriaPararPaginas c (procesarId s p.idLibmuse).2
          (cantidadPaginasNecesarias c p.tam) := by
    rw [existeMemoriaPararPaginas, existeMemoriaPararPaginas, hframes]
  have hlibre : asignarFrameLibre c s = asignarFrameLibre c (procesarId s p.idLibmuse).2 := by
    rw [asignarFrameLibre, asignarFrameLibre, hframes]
  rw [hexiste, hlibre, ← hmemoria] at h
  generalize procesarId s p.idLibmuse = nodo at h hlock₁
  obtain ⟨nodo, s₁⟩ := nodo
  simp only at h hlock₁ ⊢
  cases hlast : nodo.listSegmento.getLast? with
  | none =>
      rw [hlast] at h
      simp only at h ⊢
      by_cases hroom : existeMemoriaPararPaginas c s₁ (cantidadPaginasNecesarias c p.tam) = true
      · rcases h with hnone | h
        · rw [hnone] at hroom
          cases hroom
        · exact asignar_dentro hp hlock₁ hroom h
      · unfold escriturasAsignar
        rw [if_neg hroom]
        intro w hw
        cases hw
  | some segmento =>
      rw [hlast] at h
      simp only at h ⊢
      exact escriturasRecorrido_dentro h

/-- The frames taken are frames of `memoria`, and all segments start at 0. -/
structure Reales (c : Config) (s : Globals) (k : ℕ) : Prop extends Lockstep c s k where
  base : BaseCero s
  marcos : ∀ i < k, ((i : ℤ) + 1) * c.pagina ≤ c.memorySize.toInt

theorem Lockstep.marcosReales (h : Lockstep c s k)
    (hmarcos : ∀ i < k, ((i : ℤ) + 1) * c.pagina ≤ c.memorySize.toInt) : MarcosReales c s := by
  intro i hi hlibre
  have hk : i < k := by
    rw [h.entries i hi] at hlibre
    simpa using hlibre
  rw [h.frame i hk]
  exact hmarcos i hk

/-- The frames up to the last one of a first request that stays inside. -/
theorem PrimeraDentro.marcos_le (hp : 0 < c.pagina) (h : PrimeraDentro c m k n tam) :
    ∀ i < k + n, ((i : ℤ) + 1) * c.pagina ≤ c.memorySize.toInt := by
  intro i hi
  refine Int.le_trans (mul_le_mul_of_nonneg_right ?_ hp.le) h.marcos
  omega

/-- A request that stays inside takes frames of `memoria` only. -/
theorem asignaDentro (hp : 0 < c.pagina) (hlock : Lockstep c s k) (h : Dentro c s p) :
    AsignaDentro c s p := by
  obtain ⟨-, hframes, hentries, -, -⟩ := procesarId_spec s p.idLibmuse
  have hlock₁ := hlock.congr hframes hentries
  unfold Dentro at h
  unfold AsignaDentro
  generalize procesarId s p.idLibmuse = nodo at h hframes hlock₁ ⊢
  obtain ⟨nodo, s₁⟩ := nodo
  simp only at h hframes hlock₁ ⊢
  intro hnuevo hexiste l
  rw [hnuevo, List.getLast?_nil] at h
  rcases h with hnone | h
  · rw [existeMemoriaPararPaginas, hframes] at hexiste
    exact Bool.noConfusion (hexiste.symm.trans hnone)
  · obtain ⟨n, hn⟩ := Int.eq_ofNat_of_zero_le h.paginas.le
    rw [hn] at h hexiste ⊢
    have hpos := h.paginas
    have hroom := (hlock₁.existe_iff hpos).1 hexiste
    obtain ⟨hlock', -, -⟩ := hlock₁.asignarPaginas (l := l) (n := n) (by omega)
    rw [hlock.asignarFrameLibre_eq (by omega)] at h
    exact hlock'.marcosReales (h.marcos_le hp)

/-- A request that stays inside leaves the frames taken in `memoria`. -/
theorem Reales.step (hp : 0 < c.pagina) (h : Reales c s k) {label : TMalloc × TMallocOk}
    (hcond : Dentro c s label.1) (hstep : MallocStep c s label s') :
    ∃ k', Reales c s' k' := by
  obtain ⟨p, r⟩ := label
  obtain ⟨fuel, l, hserved⟩ := hstep
  have hbase := (memoria_malloc h.base hserved).1
  obtain ⟨hmemoria, hframes, hentries, -, -⟩ := procesarId_spec s p.idLibmuse
  have hlock₁ := h.toLockstep.congr hframes hentries
  cases malloc_effect ⟨fuel, l, hserved⟩ with
  | refused hs₁ _ _ hs' =>
      subst hs₁
      exact ⟨k, hlock₁.congr (by rw [hs']) (by rw [hs']), hbase, h.marcos⟩
  | @assigned s₁ _ n l' segmento m hs₁ hnuevo hn hpos hlibre _ hs' =>
      subst hs₁
      have hroom := (hlock₁.existe_iff (show 0 < (n : ℤ) by omega)).1 hlibre
      obtain ⟨hlock', -, -⟩ := hlock₁.asignarPaginas (l := l') (n := n) (by omega)
      refine ⟨k + n, hlock'.congr (by rw [hs']) (by rw [hs']), hbase, ?_⟩
      unfold Dentro at hcond
      rw [hnuevo, List.getLast?_nil] at hcond
      rcases hcond with hnone | hcond
      · rw [hn, existeMemoriaPararPaginas, ← hframes] at hnone
        exact Bool.noConfusion (hlibre.symm.trans hnone)
      · rw [h.asignarFrameLibre_eq (by omega), hn] at hcond
        exact hcond.marcos_le hp
  | walked hs₁ _ _ hs' =>
      subst hs₁
      exact ⟨k, hlock₁.congr (by rw [hs']) (by rw [hs']), hbase, h.marcos⟩

/-- In every run of requests that stay inside, the frames and the bytes written do. -/
theorem physical_bound {labels : List (TMalloc × TMallocOk)} (hp : 0 < c.pagina)
    (h : EachStep (MallocStep c) (fun s label => Dentro c s label.1) (museInit c m) labels) :
    LimiteFisico c m labels := by
  have hreales := h.along (J := fun s => ∃ k, Reales c s k)
    (fun s label s' ⟨k, hk⟩ hcond hstep => hk.step hp hcond hstep)
    ⟨0, (paged_museInit c m).toLockstep, fun nodo hnodo => absurd hnodo List.not_mem_nil,
      fun i hi => absurd hi (Nat.not_lt_zero i)⟩
  constructor
  · intro fs gs s hes hrun
    obtain ⟨k, hk⟩ := hreales fs gs s hes hrun
    exact hk.toLockstep.marcosReales hk.marcos
  · intro fs label gs s hes hrun
    obtain ⟨k, hk⟩ := hreales fs (label :: gs) s hes hrun
    have hcond := h fs label gs s hes hrun
    exact ⟨asignaDentro hp hk.toLockstep hcond, escribeDentro hp hk.toLockstep hk.base hcond⟩

end Bound

/-- A first request for five bytes stays inside. -/
theorem physical_bound_cinco :
    EachStep (MallocStep ⟨96, 32, 0, 0⟩) (fun s label => Dentro ⟨96, 32, 0, 0⟩ s label.1)
      (museInit ⟨96, 32, 0, 0⟩ fun _ => 0) [(⟨5, 1⟩, ⟨5⟩)] ∧
    LimiteFisico ⟨96, 32, 0, 0⟩ (fun _ => 0) [(⟨5, 1⟩, ⟨5⟩)] := by
  have hfree : asignarFrameLibre ⟨96, 32, 0, 0⟩ (museInit ⟨96, 32, 0, 0⟩ fun _ => 0) = 0 := by
    decide +kernel
  have hcorte : CorteDentro ⟨96, 32, 0, 0⟩ (cabeceras ⟨96, 32, 0, 0⟩ (fun _ => 0) 1 5 ⟨0, 0⟩)
      ⟨0, 31, [0]⟩ 5 := by
    have hcero : leerSegmento ⟨96, 32, 0, 0⟩ (cabeceras ⟨96, 32, 0, 0⟩ (fun _ => 0) 1 5 ⟨0, 0⟩)
        ⟨0, 31, [0]⟩ 0 = some (0, ⟨5, false⟩) := by
      decide +kernel
    have hdiez : leerSegmento ⟨96, 32, 0, 0⟩ (cabeceras ⟨96, 32, 0, 0⟩ (fun _ => 0) 1 5 ⟨0, 0⟩)
        ⟨0, 31, [0]⟩ 10 = some (10, ⟨16, true⟩) := by
      decide +kernel
    have hsiguiente : siguiente 0 (0, ⟨5, false⟩) = 10 := by decide
    constructor
    · intro offset hcomes nroFrame hpagina
      rcases hcomes.eq_or_next hcero with rfl | hcomes
      · obtain rfl : 0 = nroFrame := Option.some.inj hpagina
        decide
      · rw [hsiguiente] at hcomes
        obtain rfl := hcomes.eq_of_hit hdiez rfl
        obtain rfl : 0 = nroFrame := Option.some.inj hpagina
        decide
    · intro b hb
      have hfinds : Finds (leerSegmento ⟨96, 32, 0, 0⟩
          (cabeceras ⟨96, 32, 0, 0⟩ (fun _ => 0) 1 5 ⟨0, 0⟩) ⟨0, 31, [0]⟩) siguiente (hueco 5)
          (limiteSegmento ⟨96, 32, 0, 0⟩ ⟨0, 31, [0]⟩) 0 (10, ⟨16, true⟩) :=
        ⟨[(0, ⟨5, false⟩)], 10, ⟨hcero, rfl, by decide, hsiguiente⟩, hdiez, rfl⟩
      obtain rfl := hb.unique hfinds
      decide
  have hdentro : Dentro ⟨96, 32, 0, 0⟩ (museInit ⟨96, 32, 0, 0⟩ fun _ => 0) ⟨5, 1⟩ := by
    have hcantidad : cantidadPaginasNecesarias ⟨96, 32, 0, 0⟩ 5 = 1 := by decide
    refine .inr ?_
    rw [hfree, hcantidad]
    have hsegmento : segmentoNuevo ⟨96, 32, 0, 0⟩ 1 (desde (0 : ℤ).toNat (1 : ℤ).toNat)
        = ⟨0, 31, [0]⟩ := by
      decide
    refine ⟨by decide, by decide, by decide, by decide, ?_⟩
    rw [hsegmento]
    exact hcorte
  have hall : EachStep (MallocStep ⟨96, 32, 0, 0⟩) (fun s label => Dentro ⟨96, 32, 0, 0⟩ s label.1)
      (museInit ⟨96, 32, 0, 0⟩ fun _ => 0) [(⟨5, 1⟩, ⟨5⟩)] := by
    intro fs label gs s hes hrun
    cases fs with
    | nil =>
        obtain ⟨rfl, -⟩ := List.cons.inj hes
        exact Run.nil_iff.1 hrun ▸ hdentro
    | cons f fs => simp at hes
  exact ⟨hall, physical_bound (by decide) hall⟩

/-- A memory of one page, and a request for 26 bytes: the second header is written at 31. -/
theorem header_behind_memory :
    0 < Config.pagina ⟨32, 32, 0, 0⟩ ∧
    ¬ LimiteFisico ⟨32, 32, 0, 0⟩ (fun _ => 0) [(⟨26, 1⟩, ⟨5⟩)] := by
  have hlisted : (escriturasMalloc 10 ⟨32, 32, 0, 0⟩ ⟨0, 0⟩
      (museInit ⟨32, 32, 0, 0⟩ fun _ => 0) ⟨26, 1⟩).map Prod.fst = [0, 31] := by
    decide +kernel
  refine ⟨by decide, fun h => ?_⟩
  have hall := (h.2 [] (⟨26, 1⟩, ⟨5⟩) [] _ rfl (.nil _)).2 10 ⟨0, 0⟩
  have hmem : (31 : ℤ) ∈ (escriturasMalloc 10 ⟨32, 32, 0, 0⟩ ⟨0, 0⟩
      (museInit ⟨32, 32, 0, 0⟩ fun _ => 0) ⟨26, 1⟩).map Prod.fst := hlisted ▸ by decide
  obtain ⟨w, hw, hdir⟩ := List.mem_map.1 hmem
  have hbound := hall.1 w hw
  rw [hdir] at hbound
  exact absurd hbound (by decide)

end Threaders.Muse
