import Threaders.Lib.Loop
import Threaders.Muse.Tables

/-!
# Serving a `MALLOC`

A process's first request takes frames of its own, through `asignar_dir_memoria`; its
later ones go through `recorer_segmento_espacio_libre`, whose merge left two walks over
the headers one inside the other.  They are read as they stand: the first walk, over the
pages of the segment, splits the first free block that is large enough; the second, over
`memoria` from its start, answers the first one it meets then.

Conversions are made where the code makes them.  `none` is a walk that has not ended
within the fuel, that reads the page `NULL` of a segment that has no such page, or an access
that leaves `memoria`.

## Main definitions

* `HeapMetadata`, `leerHeap`, `escribirHeap` — a header in memory.
* `recorrerSegmento`, `recorrerMemoria`, `recorerSegmentoEspacioLibre` — the two walks.
* `asignarDirMemoria`, `atenderMalloc` — the request.
-/

namespace Threaders.Muse

open Lib Common

/-! ## Headers -/

/-- `t_heapMetadata`: a `uint32_t` and a `bool`, packed. -/
structure HeapMetadata where
  size : ℕ
  libre : Bool
  deriving DecidableEq

/-- `memcpy` of a header out of memory.  Any byte but 0 reads as true. -/
def leerHeap (m : Mem) (dir : ℤ) : HeapMetadata := ⟨m.readLe dir 4, m (dir + 4) ≠ 0⟩

/-- The bytes of a header. -/
def HeapMetadata.bytes (heap : HeapMetadata) : Bytes :=
  leBytes 4 heap.size ++ [if heap.libre then 1 else 0]

/-- `memcpy` of `n` bytes out of `memoria`, the first five of which are a header. -/
def leerCabecera (c : Config) (m : Mem) (dir : ℤ) (n : ℕ) : Option HeapMetadata :=
  if c.EnMemoria dir n then some (leerHeap m dir) else none

/-- `memcpy` of a header into memory. -/
def escribirHeap (m : Mem) (dir : ℤ) (heap : HeapMetadata) : Mem := m.write dir heap.bytes

@[simp] theorem HeapMetadata.length_bytes (heap : HeapMetadata) : heap.bytes.length = 5 := by
  simp [HeapMetadata.bytes]

theorem leerCabecera_eq_some {c : Config} {m : Mem} {dir : ℤ} {n : ℕ} {heap : HeapMetadata} :
    leerCabecera c m dir n = some heap ↔ c.EnMemoria dir n ∧ leerHeap m dir = heap := by
  simp [leerCabecera]

/-- The byte that tells a free header from a used one. -/
theorem libre_eq_false_iff {m : Mem} {dir : ℤ} :
    (leerHeap m dir).libre = false ↔ m (dir + 4) = 0 := by
  simp [leerHeap]

/-! ## The two walks -/

/-- `offset`, `pagina` and `offset_frame` of the walk over a segment. -/
structure Posicion where
  offset : ℤ
  pagina : ℤ
  offsetFrame : ℤ

/-- `list_get` on the pages of a segment. -/
def listGet (paginas : List ℤ) (i : ℤ) : Option ℤ := if 0 ≤ i then paginas[i.toNat]? else none

/-- The place a block of the segment is read from.  The element of the page list is read
as a `t_frames`. -/
def direccion (c : Config) (nroFrame : ℤ) (p : Posicion) : ℤ :=
  toI32 (nroFrame * c.pagina) + p.offsetFrame

/-- The position behind a block of the given size. -/
def avanzar (c : Config) (base : ℤ) (p : Posicion) (size : ℕ) : Posicion :=
  let offset := toI32 (toI32 (p.offset + 5) + size)
  let pagina := (offset - base).tdiv c.pagina
  ⟨offset, pagina, offset - base - toI32 (pagina * c.pagina)⟩

/-- The block at `dir` is cut: its start becomes a used block of the size reserved. -/
def partir (m : Mem) (dir : ℤ) (size memoriaReservar : ℕ) : Mem :=
  escribirHeap (escribirHeap m dir ⟨memoriaReservar, false⟩) (dir + 5 + memoriaReservar)
    ⟨(toU32 (toI32 size - memoriaReservar - 5)).toNat, true⟩

/-- A block that is free and larger than the request. -/
def cabe (heap : HeapMetadata) (memoriaReservar : ℕ) : Bool :=
  heap.libre && memoriaReservar < heap.size

/-- A round of the walk over the segment. -/
def rondaSegmento (c : Config) (m : Mem) (segmento : NodoSegmento) (limite : ℤ)
    (memoriaReservar : ℕ) (p : Posicion) : Option (Posicion ⊕ Mem) := do
  let nroFrame ← listGet segmento.listPaginas p.pagina
  let heap ← leerCabecera c m (direccion c nroFrame p) 5
  if cabe heap memoriaReservar then
    if c.EnMemoria (direccion c nroFrame p + 5 + memoriaReservar) 5 then
      some (.inr (partir m (direccion c nroFrame p) heap.size memoriaReservar))
    else none
  else
    let p := avanzar c segmento.base p heap.size
    some (if p.offset ≤ limite then .inl p else .inr m)

/-- A round of the walk over `memoria`. -/
def rondaMemoria (c : Config) (m : Mem) (limite : ℤ) (memoriaReservar : ℕ) (offset : ℤ) :
    Option (ℤ ⊕ ℤ) := do
  let heap ← leerCabecera c m offset 5
  let offset := toI32 (offset + 5)
  if cabe heap memoriaReservar then some (.inr offset)
  else
    let offset := toI32 (offset + heap.size)
    some (if offset ≤ limite then .inl offset else .inr (-1))

/-- `ultima_pagina * muse_page_size() - 1`. -/
def limiteSegmento (c : Config) (segmento : NodoSegmento) : ℤ :=
  let hasta := toI32 (segmento.base + segmento.tamanio)
  let ultimaPagina := hasta.tdiv c.pagina + 1
  toI32 (toI32 (ultimaPagina * c.pagina) - 1)

/-- Where the walk over `memoria` starts: `primera_pagina * muse_page_size()`. -/
def inicioMemoria (c : Config) (segmento : NodoSegmento) : ℤ :=
  toI32 (segmento.base.tdiv c.pagina * c.pagina)

/-- The walk over the segment: the memory after it. -/
def recorrerSegmento (fuel : ℕ) (c : Config) (m : Mem) (segmento : NodoSegmento)
    (memoriaReservar : ℕ) : Option Mem :=
  loop (rondaSegmento c m segmento (limiteSegmento c segmento) memoriaReservar) fuel ⟨0, 0, 0⟩

/-- The walk over `memoria`: its `respuesta`. -/
def recorrerMemoria (fuel : ℕ) (c : Config) (m : Mem) (segmento : NodoSegmento)
    (memoriaReservar : ℕ) : Option ℤ :=
  loop (rondaMemoria c m (limiteSegmento c segmento) memoriaReservar) fuel (inicioMemoria c segmento)

/-- `recorer_segmento_espacio_libre`: its answer and the memory after it. -/
def recorerSegmentoEspacioLibre (fuel : ℕ) (c : Config) (m : Mem) (segmento : NodoSegmento)
    (memoriaReservar : ℕ) : Option (ℤ × Mem) := do
  let m ← recorrerSegmento fuel c m segmento memoriaReservar
  let respuesta ← recorrerMemoria fuel c m segmento memoriaReservar
  some (respuesta, m)

/-! ## `asignar_dir_memoria` -/

/-- `primerFrameLibre` and `frameLibre`, which are not initialised. -/
structure Locales where
  primerFrameLibre : ℤ
  frameLibre : ℤ

/-- What the assignment loop changes. -/
structure Asignacion where
  globals : Globals
  paginas : List ℤ
  locales : Locales

/-- A round of the assignment loop. -/
def asignarPagina (c : Config) (i : ℕ) (a : Asignacion) : Asignacion :=
  let frameLibre := asignarFrameLibre c a.globals
  let indiceLibre := asignarIndiceVectorLibre c a.globals
  let s := cambiarEstadoPagina a.globals frameLibre false
  { globals :=
      { s with
        vectorAtributoPaginas :=
          Function.update s.vectorAtributoPaginas indiceLibre ⟨false, frameLibre⟩ }
    paginas := a.paginas ++ [indiceLibre]
    locales := ⟨if i = 0 then frameLibre else a.locales.primerFrameLibre, frameLibre⟩ }

/-- The assignment loop, over its first `n` rounds. -/
def asignarPaginas (c : Config) (a : Asignacion) : ℕ → Asignacion
  | 0 => a
  | n + 1 => asignarPagina c n (asignarPaginas c a n)

/-- `cantidad_paginas_necesarias`. -/
def cantidadPaginasNecesarias (c : Config) (memoriaReservar : UInt32) : ℤ :=
  (toI32 (memoriaReservar.toNat + 5)).tdiv c.pagina + 1

/-- `bytes_sobran`. -/
def bytesSobran (c : Config) (cantidad : ℤ) (memoriaReservar : UInt32) : ℤ :=
  toI32 (toI32 (cantidad * c.pagina) - memoriaReservar.toNat - 5)

/-- `primerFrameLibre * muse_page_size()`, where the first header is written. -/
def dirPrimera (c : Config) (l : Locales) : ℤ := toI32 (l.primerFrameLibre * c.pagina)

/-- `dir_proxima_estructura`. -/
def dirProximaEstructura (c : Config) (cantidad : ℤ) (memoriaReservar : UInt32) (l : Locales) : ℤ :=
  toI32 (toI32 (l.frameLibre * c.pagina) +
    toI32 (c.pagina - bytesSobran c cantidad memoriaReservar))

/-- The two headers written behind the assignment loop. -/
def cabeceras (c : Config) (m : Mem) (cantidad : ℤ) (memoriaReservar : UInt32) (l : Locales) :
    Mem :=
  let m := escribirHeap m (dirPrimera c l) ⟨memoriaReservar.toNat, false⟩
  escribirHeap m (dirProximaEstructura c cantidad memoriaReservar l)
    ⟨(toU32 (bytesSobran c cantidad memoriaReservar - 5 - 1)).toNat, true⟩

/-- The header written last, behind a block of five bytes. -/
def cabeceraFinal (c : Config) (m : Mem) (cantidad : ℤ) (l : Locales) : Mem :=
  escribirHeap m (5 + dirPrimera c l + 5)
    ⟨(toU32 (toI32 (cantidad * c.pagina) - 5 - 5 - 5 - 1)).toNat, true⟩

/-- `asignar_dir_memoria`, on the segment `crear_nodo_segmento` gives: its answer, the
segment and the globals. -/
def asignarDirMemoria (fuel : ℕ) (c : Config) (l : Locales) (s : Globals)
    (memoriaReservar : UInt32) : Option (ℤ × NodoSegmento × Globals) :=
  let cantidad := cantidadPaginasNecesarias c memoriaReservar
  if existeMemoriaPararPaginas c s cantidad then
    let a := asignarPaginas c ⟨s, [], l⟩ cantidad.toNat
    let segmento : NodoSegmento := ⟨0, toI32 (toI32 (cantidad * c.pagina) - 1), a.paginas⟩
    if c.EnMemoria (dirPrimera c a.locales) 5 ∧
        c.EnMemoria (dirProximaEstructura c cantidad memoriaReservar a.locales) 5 then do
      let m := cabeceras c s.memoria cantidad memoriaReservar a.locales
      let (_, m) ← recorerSegmentoEspacioLibre fuel c m segmento 5
      if c.EnMemoria (5 + dirPrimera c a.locales + 5) 5 then
        let m := cabeceraFinal c m cantidad a.locales
        some (toI32 (dirPrimera c a.locales + 5), segmento, { a.globals with memoria := m })
      else none
    else none
  else some (-1, crearNodoSegmento, s)

/-- What `asignar_dir_memoria` does once the pre-check holds, where it returns. -/
theorem asignarDirMemoria_eq_some {fuel : ℕ} {c : Config} {l : Locales} {s s' : Globals}
    {tam : UInt32} {ptr : ℤ} {segmento : NodoSegmento} {cantidad : ℤ} {a : Asignacion}
    (hcantidad : cantidadPaginasNecesarias c tam = cantidad)
    (ha : asignarPaginas c ⟨s, [], l⟩ cantidad.toNat = a)
    (hlibre : existeMemoriaPararPaginas c s cantidad = true)
    (h : asignarDirMemoria fuel c l s tam = some (ptr, segmento, s')) :
    c.EnMemoria (dirPrimera c a.locales) 5 ∧
      c.EnMemoria (dirProximaEstructura c cantidad tam a.locales) 5 ∧
      c.EnMemoria (5 + dirPrimera c a.locales + 5) 5 ∧
      segmento = ⟨0, toI32 (toI32 (cantidad * c.pagina) - 1), a.paginas⟩ ∧
      ptr = toI32 (dirPrimera c a.locales + 5) ∧
      ∃ respuesta m, recorerSegmentoEspacioLibre fuel c (cabeceras c s.memoria cantidad tam a.locales)
          segmento 5 = some (respuesta, m) ∧
        s' = { a.globals with memoria := cabeceraFinal c m cantidad a.locales } := by
  subst hcantidad ha
  simp only [asignarDirMemoria, if_pos hlibre, Option.bind_eq_bind, Option.ite_none_right_eq_some,
    Option.bind_eq_some_iff, Option.some.injEq, Prod.mk.injEq, Prod.exists] at h
  obtain ⟨⟨hprimera, hproxima⟩, respuesta, m, hwalk, hfinal, rfl, rfl, rfl⟩ := h
  exact ⟨hprimera, hproxima, hfinal, rfl, rfl, respuesta, m, hwalk, rfl⟩

/-! ## The request -/

/-- The `MALLOC` case of `muse_server_init`. -/
def atenderMalloc (fuel : ℕ) (c : Config) (l : Locales) (s : Globals) (p : TMalloc) :
    Option (TMallocOk × Globals) :=
  let (nodoProceso, s) := procesarId s p.idLibmuse
  match nodoProceso.listSegmento.getLast? with
  | none => do
      let (ptr, segmento, s) ← asignarDirMemoria fuel c l s p.tam
      some (⟨UInt32.ofInt ptr⟩,
        { s with listaProcesos := agregarSegmento p.idLibmuse segmento s.listaProcesos })
  | some segmento => do
      let (ptr, m) ← recorerSegmentoEspacioLibre fuel c s.memoria segmento p.tam.toNat
      some (⟨UInt32.ofInt ptr⟩, { s with memoria := m })

/-- A `MALLOC` is served, in some number of rounds of its walks and whatever the
uninitialised variables hold. -/
def MallocStep (c : Config) (s : Globals) (label : TMalloc × TMallocOk) (s' : Globals) : Prop :=
  ∃ fuel l, atenderMalloc fuel c l s label.1 = some (label.2, s')

end Threaders.Muse
