import Threaders.Common.Protocols
import Threaders.Lib.ByteMemory
import Threaders.Lib.Scan

/-!
# The memory server: its tables

The globals of `muse.c` and the functions that search and change them.  `memoria` is the
block of `memory_size` bytes that `muse_init` allocates, addressed from its start; what lies
outside is not the program's (`EnMemoria`), and an access that leaves the block is undefined.
The columns of `vectorAtributoPaginas` that nothing reads are left out.

## Main definitions

* `Config`, `Globals` — the configuration and the globals.
* `Config.EnMemoria` — the accesses that stay in `memoria`.
* `museInit` — their initial values.
* `asignarFrameLibre`, `existeMemoriaPararPaginas` — the searches of the tables.
* `procesarId` — the registration of a process.
-/

namespace Threaders.Muse

open Lib Common

/-- `t_muse_config`, without the port.  `base` is the address `malloc` gives to `memoria`. -/
structure Config where
  memorySize : Int32
  pageSize : Int32
  swapSize : Int32
  base : ℤ

namespace Config

/-- `muse_page_size()`. -/
def pagina (c : Config) : ℤ := c.pageSize.toInt

/-- `cantidad_paginas_totales`. -/
def cantidadPaginasTotales (c : Config) : ℤ :=
  toI32 (c.memorySize.toInt.tdiv c.pagina + c.swapSize.toInt.tdiv c.pagina)

/-- The number of entries the loops over the tables visit. -/
def entradas (c : Config) : ℕ := c.cantidadPaginasTotales.toNat

/-- A `memcpy` or `memset` of `n` bytes at `memoria + dir` stays in the block allocated. -/
def EnMemoria (c : Config) (dir : ℤ) (n : ℕ) : Prop :=
  n = 0 ∨ 0 ≤ dir ∧ dir + n ≤ c.memorySize.toInt

instance (c : Config) (dir : ℤ) (n : ℕ) : Decidable (c.EnMemoria dir n) :=
  inferInstanceAs (Decidable (_ ∨ _))

theorem enMemoria_iff {c : Config} {dir : ℤ} {n : ℕ} (hn : 0 < n) :
    c.EnMemoria dir n ↔ 0 ≤ dir ∧ dir + n ≤ c.memorySize.toInt :=
  or_iff_right (by omega)

end Config

/-- `t_vector_atributo_paginas`. -/
structure AtributoPagina where
  libre : Bool
  frame : ℤ
  deriving DecidableEq

/-- `t_nodo_segmento`, with the `indiceVector` of each page. -/
structure NodoSegmento where
  base : ℤ
  tamanio : ℤ
  listPaginas : List ℤ
  deriving DecidableEq

/-- `t_nodo_proceso`. -/
structure NodoProceso where
  id : Int32
  listSegmento : List NodoSegmento
  deriving DecidableEq

/-- The globals of the server. -/
structure Globals where
  memoria : Mem
  vectorFrames : ℤ → Bool
  vectorAtributoPaginas : ℤ → AtributoPagina
  listaProcesos : List NodoProceso

/-- `muse_init`, with whatever the allocated block holds. -/
def museInit (c : Config) (memoria : Mem) : Globals where
  memoria := memoria
  vectorFrames := fun i => 0 ≤ i ∧ i < c.cantidadPaginasTotales
  vectorAtributoPaginas := fun i =>
    if 0 ≤ i ∧ i < c.cantidadPaginasTotales then ⟨true, -1⟩ else ⟨false, 0⟩
  listaProcesos := []

/-! ## Processes -/

/-- `crear_nodo`. -/
def crearNodo (id : Int32) : NodoProceso := ⟨id, []⟩

/-- `existe_proceso_en_lista`. -/
def existeProcesoEnLista (s : Globals) (id : Int32) : Option NodoProceso :=
  s.listaProcesos.find? fun nodo => nodo.id = id

/-- `procesar_id`. -/
def procesarId (s : Globals) (id : Int32) : NodoProceso × Globals :=
  match existeProcesoEnLista s id with
  | some unNodo => (unNodo, s)
  | none => (crearNodo id, { s with listaProcesos := s.listaProcesos ++ [crearNodo id] })

/-- `list_add` to the segments of the node `existe_proceso_en_lista` finds. -/
def agregarSegmento (id : Int32) (segmento : NodoSegmento) : List NodoProceso → List NodoProceso
  | [] => []
  | nodo :: nodos =>
      if nodo.id = id then { nodo with listSegmento := nodo.listSegmento ++ [segmento] } :: nodos
      else nodo :: agregarSegmento id segmento nodos

/-! ## Frames and page entries -/

/-- The loops of `asignarFrameLibre` and `asignarIndiceVectorLibre`: the first index whose
entry is free, or -1. -/
def primerLibre (c : Config) (libre : ℤ → Bool) : ℤ :=
  let i := firstIndex (fun i => libre i) c.entradas 0
  if i < c.entradas then i else -1

/-- `asignarFrameLibre`. -/
def asignarFrameLibre (c : Config) (s : Globals) : ℤ := primerLibre c s.vectorFrames

/-- `asignarIndiceVectorLibre`. -/
def asignarIndiceVectorLibre (c : Config) (s : Globals) : ℤ :=
  primerLibre c fun i => (s.vectorAtributoPaginas i).libre

/-- The loop of `existe_memoria_parar_paginas`, over `n` frames from `i` on: it stops as
soon as the counter has reached the number wanted. -/
def contarLibres (libre : ℤ → Bool) (cantidad : ℤ) : ℕ → ℕ → ℕ → ℕ
  | 0, _, contador => contador
  | n + 1, i, contador =>
      let contador := if libre i then contador + 1 else contador
      if contador = cantidad then contador else contarLibres libre cantidad n (i + 1) contador

/-- `existe_memoria_parar_paginas`. -/
def existeMemoriaPararPaginas (c : Config) (s : Globals) (cantidadPaginasNecesarias : ℤ) : Bool :=
  contarLibres s.vectorFrames cantidadPaginasNecesarias c.entradas 0 0 = cantidadPaginasNecesarias

/-- `cambiar_estado_pagina`. -/
def cambiarEstadoPagina (s : Globals) (frame : ℤ) (estado : Bool) : Globals :=
  { s with vectorFrames := Function.update s.vectorFrames frame estado }

/-- `crear_nodo_segmento`. -/
def crearNodoSegmento : NodoSegmento := ⟨0, 0, []⟩

/-! ## What the searches find -/

section Scans
variable {c : Config} {libre : ℤ → Bool} {k : ℕ}

/-- In a table whose free entries are those from `k` on, the first free one is `k`. -/
theorem primerLibre_eq (hlibre : ∀ i < c.entradas, libre i = decide (k ≤ i)) (hk : k < c.entradas) :
    primerLibre c libre = k := by
  have hfirst : firstIndex (fun i => libre i) c.entradas 0 = k := by
    refine firstIndex_eq_of (Nat.zero_le k) (by omega) (by simp [hlibre k hk]) fun i _ hi => ?_
    simp [hlibre i (by omega), hi]
  rw [primerLibre, hfirst, if_pos hk]

theorem contarLibres_of_nonpos {cantidad : ℤ} {n i contador : ℕ} (h : cantidad < contador) :
    cantidad < contarLibres libre cantidad n i contador := by
  induction n generalizing i contador with
  | zero => exact h
  | succ n ih =>
      rw [contarLibres]
      have hle : cantidad < ((if libre i then contador + 1 else contador : ℕ) : ℤ) := by
        split <;> omega
      rw [if_neg (by omega)]
      exact ih hle

/-- The number of free entries among the `n` from `i` on. -/
def libres (libre : ℤ → Bool) : ℕ → ℕ → ℕ
  | 0, _ => 0
  | n + 1, i => (if libre i then 1 else 0) + libres libre n (i + 1)

/-- The counter reaches a positive number exactly if that many entries are free. -/
theorem contarLibres_eq_iff {cantidad : ℤ} {n i contador : ℕ} (h : (contador : ℤ) < cantidad) :
    (contarLibres libre cantidad n i contador : ℤ) = cantidad ↔
      cantidad ≤ contador + libres libre n i := by
  induction n generalizing i contador with
  | zero =>
      rw [contarLibres, libres]
      omega
  | succ n ih =>
      rw [contarLibres, libres]
      by_cases hi : libre i = true
      · simp only [hi, if_true]
        by_cases heq : ((contador + 1 : ℕ) : ℤ) = cantidad
        · rw [if_pos heq]
          omega
        · rw [if_neg heq, ih (by omega)]
          push_cast
          omega
      · simp only [hi, Bool.false_eq_true, if_false]
        rw [if_neg (by omega), ih h]
        push_cast
        omega

theorem libres_eq (hlibre : ∀ i < c.entradas, libre i = decide (k ≤ i)) {n i : ℕ}
    (hn : i + n = c.entradas) : libres libre n i = c.entradas - max k i := by
  induction n generalizing i with
  | zero =>
      rw [libres]
      omega
  | succ n ih =>
      rw [libres, hlibre i (by omega), ih (by omega)]
      by_cases hk : k ≤ i
      · simp only [hk, decide_true, if_true]
        omega
      · simp only [hk, decide_false, Bool.false_eq_true, if_false]
        omega

end Scans

end Threaders.Muse
