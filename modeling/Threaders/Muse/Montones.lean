import Threaders.Muse.Allocation
import Threaders.Muse.Reparto
import Threaders.Muse.Rows

/-!
# The heaps of the processes

As long as the requests leave room for the headers that the server writes, the memory of the
processes is a number of heaps that lie apart: a `MALLOC` splits the first block that is large
enough, a `COPY` replaces the bytes of a block in use, and no request of any process touches
another one.

## Main definitions

* `Cuidada` — the requests that leave room.
* `Guarda` — the heaps that the memory holds.
* `heaps_keep_contents` — every run of such requests is a run of the heaps.
* `first_block_keeps` — what a process sees of it.
-/

namespace Threaders.Muse

open Lib Common

/-! ## Careful requests -/

/-- The segment of a process has the `n` frames from `k` on, and from its first byte to the last
but one it is a chain of headers. -/
structure EsMonton (c : Config) (s : Globals) (id : Int32) (k n : ℕ) (hs : List HeapMetadata) :
    Prop where
  rango : Rango c k n
  segmento : segmentos s id = [segmentoNuevo c n (desde k n)]
  cadena : Cadena s.memoria (k * c.pagina) hs (k * c.pagina + n * c.pagina - 1)

/-- A request finds a block with room for a header behind it, or none, and then meets none behind
the last one either. -/
def Encuentra (c : Config) (m : Mem) (k n : ℕ) (hs : List HeapMetadata) (memoriaReservar : ℕ) :
    Prop :=
  (∀ heap, hs.find? (cabe · memoriaReservar) = some heap → memoriaReservar + 5 ≤ heap.size) ∧
    ((∀ heap ∈ hs, cabe heap memoriaReservar = false) →
      NadaDetras c m (segmentoNuevo c n (desde k n)) (n * c.pagina - 1) memoriaReservar)

/-- A `MALLOC` that finds no memory; a first one that leaves room; or another one that does.  A
`COPY` of a whole block in use, of any process, or one that is refused.  A `MEMFREE` that is
refused.  Any `GET`. -/
def Cuidada (c : Config) (s : Globals) : Package → Prop
  | .malloc p => NoHayMemoria c s p ∨
      segmentos s p.idLibmuse = [] ∧ (∃ k n, PrimerPedido c s k n p.tam ∧ DejaLugar c n p.tam) ∨
      ∃ k n hs, EsMonton c s p.idLibmuse k n hs ∧ Encuentra c s.memoria k n hs p.tam.toNat
  | .memfree p => existeProcesoEnLista s p.selfId = none ∨
      (leerHeap s.memoria (toI32 p.dir.toNat - 5)).libre = true
  | .copy p => ¬ PasaCopy s.memoria p.dst.toNat ∨
      p.size.toInt = p.content.length ∧ ∃ id k n hs, EsMonton c s id k n hs ∧
        EsBloque s.memoria (k * c.pagina) hs (p.dst.toNat - 5) ⟨p.content.length, false⟩
  | _ => True

/-- A careful request is served. -/
def AtiendeCuidada (c : Config) (s : Globals) (peticion : Package) (s' : Globals) : Prop :=
  Cuidada c s peticion ∧ Atiende c s peticion s'

/-- What a request is to the heaps. -/
def orden : Package → HeapOp Int32 UInt8
  | .malloc p => .alloc p.idLibmuse p.tam.toNat
  | .copy p => .store p.dst.toNat p.content
  | _ => .rest

/-- The heap of a process is its segment, up to the last byte but one; a process without one has
no pages. -/
structure Guarda (c : Config) (s : Globals) (H : Heaps Int32 UInt8 5) : Prop where
  sin : ∀ id, H.row id = none → ∀ segmento ∈ segmentos s id, segmento.listPaginas = []
  con : ∀ id a bs, H.row id = some (a, bs) → ∃ k n, Rango c k n ∧
    segmentos s id = [segmentoNuevo c n (desde k n)] ∧ a = k * c.pagina ∧
      Monton s.memoria a bs (a + n * c.pagina - 1)

section Steps
variable {c : Config} {s s' : Globals} {H : Heaps Int32 UInt8 5} {id : Int32} {a : ℤ}
  {bs : List (Chunk UInt8)} {k n : ℕ} {hs : List HeapMetadata}

/-- The heap of a process is the one that the headers in its segment show. -/
theorem Guarda.row (h : Guarda c s H) (hs' : EsMonton c s id k n hs) : ∃ bs,
    H.row id = some (k * c.pagina, bs) ∧ bs.map cabecera = hs ∧
      Monton s.memoria (k * c.pagina) bs (k * c.pagina + n * c.pagina - 1) := by
  obtain ⟨hrango, hsegmento, hcadena⟩ := hs'
  cases hrow : H.row id with
  | none =>
      have hnil := h.sin id hrow (segmentoNuevo c n (desde k n)) (by simp [hsegmento])
      have hlength := congrArg List.length hnil
      simp only [segmentoNuevo, desde, List.length_map, List.length_range,
        List.length_nil] at hlength
      exact absurd hlength hrango.pos.ne'
  | some row =>
      obtain ⟨a, bs⟩ := row
      obtain ⟨k', n', -, hsegmento', rfl, hmonton⟩ := h.con id a bs hrow
      rw [hsegmento, List.cons.injEq, segmentoNuevo, segmentoNuevo,
        NodoSegmento.mk.injEq] at hsegmento'
      obtain ⟨rfl, rfl⟩ := desde_injective hrango.pos hsegmento'.1.2.2
      refine ⟨bs, rfl, ?_, hmonton⟩
      exact blocks_unique_of_lt (fun x heap => by omega) hmonton.cadena hcadena

theorem Guarda.row_none (h : Guarda c s H) (hnil : segmentos s id = []) : H.row id = none := by
  cases hrow : H.row id with
  | none => rfl
  | some row =>
      obtain ⟨_, _, -, hsegmento, -⟩ := h.con id row.1 row.2 hrow
      rw [hnil] at hsegmento
      cases hsegmento

/-- What leaves the segments and the memory leaves the heaps. -/
theorem Guarda.congr (h : Guarda c s H) (hsegmentos : ∀ id, segmentos s' id = segmentos s id)
    (hmemoria : s'.memoria = s.memoria) : Guarda c s' H where
  sin id hrow := by
    rw [hsegmentos]
    exact h.sin id hrow
  con id a bs hrow := by
    rw [hsegmentos, hmemoria]
    exact h.con id a bs hrow

/-- A row is put in the place of one of its size, and no byte outside it changes. -/
theorem Guarda.put {bs' : List (Chunk UInt8)} (h : Guarda c s H) (hrow : H.row id = some (a, bs))
    (hsegmentos : ∀ id, segmentos s' id = segmentos s id) (hspan : span 5 bs' = span 5 bs)
    (hmonton : ∀ e, Monton s.memoria a bs e → Monton s'.memoria a bs' e)
    (hframe : ∀ i, i < a ∨ a + span 5 bs ≤ i → s'.memoria i = s.memoria i) :
    Guarda c s' (H.put id (a, bs') (Heaps.apart_of_span hrow hspan)) where
  sin id' hrow' := by
    by_cases hid : id' = id
    · rw [hid, Heaps.row_put_self] at hrow'
      cases hrow'
    · rw [Heaps.row_put_of_ne hid] at hrow'
      rw [hsegmentos]
      exact h.sin id' hrow'
  con id' a' cs hrow' := by
    rw [hsegmentos]
    by_cases hid : id' = id
    · subst hid
      rw [Heaps.row_put_self, Option.some.injEq, Prod.mk.injEq] at hrow'
      obtain ⟨rfl, rfl⟩ := hrow'
      obtain ⟨k, n, hrango, hsegmento, hinicio, hold⟩ := h.con id' a bs hrow
      exact ⟨k, n, hrango, hsegmento, hinicio, hmonton _ hold⟩
    · rw [Heaps.row_put_of_ne hid] at hrow'
      obtain ⟨k, n, hrango, hsegmento, hinicio, hold⟩ := h.con id' a' cs hrow'
      refine ⟨k, n, hrango, hsegmento, hinicio, hold.congr fun i hlo hhi => hframe i ?_⟩
      have hend := hold.end_eq
      have hapart := H.apart id' id (a', cs) (a, bs) hid hrow' hrow
      dsimp only [Apart] at hapart
      rcases hapart with hapart | hapart
      · exact .inl (by omega)
      · exact .inr (by omega)

/-- A chunk in use is read behind a used header. -/
theorem Guarda.used {x : ℤ} {v : Bytes} (h : Guarda c s H) (hmem : (x, v) ∈ H.used id) :
    s.memoria.read x v.length = v ∧ leerHeap s.memoria (x - 5) = ⟨v.length, false⟩ := by
  cases hrow : H.row id with
  | none =>
      rw [Heaps.used, hrow] at hmem
      cases hmem
  | some row =>
      obtain ⟨a, bs⟩ := row
      obtain ⟨_, _, -, -, -, hmonton⟩ := h.con id a bs hrow
      exact hmonton.used (Heaps.used_of_row hrow ▸ hmem)

/-- A chunk in use lies in `memoria`, with its header. -/
theorem Guarda.used_dentro {x : ℤ} {v : Bytes} (h : Guarda c s H) (hmem : (x, v) ∈ H.used id) :
    c.EnMemoria (x - 5) 5 ∧ c.EnMemoria x v.length := by
  cases hrow : H.row id with
  | none =>
      rw [Heaps.used, hrow] at hmem
      cases hmem
  | some row =>
      obtain ⟨a, bs⟩ := row
      obtain ⟨k, n, hrango, -, rfl, hmonton⟩ := h.con id a bs hrow
      obtain ⟨hinicio, -⟩ := hrango.bounds
      have hreales := hrango.reales
      have hend := hmonton.end_eq
      rw [Heaps.used_of_row hrow] at hmem
      have hbounds := bounds_of_mem_usedFrom hmem
      dsimp only at hbounds
      rw [add_mul] at hreales
      exact ⟨.inr (by push_cast; omega), .inr (by omega)⟩

/-- A used block of a heap is a chunk in use. -/
theorem Guarda.mem_used {x : ℤ} {size : ℕ} (h : Guarda c s H) (hmonton : EsMonton c s id k n hs)
    (hb : EsBloque s.memoria (k * c.pagina) hs x ⟨size, false⟩) : ∃ bs w,
      H.row id = some (k * c.pagina, bs) ∧ w.length = size ∧
        (x + 5, w) ∈ usedFrom 5 (k * c.pagina) bs := by
  obtain ⟨bs, hrow, rfl, hbs⟩ := h.row hmonton
  obtain ⟨pre, post, hsplit, hpre⟩ := hb
  obtain ⟨bs₁, bs₂, rfl, rfl, hbs₂⟩ := List.map_eq_append_iff.mp hsplit
  obtain ⟨⟨free, w⟩, bs₃, rfl, hcabecera, -⟩ := List.map_eq_cons_iff.mp hbs₂
  rw [cabecera, HeapMetadata.mk.injEq] at hcabecera
  obtain ⟨hsize, rfl⟩ := hcabecera
  have hx : x = k * c.pagina + span 5 bs₁ :=
    (blocks_unique hpre (monton_split_iff.mp hbs).1.cadena rfl).2
  refine ⟨_, w, hrow, hsize, mem_usedFrom_iff.mpr ⟨bs₁, bs₃, rfl, ?_⟩⟩
  rw [hx, Nat.cast_ofNat]

/-- Each heap ends among the frames that are taken. -/
theorem Guarda.le_taken {r : Arena Int32 c.entradas} (h : Guarda c s H) (hr : Refleja c s r)
    (hrow : H.row id = some (a, bs)) : a + span 5 bs < r.taken * c.pagina := by
  obtain ⟨k, n, hrango, hsegmento, rfl, hmonton⟩ := h.con id a bs hrow
  have hpaginas := hr.paginas id
  rw [hsegmento, List.map_singleton] at hpaginas
  obtain ⟨⟨j, n'⟩, hspan, hdesde⟩ := List.map_eq_singleton_iff.mp hpaginas.symm
  obtain ⟨rfl, rfl⟩ := desde_injective hrango.pos hdesde.symm
  have htaken : k + n ≤ r.taken := Arena.le_taken_of_mem_spansOf (hspan ▸ List.mem_singleton_self _)
  have hle := mul_le_mul_of_nonneg_right (show (k : ℤ) + n ≤ r.taken by omega) hrango.pagina.le
  rw [add_mul] at hle
  have hend := hmonton.end_eq
  omega

/-! ## What each request does to the heaps -/

/-- A `COPY` replaces the bytes of a chunk in use, or is refused. -/
theorem Guarda.copy {p : TCopy} (h : Guarda c s H) (hcuidada : Cuidada c s (.copy p))
    (hstep : Atiende c s (.copy p) s') :
    ∃ H', Heaps.Step H (.store p.dst.toNat p.content) H' ∧ Guarda c s' H' := by
  obtain ⟨fuel, u, l, respuesta, hstep⟩ := hstep
  obtain ⟨-, hstep⟩ := atenderCopy_eq_some hstep
  have hmemoria := (procesarId_spec s p.selfId).1
  rcases hcuidada with hlibre | ⟨hsize, id, k, n, hs, hmonton, hb⟩
  · obtain ⟨-, -, rfl⟩ | ⟨hpasa, -⟩ := hstep
    · refine ⟨H, .miss fun id w hmem => hlibre ?_, h.congr (segmentos_procesarId s p.selfId) hmemoria⟩
      exact pasaCopy_of_usado (by rw [(h.used hmem).2])
    · exact absurd hpasa hlibre
  · obtain ⟨bs, w, hrow, hlength, hmem⟩ := h.mem_used hmonton hb
    obtain ⟨-, hcabecera⟩ := h.used (Heaps.used_of_row hrow ▸ hmem)
    rw [Int.sub_add_cancel] at hmem
    rw [Int.add_sub_cancel, hlength] at hcabecera
    have hpasa := pasaCopy_of_usado (congrArg HeapMetadata.libre hcabecera)
    obtain ⟨hno, -⟩ | ⟨-, -, content, hcontent, -, rfl⟩ := hstep
    · exact absurd hpasa hno
    rw [memcpyFrom_self hsize, Option.some.injEq] at hcontent
    subst hcontent
    -- the size that is written into the header is the one it has
    have htam : p.size.toUInt32.toNat = p.content.length := by
      have hbounds := p.size.toUInt32.toNat_lt
      rw [← toI32_toUInt32] at hsize
      unfold toI32 at hsize
      omega
    have hcopiar : copiar s.memoria p.dst.toNat p.size.toUInt32.toNat p.content
        = s.memoria.write p.dst.toNat p.content :=
      copiar_eq_write p.content (by rw [hcabecera, htam])
    have hspan := span_fill hmem (by omega) hlength.symm
    refine ⟨_, .store hrow hmem hlength.symm (Heaps.apart_of_span hrow hspan),
      h.put hrow (fun id => ?_) hspan (fun e hbs => ?_) fun i hi => ?_⟩
    · exact (segmentos_congr rfl id).trans (segmentos_procesarId s p.selfId id)
    · dsimp only
      rw [hcopiar]
      exact hbs.write hmem hlength.symm
    · have hbounds := bounds_of_mem_usedFrom hmem
      dsimp only
      rw [hcopiar, Mem.write_of_not_mem (by omega)]

theorem partir_of_not_mem {m : Mem} {x i : ℤ} {size r : ℕ} (hroom : r + 5 ≤ size)
    (hi : i < x ∨ x + 5 + size ≤ i) : partir m x size r i = m i := by
  rw [partir, escribirHeap_of_not_mem (by omega), escribirHeap_of_not_mem (by omega)]

/-- What the walk over the segment does to a heap. -/
theorem Monton.cortar {m : Mem} {fuel r : ℕ} {hallado : Option Cabecera} (hr : Rango c k n)
    (h : Monton m (k * c.pagina) bs (k * c.pagina + n * c.pagina - 1))
    (hencuentra : Encuentra c m k n (bs.map cabecera) r)
    (hwalk : buscarSegmento fuel c m (segmentoNuevo c n (desde k n)) r = some hallado) :
    Room 5 r bs ∧ Monton (cortar m r hallado) (k * c.pagina) (firstFit 5 r bs)
        (k * c.pagina + n * c.pagina - 1) ∧
      ∀ i, i < k * c.pagina ∨ k * c.pagina + span 5 bs ≤ i → cortar m r hallado i = m i := by
  obtain ⟨hcabe, hdetras⟩ := hencuentra
  have hroom : Room 5 r bs := fun b hb => by
    refine hcabe (cabecera b) ?_
    rw [List.find?_map]
    exact congrArg (Option.map cabecera) hb
  refine ⟨hroom, ?_⟩
  cases hfind : bs.find? (Chunk.fits r) with
  | none =>
      have hfits : ∀ b ∈ bs, b.fits r = false := fun b hb =>
        Bool.eq_false_iff.mpr (List.find?_eq_none.mp hfind b hb)
      have hnada : ∀ heap ∈ bs.map cabecera, cabe heap r = false := fun heap hheap => by
        obtain ⟨b, hb, rfl⟩ := List.mem_map.mp hheap
        exact hfits b hb
      obtain rfl := h.recorrido_none hr hfits (hdetras hnada) hwalk
      rw [firstFit_eq_self hfits]
      exact ⟨h, fun _ _ => rfl⟩
  | some b =>
      have hlarge := hroom b hfind
      obtain ⟨hb, pre, post, rfl, hpre⟩ := List.find?_eq_some_iff_append.mp hfind
      have hpre : ∀ b ∈ pre, b.fits r = false := fun b hb => by simpa using hpre b hb
      obtain rfl := Monton.recorrido_some hr h hpre hb hwalk
      have hend := h.end_eq
      have hlt := hr.bounds
      rw [firstFit_append hpre hb]
      rw [span_append, span] at hend ⊢
      refine ⟨h.partir hlarge (by omega), fun i hi => ?_⟩
      exact partir_of_not_mem hlarge (by dsimp only [cabecera]; omega)

/-- A later `MALLOC` splits a block of the heap of its process. -/
theorem Guarda.malloc {p : TMalloc} (h : Guarda c s H) (hmonton : EsMonton c s p.idLibmuse k n hs)
    (hencuentra : Encuentra c s.memoria k n hs p.tam.toNat)
    (hstep : Atiende c s (.malloc p) s') :
    ∃ H', Heaps.Step H (.alloc p.idLibmuse p.tam.toNat) H' ∧ Guarda c s' H' := by
  obtain ⟨res, hstep⟩ := atiende_malloc_iff.mp hstep
  obtain ⟨bs, hrow, rfl, hbs⟩ := h.row hmonton
  obtain ⟨hrango, hsegmento, -⟩ := hmonton
  cases malloc_effect hstep with
  | refused _ hnuevo | assigned _ hnuevo =>
      rw [listSegmento_procesarId, hsegmento] at hnuevo
      cases hnuevo
  | @walked s₁ _ segmento fuel respuesta m hs₁ hultimo hwalk hs' =>
      rw [listSegmento_procesarId, hsegmento, List.getLast?_singleton,
        Option.some.injEq] at hultimo
      subst hs₁ hultimo
      obtain ⟨hallado, -, hhallado, -, rfl, -⟩ := recorer_eq_some rfl hwalk
      have hmemoria := (procesarId_spec s p.idLibmuse).1
      rw [hmemoria] at hhallado hs'
      obtain ⟨hroom, hcortado, hframe⟩ := Monton.cortar hrango hbs hencuentra hhallado
      subst hs'
      refine ⟨_, .alloc hrow hroom (Heaps.apart_of_span hrow (span_firstFit hroom)),
        h.put hrow (fun id => ?_) (span_firstFit hroom) (fun e hmonton => ?_) hframe⟩
      · exact (segmentos_congr rfl id).trans (segmentos_procesarId s p.idLibmuse id)
      · rw [hmonton.end_eq, ← hbs.end_eq]
        exact hcortado

/-- A first `MALLOC` is answered with the first of its pages, and makes a segment of them. -/
theorem PrimerPedido.malloc {p : TMalloc} {res : TMallocOk} (h : PrimerPedido c s k n p.tam)
    (hnuevo : segmentos s p.idLibmuse = []) (hlugar : DejaLugar c n p.tam)
    (hstep : MallocStep c s (p, res) s') :
    (res.ptr.toNat : ℤ) = k * c.pagina + 5 ∧
      segmentos s' p.idLibmuse = [segmentoNuevo c n (desde k n)] ∧
      (∀ id, id ≠ p.idLibmuse → segmentos s' id = segmentos s id) ∧
      ∃ g : ℕ, 10 ≤ g ∧
        (k : ℤ) * c.pagina + p.tam.toNat + 10 + g = k * c.pagina + n * c.pagina - 1 ∧
        s'.memoria = trasPrimero s.memoria (k * c.pagina) p.tam.toNat g := by
  obtain ⟨fuel, l, hstep⟩ := hstep
  obtain ⟨hmemoria, hframes, hatributos, hexiste, -⟩ := procesarId_spec s p.idLibmuse
  have hlista := listSegmento_procesarId s p.idLibmuse
  have hsegmentos := segmentos_procesarId s p.idLibmuse
  simp only [atenderMalloc, hlista, hnuevo, List.getLast?_nil, Option.bind_eq_bind,
    Option.bind_eq_some_iff, Option.some.injEq, Prod.mk.injEq, Prod.exists] at hstep
  generalize (procesarId s p.idLibmuse).2 = s₁ at *
  obtain ⟨ptr, segmento, s₂, hret, rfl, rfl⟩ := hstep
  have h₁ : PrimerPedido c s₁ k n p.tam := { h with tablas := h.tablas.congr hframes hatributos }
  obtain ⟨rfl, g, hg, hend, htras⟩ := h₁.montado hlugar hret
  obtain ⟨-, hprocesos, -⟩ := memoria_asignar hret
  obtain ⟨hpos, hk, hpagina, hlt⟩ := h.bounds
  refine ⟨?_, ?_, fun id hid => ?_, g, hg, hend, hmemoria ▸ htras⟩
  · -- the frames that the loop takes begin at `k`
    have hlibre : existeMemoriaPararPaginas c s₁ (cantidadPaginasNecesarias c p.tam) = true := by
      have := h.libres
      rw [h.paginas]
      exact (h₁.tablas.existe_iff (by omega)).mpr (by omega)
    obtain ⟨n', -, hpos', hn', rfl, -, -⟩ := asignarDirMemoria_of_existe hlibre hret
    obtain rfl : n' = n := by
      have := h.paginas
      omega
    rw [(h₁.tablas.asignarPaginas h.libres).2.2 hpos']
    exact ptr_toNat (by omega) (by have := h.pagina; omega)
  · rw [segmentos_agregarSegmento (s := s₁) (by simp [hexiste]) _ (by rw [hprocesos]), hsegmentos,
      hnuevo, List.nil_append]
  · rw [segmentos_agregarSegmento_of_ne (s := s₁) hid.symm (by rw [hprocesos]), hsegmentos]

/-- It makes a heap that begins with the block. -/
theorem Guarda.primero {p : TMalloc} {res : TMallocOk} {r : Arena Int32 c.entradas}
    (h : Guarda c s H) (hr : Refleja c s r) (hprimer : PrimerPedido c s k n p.tam)
    (hnuevo : segmentos s p.idLibmuse = []) (hlugar : DejaLugar c n p.tam)
    (hstep : MallocStep c s (p, res) s') :
    ∃ H' v, Heaps.Step H (.alloc p.idLibmuse p.tam.toNat) H' ∧ Guarda c s' H' ∧
      v.length = p.tam.toNat ∧ ((res.ptr.toNat : ℤ), v) ∈ H'.used p.idLibmuse := by
  obtain ⟨hptr, hpropio, hotros, g, hg, hend, hmemoria⟩ := hprimer.malloc hnuevo hlugar hstep
  obtain ⟨hpos, hk, hpagina, hlt⟩ := hprimer.bounds
  have htaken := hprimer.tablas.unique hr.lockstep
  obtain ⟨hs, hcadena⟩ := trasPrimero_cadena (m := s.memoria) (a := k * c.pagina) hg
    (by omega) hlugar.2
  rw [← hmemoria, hend] at hcadena
  obtain ⟨bs, hcabeceras, hmonton⟩ := exists_monton hcadena
  obtain ⟨⟨free, v⟩, bs, rfl, hcabecera, -⟩ := List.map_eq_cons_iff.mp hcabeceras
  rw [cabecera, HeapMetadata.mk.injEq] at hcabecera
  obtain ⟨hlength, rfl⟩ := hcabecera
  have hrow := h.row_none hnuevo
  -- the heaps there are end in front of the frames that are given
  have hapart : ∀ id row, id ≠ p.idLibmuse → H.row id = some row →
      Apart 5 ((k : ℤ) * c.pagina, ⟨false, v⟩ :: bs) row := fun id row _ hrow => by
    have hle := h.le_taken hr hrow
    rw [← htaken] at hle
    exact .inr hle.le
  have hfirst : ((k : ℤ) * c.pagina + 5, v) ∈ usedFrom 5 (k * c.pagina) (⟨false, v⟩ :: bs) :=
    mem_usedFrom_iff.mpr ⟨[], bs, rfl, by rw [span]; omega⟩
  refine ⟨H.put p.idLibmuse _ hapart, v, .create hrow hlength hfirst hapart, ⟨fun id hnone => ?_,
    fun id a' bs' hsome => ?_⟩, hlength, ?_⟩
  · by_cases hid : id = p.idLibmuse
    · rw [hid, Heaps.row_put_self] at hnone
      cases hnone
    · rw [Heaps.row_put_of_ne hid] at hnone
      rw [hotros id hid]
      exact h.sin id hnone
  · by_cases hid : id = p.idLibmuse
    · rw [hid, Heaps.row_put_self, Option.some.injEq, Prod.mk.injEq] at hsome
      obtain ⟨rfl, rfl⟩ := hsome
      exact ⟨k, n, hprimer.rango, hid ▸ hpropio, rfl, hmonton⟩
    · rw [Heaps.row_put_of_ne hid] at hsome
      obtain ⟨j, n', hrango, hsegmento, hinicio, hold⟩ := h.con id a' bs' hsome
      refine ⟨j, n', hrango, hotros id hid ▸ hsegmento, hinicio, hold.congr fun i _ hi => ?_⟩
      have hle := h.le_taken hr hsome
      have hold := hold.end_eq
      rw [hmemoria, trasPrimero_of_not_mem hg (by omega) (.inl (by rw [htaken]; omega))]
  · rw [Heaps.used_put_self, hptr]
    exact hfirst

/-- A `MALLOC` that finds no memory makes no heap. -/
theorem Guarda.sinMemoria {p : TMalloc} (h : Guarda c s H) (hlleno : NoHayMemoria c s p)
    (hstep : Atiende c s (.malloc p) s') :
    Heaps.Step H (.alloc p.idLibmuse p.tam.toNat) H ∧ Guarda c s' H := by
  obtain ⟨-, -, hmemoria, hpropio, hotros⟩ := refused_effect hlleno hstep
  have hrow : H.row p.idLibmuse = none := h.row_none hlleno.1
  refine ⟨.refuse hrow, fun id hnone segmento hsegmento => ?_, fun id a bs hsome => ?_⟩
  · by_cases hid : id = p.idLibmuse
    · rw [hid, hpropio, List.mem_singleton] at hsegmento
      rw [hsegmento]
      rfl
    · exact h.sin id hnone segmento (hotros id hid ▸ hsegmento)
  · have hid : id ≠ p.idLibmuse := fun hid => by
      rw [hid, hrow] at hsome
      cases hsome
    rw [hotros id hid, hmemoria]
    exact h.con id a bs hsome

/-- The heaps of the processes, with the page tables behind them. -/
def Montado (c : Config) (s : Globals) (H : Heaps Int32 UInt8 5) : Prop :=
  Guarda c s H ∧ ∃ r : Arena Int32 c.entradas, Refleja c s r

/-- Every careful request is a step of the heaps. -/
theorem Montado.step {peticion : Package} (h : Montado c s H)
    (hstep : AtiendeCuidada c s peticion s') :
    ∃ H', Heaps.Step H (orden peticion) H' ∧ Montado c s' H' := by
  obtain ⟨h, r, hr⟩ := h
  obtain ⟨hcuidada, hstep⟩ := hstep
  have hr' := hr.step hstep
  suffices hheaps : ∃ H', Heaps.Step H (orden peticion) H' ∧ Guarda c s' H' by
    obtain ⟨H', hop, h'⟩ := hheaps
    exact ⟨H', hop, h', _, hr'⟩
  cases peticion with
  | malloc p =>
      rcases hcuidada with hlleno | ⟨hnuevo, k, n, hprimer, hlugar⟩ |
        ⟨k, n, hs, hmonton, hencuentra⟩
      · exact ⟨H, h.sinMemoria hlleno hstep⟩
      · obtain ⟨res, hstep⟩ := atiende_malloc_iff.mp hstep
        obtain ⟨H', -, hop, h', -⟩ := h.primero hr hprimer hnuevo hlugar hstep
        exact ⟨H', hop, h'⟩
      · exact h.malloc hmonton hencuentra hstep
  | memfree p =>
      obtain ⟨fuel, u, l, respuesta, hstep⟩ := hstep
      have hsame : s' = s := by
        rw [atender] at hstep
        rcases hcuidada with hnone | hlibre
        · rw [atenderMemfree_none hnone, Option.some.injEq, Prod.mk.injEq] at hstep
          exact hstep.2.symm
        · by_cases hid : existeProcesoEnLista s p.selfId = none
          · rw [atenderMemfree_none hid, Option.some.injEq, Prod.mk.injEq] at hstep
            exact hstep.2.symm
          · rw [atenderMemfree_libre (enMemoria_of_memfree hid hstep) hlibre, Option.some.injEq,
              Prod.mk.injEq] at hstep
            exact hstep.2.symm
      exact ⟨H, .rest, hsame ▸ h⟩
  | get p =>
      obtain ⟨fuel, u, l, respuesta, hstep⟩ := hstep
      rw [atender, atenderGet_eq, Option.ite_none_right_eq_some, Option.some.injEq,
        Prod.mk.injEq] at hstep
      obtain ⟨-, -, rfl⟩ := hstep
      exact ⟨H, .rest, h.congr (segmentos_procesarId s p.idLibmuse) (procesarId_spec s _).1⟩
  | copy p => exact h.copy hcuidada hstep
  | _ =>
      obtain ⟨fuel, u, l, respuesta, hstep⟩ := hstep
      cases hstep

theorem Montado.run {es : List Package} (h : Montado c s H)
    (hrun : Run (AtiendeCuidada c) s es s') :
    ∃ H', Run Heaps.Step H (es.map orden) H' ∧ Montado c s' H' :=
  hrun.simulation (fun _ _ _ _ h hstep => h.step hstep) h

theorem montado_museInit (c : Config) (m : Mem) : Montado c (museInit c m) Heaps.empty :=
  ⟨⟨fun _ _ _ hmem => absurd hmem List.not_mem_nil, nofun⟩, _, refleja_museInit c m⟩

/-- A first request that leaves room, if it is answered, is answered with a chunk in use, from
which on there are eight bytes in `memoria`. -/
theorem Montado.primero {p : TMalloc} {res : TMallocOk} (h : Montado c s H)
    (hnuevo : segmentos s p.idLibmuse = []) (hcuidada : Cuidada c s (.malloc p))
    (hlibre : ¬ NoHayMemoria c s p) (hstep : MallocStep c s (p, res) s') :
    c.EnMemoria res.ptr.toNat 8 ∧ ∃ H' v, Montado c s' H' ∧ v.length = p.tam.toNat ∧
      ((res.ptr.toNat : ℤ), v) ∈ H'.used p.idLibmuse := by
  obtain ⟨h, r, hr⟩ := h
  rcases hcuidada with hlleno | ⟨-, k, n, hprimer, hlugar⟩ | ⟨k, n, hs, hmonton, -⟩
  · exact absurd hlleno hlibre
  · obtain ⟨H', v, -, h', hlength, hmem⟩ := h.primero hr hprimer hnuevo hlugar hstep
    refine ⟨?_, H', v, ⟨h', _, hr.malloc (atiende_malloc_iff.mpr ⟨res, hstep⟩)⟩, hlength, hmem⟩
    obtain ⟨hptr, -⟩ := hprimer.malloc hnuevo hlugar hstep
    have hreales := hprimer.reales
    have hsobran := hlugar.1
    rw [add_mul] at hreales
    rw [sobran] at hsobran
    exact .inr (by push_cast; omega)
  · rw [hmonton.segmento] at hnuevo
    cases hnuevo

/-- A chunk in use is kept, and read behind its header. -/
theorem Montado.keeps {es : List Package} {x : ℤ} {v : Bytes} (h : Montado c s H)
    (hmem : (x, v) ∈ H.used id) (hrun : Run (AtiendeCuidada c) s es s') :
    ∃ H', Montado c s' H' ∧ (x, Heaps.lastStored x v (es.map orden)) ∈ H'.used id ∧
      (Heaps.lastStored x v (es.map orden)).length = v.length ∧
      s'.memoria.read x v.length = Heaps.lastStored x v (es.map orden) ∧
      leerHeap s'.memoria (x - 5) = ⟨v.length, false⟩ := by
  obtain ⟨H', hrun', h'⟩ := h.run hrun
  obtain ⟨hlater, hlength⟩ := Heaps.keeps_run (by omega) hrun' hmem
  have hread := h'.1.used hlater
  rw [hlength] at hread
  exact ⟨H', h', hlater, hlength, hread⟩

/-- A `COPY` of a whole chunk in use is careful. -/
theorem Guarda.cuidada_copy {p : TCopy} {v : Bytes} (h : Guarda c s H)
    (hmem : ((p.dst.toNat : ℤ), v) ∈ H.used id) (hsize : p.size.toInt = p.content.length)
    (hlength : p.content.length = v.length) : Cuidada c s (.copy p) := by
  cases hrow : H.row id with
  | none =>
      rw [Heaps.used, hrow] at hmem
      cases hmem
  | some row =>
      obtain ⟨a, bs⟩ := row
      obtain ⟨k, n, hrango, hsegmento, rfl, hmonton⟩ := h.con id a bs hrow
      rw [Heaps.used_of_row hrow] at hmem
      obtain ⟨pre, post, rfl, hdst⟩ := mem_usedFrom_iff.mp hmem
      refine .inr ⟨hsize, id, k, n, _, ⟨hrango, hsegmento, hmonton.cadena⟩, pre.map cabecera,
        post.map cabecera, ?_, ?_⟩
      · rw [List.map_append, List.map_cons, cabecera, hlength]
      · rw [hdst, Nat.cast_ofNat, Int.add_sub_cancel]
        exact (monton_split_iff.mp hmonton).1.cadena

end Steps

/-! ## Runs -/

/-- **The heaps keep their contents.**  Every run of careful requests is a run of heaps that lie
apart, whose chunks are what the memory holds behind the headers of the segments.  So a chunk in
use stays where it is, with its size, and holds what was copied there last, whatever any of the
processes asks for. -/
theorem heaps_keep_contents {c : Config} {m : Mem} {es : List Package} {s : Globals}
    (h : Run (AtiendeCuidada c) (museInit c m) es s) : ∃ H : Heaps Int32 UInt8 5,
    Run Heaps.Step Heaps.empty (es.map orden) H ∧ Guarda c s H ∧
    ∀ es' s', Run (AtiendeCuidada c) s es' s' →
      ∃ H', Run Heaps.Step H (es'.map orden) H' ∧ Guarda c s' H' ∧
        ∀ id x v, (x, v) ∈ H.used id →
          (x, Heaps.lastStored x v (es'.map orden)) ∈ H'.used id ∧
          s'.memoria.read x v.length = Heaps.lastStored x v (es'.map orden) ∧
          leerHeap s'.memoria (x - 5) = ⟨v.length, false⟩ := by
  obtain ⟨H, hrun, hs⟩ := (montado_museInit c m).run h
  refine ⟨H, hrun, hs.1, fun es' s' h' => ?_⟩
  obtain ⟨H', hrun', hs'⟩ := hs.run h'
  refine ⟨H', hrun', hs'.1, fun id x v hmem => ?_⟩
  obtain ⟨hlater, hlength⟩ := Heaps.keeps_run (by omega) hrun' hmem
  have hread := hs'.1.used hlater
  rw [hlength] at hread
  exact ⟨hlater, hread⟩

/-- Five bytes for the first process, as many copied there, and five more instead. -/
theorem copia_cinco : ∃ s s' s'' : Globals,
    atenderMalloc 200 ⟨96, 32, 0, 0⟩ ⟨0, 0⟩ (museInit ⟨96, 32, 0, 0⟩ fun _ => 0) ⟨5, 1⟩
      = some (⟨5⟩, s) ∧
    AtiendeCuidada ⟨96, 32, 0, 0⟩ (museInit ⟨96, 32, 0, 0⟩ fun _ => 0) (.malloc ⟨5, 1⟩) s ∧
    AtiendeCuidada ⟨96, 32, 0, 0⟩ s (.copy ⟨5, 1, 5, [1, 2, 3, 4, 5]⟩) s' ∧
    AtiendeCuidada ⟨96, 32, 0, 0⟩ s (.malloc ⟨5, 1⟩) s'' := by
  obtain ⟨s, hmalloc, hheap, -⟩ := malloc_cinco
  obtain ⟨s₂, hmalloc₂, hid, -, -, -, hcall⟩ := segmento_cinco
  obtain rfl : s₂ = s := congrArg Prod.snd (Option.some.inj (hmalloc₂.symm.trans hmalloc))
  have hprimer : PrimerPedido ⟨96, 32, 0, 0⟩ (museInit ⟨96, 32, 0, 0⟩ fun _ => 0) 0 1 5 :=
    primerPedido_museInit (by decide) (by decide)
  have hinicio : ((0 : ℕ) : ℤ) * Config.pagina ⟨96, 32, 0, 0⟩ = 0 := by decide
  have hfin : (0 : ℤ) + (1 : ℕ) * Config.pagina ⟨96, 32, 0, 0⟩ - 1 = 31 := by decide
  have hsegmentos : segmentos s₂ 1 = [segmentoNuevo ⟨96, 32, 0, 0⟩ (1 : ℕ) (desde 0 1)] := by
    rw [segmentos, hid]
    decide
  have hmonton : EsMonton ⟨96, 32, 0, 0⟩ s₂ 1 0 1 [⟨5, false⟩, ⟨16, true⟩] :=
    ⟨hprimer.rango, hsegmentos, by rwa [hinicio, hfin]⟩
  have hlibre : (leerHeap s₂.memoria 0).libre = false :=
    congrArg HeapMetadata.libre (Option.some.inj hheap.1)
  have hcopy := atenderCopy_usado (c := ⟨96, 32, 0, 0⟩) (u := ⟨0, fun _ => 0⟩)
    (p := ⟨5, 1, 5, [1, 2, 3, 4, 5]⟩) (by decide) (by decide) (pasaCopy_of_usado hlibre) (by decide)
  -- the second request goes to the free block of sixteen
  obtain ⟨⟨respuesta, m⟩, hcall, -⟩ := Option.map_eq_some_iff.mp hcall
  have hencuentra : Encuentra ⟨96, 32, 0, 0⟩ s₂.memoria 0 1 [⟨5, false⟩, ⟨16, true⟩] 5 := by
    refine ⟨fun heap hfind => ?_, fun hnada => absurd (hnada ⟨16, true⟩ (by simp)) (by decide)⟩
    obtain rfl : ⟨16, true⟩ = heap := Option.some.inj hfind
    decide
  have hsegundo := segundo_cinco hid hcall
  exact ⟨s₂, _, _, hmalloc, ⟨.inr (.inl ⟨rfl, 0, 1, hprimer, by decide, .inl rfl⟩),
    atiende_malloc_iff.mpr ⟨_, 200, _, hmalloc⟩⟩, ⟨.inr ⟨by decide, 1, 0, 1, _, hmonton, [],
      [⟨16, true⟩], rfl, hinicio⟩, 0, _, ⟨0, 0⟩, _, hcopy⟩,
    .inr (.inr ⟨0, 1, _, hmonton, hencuentra⟩), atiende_malloc_iff.mpr ⟨_, 200, _, hsegundo⟩⟩

/-- Each of them is a run of the heaps. -/
theorem heaps_keep_contents_cinco : ∃ (s s' s'' : Globals) (H H' H'' : Heaps Int32 UInt8 5),
    AtiendeCuidada ⟨96, 32, 0, 0⟩ (museInit ⟨96, 32, 0, 0⟩ fun _ => 0) (.malloc ⟨5, 1⟩) s ∧
    Run Heaps.Step Heaps.empty [.alloc 1 5] H ∧ Guarda ⟨96, 32, 0, 0⟩ s H ∧
    AtiendeCuidada ⟨96, 32, 0, 0⟩ s (.copy ⟨5, 1, 5, [1, 2, 3, 4, 5]⟩) s' ∧
    Run Heaps.Step H [.store 5 [1, 2, 3, 4, 5]] H' ∧ Guarda ⟨96, 32, 0, 0⟩ s' H' ∧
    AtiendeCuidada ⟨96, 32, 0, 0⟩ s (.malloc ⟨5, 1⟩) s'' ∧
    Run Heaps.Step H [.alloc 1 5] H'' ∧ Guarda ⟨96, 32, 0, 0⟩ s'' H'' := by
  obtain ⟨s, s', s'', -, hmalloc, hcopy, hsegundo⟩ := copia_cinco
  obtain ⟨H, hrun, hs, hlater⟩ := heaps_keep_contents (.single hmalloc)
  obtain ⟨H', hrun', hs', -⟩ := hlater _ s' (.single hcopy)
  obtain ⟨H'', hrun'', hs'', -⟩ := hlater _ s'' (.single hsegundo)
  exact ⟨s, s', s'', H, H', H'', hmalloc, hrun, hs, hcopy, hrun', hs', hsegundo, hrun'', hs''⟩

/-- **What a process was given first is its own.**  Let a first `MALLOC` that leaves room be
answered, anywhere in a run of careful requests.  The address is that of a block of the size asked
for.  From then on the block stays there and holds what was copied to it last, whatever any of the
processes asks for; and a `COPY` of as many bytes to it is a careful request at any time. -/
theorem first_block_keeps {c : Config} {m : Mem} {es es' : List Package} {s t s' : Globals}
    {p : TMalloc} {res : TMallocOk} (h : Run (AtiendeCuidada c) (museInit c m) es s)
    (hnuevo : segmentos s p.idLibmuse = []) (hcuidada : Cuidada c s (.malloc p))
    (hlibre : ¬ NoHayMemoria c s p) (hstep : MallocStep c s (p, res) t)
    (h' : Run (AtiendeCuidada c) t es' s') :
    s'.memoria.read res.ptr.toNat p.tam.toNat = Heaps.lastStored (res.ptr.toNat : ℤ)
        (t.memoria.read res.ptr.toNat p.tam.toNat) (es'.map orden) ∧
      leerHeap s'.memoria (res.ptr.toNat - 5) = ⟨p.tam.toNat, false⟩ ∧
      ∀ selfId (size : Int32) (content : Bytes), size.toInt = content.length →
        content.length = p.tam.toNat → Cuidada c s' (.copy ⟨res.ptr, selfId, size, content⟩) := by
  obtain ⟨H, -, hs⟩ := (montado_museInit c m).run h
  obtain ⟨-, H₁, v, ht, hlength, hmem⟩ := hs.primero hnuevo hcuidada hlibre hstep
  obtain ⟨H', hs', hlater, hkept, hread, hheader⟩ := ht.keeps hmem h'
  have hbefore := (ht.1.used hmem).1
  rw [hlength] at hbefore hread hheader
  refine ⟨hbefore ▸ hread, hheader, fun selfId size content hsize hcontent => ?_⟩
  exact hs'.1.cuidada_copy hlater hsize (hcontent.trans (hkept.trans hlength).symm)

/-- The five bytes are read where the process was told. -/
theorem first_block_keeps_cinco : ∃ s s' : Globals,
    MallocStep ⟨96, 32, 0, 0⟩ (museInit ⟨96, 32, 0, 0⟩ fun _ => 0) (⟨5, 1⟩, ⟨5⟩) s ∧
    AtiendeCuidada ⟨96, 32, 0, 0⟩ s (.copy ⟨5, 1, 5, [1, 2, 3, 4, 5]⟩) s' ∧
    s'.memoria.read 5 5 = [1, 2, 3, 4, 5] := by
  obtain ⟨s, s', -, hserved, hmalloc, hcopy, -⟩ := copia_cinco
  have hstep : MallocStep ⟨96, 32, 0, 0⟩ (museInit ⟨96, 32, 0, 0⟩ fun _ => 0) (⟨5, 1⟩, ⟨5⟩) s :=
    ⟨200, _, hserved⟩
  exact ⟨s, s', hstep, hcopy,
    (first_block_keeps (.nil _) rfl hmalloc.1 (by decide) hstep (.single hcopy)).1⟩

end Threaders.Muse
