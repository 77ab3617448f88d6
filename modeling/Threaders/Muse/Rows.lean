import Threaders.Lib.Heaps
import Threaders.Muse.Layout

/-!
# Rows of blocks in memory

A segment is a row of blocks from its first byte to the last but one: headers, each with the bytes
behind it.  A block in use can be overwritten, and a free one be split; a row stays a row.  The
walk over the segment goes along it to the first block that is large enough.  A first request
begins one, where it leaves enough room for the headers that are written behind its block.

## Main definitions

* `Monton` — a row of blocks in memory.
* `Monton.recorrido_some` — what the walk over a segment finds in one.
* `DejaLugar` — a first request leaves enough room.
-/

namespace Threaders.Muse

open Lib Common

/-! ## Rows of blocks in memory -/

/-- The header of a block. -/
def cabecera (b : Chunk UInt8) : HeapMetadata := ⟨b.bytes.length, b.free⟩

/-- The block whose header is at an address. -/
def leerBloque (m : Mem) (x : ℤ) : Option (Chunk UInt8) :=
  some ⟨(leerHeap m x).libre, m.read (x + 5) (leerHeap m x).size⟩

/-- From `a` up to `e` the memory is this row of blocks. -/
def Monton (m : Mem) (a : ℤ) (bs : List (Chunk UInt8)) (e : ℤ) : Prop :=
  Blocks (leerBloque m) (fun x b => x + 5 + b.bytes.length) a bs e

section Rows
variable {m m' : Mem} {a e x y : ℤ} {b : Chunk UInt8} {bs pre post : List (Chunk UInt8)}
  {hs : List HeapMetadata} {v w : Bytes} {r : ℕ}

theorem leerBloque_eq_some_iff : leerBloque m x = some b ↔
    leerHeap m x = cabecera b ∧ m.read (x + 5) b.bytes.length = b.bytes := by
  rw [leerBloque, Option.some.injEq]
  constructor
  · rintro rfl
    rw [cabecera, Mem.length_read]
    exact ⟨rfl, rfl⟩
  · rintro ⟨hheap, hbytes⟩
    rw [hheap, cabecera, hbytes]

theorem le_behind (x : ℤ) (b : Chunk UInt8) : x ≤ x + 5 + b.bytes.length := by omega

theorem Monton.end_eq (h : Monton m a bs e) : e = a + span 5 bs := by
  induction bs generalizing a with
  | nil =>
      rw [span]
      exact (show a = e from h).symm.trans (Int.add_zero a).symm
  | cons b bs ih =>
      have hend : e = a + 5 + b.bytes.length + span 5 bs := ih h.2
      rw [hend, span]
      omega

/-- The headers of a row are a chain. -/
theorem Monton.cadena (h : Monton m a bs e) : Cadena m a (bs.map cabecera) e := by
  induction bs generalizing a with
  | nil => exact h
  | cons b bs ih =>
      obtain ⟨hleer, h⟩ := h
      exact ⟨congrArg some (leerBloque_eq_some_iff.mp hleer).1, ih h⟩

/-- What lies behind the headers of a chain makes it a row. -/
theorem exists_monton (h : Cadena m a hs e) : ∃ bs, bs.map cabecera = hs ∧ Monton m a bs e := by
  induction hs generalizing a with
  | nil => exact ⟨[], rfl, h⟩
  | cons heap hs ih =>
      obtain ⟨hheap, h⟩ := h
      obtain ⟨bs, rfl, hbs⟩ := ih h
      have hheap : leerHeap m a = heap := Option.some.inj hheap
      refine ⟨⟨heap.libre, m.read (a + 5) heap.size⟩ :: bs, ?_, ?_, ?_⟩
      · rw [List.map_cons, cabecera, Mem.length_read]
      · rw [leerBloque, hheap]
      · dsimp only
        rw [Mem.length_read]
        exact hbs

/-- The same bytes are the same row. -/
theorem Monton.congr (h : Monton m a bs e) (hsame : ∀ i, a ≤ i → i < e → m' i = m i) :
    Monton m' a bs e := by
  refine blocks_congr le_behind (fun x b hlo hhi hleer => ?_) h
  rw [leerBloque_eq_some_iff] at hleer ⊢
  have hheap : leerHeap m' x = leerHeap m x :=
    leerHeap_congr fun i hi hi' => hsame i (by omega) (by omega)
  have hbytes : m'.read (x + 5) b.bytes.length = m.read (x + 5) b.bytes.length :=
    Mem.read_congr fun i hi hi' => hsame i (by omega) (by omega)
  rwa [hheap, hbytes]

/-- A row is cut at one of its blocks. -/
theorem monton_split_iff : Monton m a (pre ++ b :: post) e ↔
    Monton m a pre (a + span 5 pre) ∧ leerBloque m (a + span 5 pre) = some b ∧
      Monton m (a + span 5 pre + 5 + b.bytes.length) post e := by
  constructor
  · intro h
    obtain ⟨x, hpre, hb, hpost⟩ := blocks_append.mp h
    obtain rfl : x = a + span 5 pre := Monton.end_eq hpre
    exact ⟨hpre, hb, hpost⟩
  · rintro ⟨hpre, hb, hpost⟩
    exact blocks_append.mpr ⟨_, hpre, hb, hpost⟩

/-- A block in use is read behind its header. -/
theorem Monton.used (h : Monton m a bs e) (hmem : (x, v) ∈ usedFrom 5 a bs) :
    m.read x v.length = v ∧ leerHeap m (x - 5) = ⟨v.length, false⟩ := by
  obtain ⟨pre, post, rfl, rfl⟩ := mem_usedFrom_iff.mp hmem
  obtain ⟨-, hb, -⟩ := monton_split_iff.mp h
  obtain ⟨hheap, hbytes⟩ := leerBloque_eq_some_iff.mp hb
  refine ⟨hbytes, ?_⟩
  rw [Nat.cast_ofNat, Int.add_sub_cancel]
  exact hheap

/-- The bytes of a block in use are replaced. -/
theorem Monton.write (h : Monton m a bs e) (hmem : (x, w) ∈ usedFrom 5 a bs)
    (hlength : v.length = w.length) : Monton (m.write x v) a (fill 5 x v a bs) e := by
  obtain ⟨pre, post, rfl, rfl⟩ := mem_usedFrom_iff.mp hmem
  obtain ⟨hpre, hb, hpost⟩ := monton_split_iff.mp h
  obtain ⟨hheap, -⟩ := leerBloque_eq_some_iff.mp hb
  rw [fill_append (by omega)]
  rw [Nat.cast_ofNat] at *
  refine monton_split_iff.mpr ⟨?_, ?_, ?_⟩
  · exact hpre.congr fun i _ hi => Mem.write_of_not_mem (.inl (by omega))
  · rw [leerBloque_eq_some_iff, leerHeap_write (.inl (by omega)), hheap]
    refine ⟨?_, Mem.read_write_self⟩
    rw [cabecera, cabecera, hlength]
  · dsimp only at hpost ⊢
    rw [hlength]
    exact hpost.congr fun i hi _ => Mem.write_of_not_mem (.inr (by omega))

/-- A block that is large enough is split. -/
theorem Monton.partir (h : Monton m a (pre ++ b :: post) e)
    (hroom : r + 5 ≤ b.bytes.length) (hsize : b.bytes.length < 2147483648) :
    Monton (partir m (a + span 5 pre) b.bytes.length r) a (pre ++ (b.split 5 r ++ post)) e := by
  obtain ⟨hpre, hb, hpost⟩ := monton_split_iff.mp h
  obtain ⟨-, hbytes⟩ := leerBloque_eq_some_iff.mp hb
  generalize hx : a + (span 5 pre : ℤ) = x at *
  generalize hlength : b.bytes.length = size at *
  have hresto : (toU32 (toI32 size - r - 5)).toNat = size - (r + 5) := by
    rw [toI32_of_mem (by omega) (by omega), toU32_of_mem (by omega) (by omega)]
    omega
  rw [Muse.partir, hresto]
  -- the second header is laid over bytes of the block
  have hfuera : ∀ i, i < x ∨ x + 5 ≤ i ∧ i < x + 5 + r ∨ x + r + 10 ≤ i →
      escribirHeap (escribirHeap m x ⟨r, false⟩) (x + 5 + r) ⟨size - (r + 5), true⟩ i = m i :=
    fun i hi => by rw [escribirHeap_of_not_mem (by omega), escribirHeap_of_not_mem (by omega)]
  have htake : b.bytes.take r = m.read (x + 5) r := by
    rw [← hbytes, Mem.take_read (by omega)]
  have hdrop : b.bytes.drop (r + 5) = m.read (x + 5 + (r + 5 : ℕ)) (size - (r + 5)) := by
    rw [← hbytes, Mem.drop_read hroom]
  rw [Chunk.split, htake, hdrop]
  refine blocks_append.mpr ⟨x, ?_, ?_, ?_, ?_⟩
  · exact hpre.congr fun i _ hi => hfuera i (.inl hi)
  · rw [leerBloque_eq_some_iff, leerHeap_escribirHeap_of_ne (by omega),
      leerHeap_escribirHeap (by dsimp only; omega), cabecera, Mem.length_read]
    exact ⟨rfl, Mem.read_congr fun i hi hi' => hfuera i (by omega)⟩
  · dsimp only
    rw [Mem.length_read, leerBloque_eq_some_iff, leerHeap_escribirHeap (by dsimp only; omega),
      cabecera, Mem.length_read, show x + 5 + ((r + 5 : ℕ) : ℤ) = x + 5 + r + 5 by omega]
    exact ⟨rfl, Mem.read_congr fun i hi hi' => hfuera i (by omega)⟩
  · dsimp only
    rw [Mem.length_read, Mem.length_read,
      show x + 5 + (r : ℤ) + 5 + ((size - (r + 5) : ℕ) : ℤ) = x + 5 + size by omega]
    exact hpost.congr fun i hi _ => hfuera i (by omega)

end Rows

/-! ## The walk over a segment -/

/-- The headers of a row, with their addresses. -/
def cabecerasDesde : ℤ → List (Chunk UInt8) → List Cabecera
  | _, [] => []
  | a, b :: bs => (a, cabecera b) :: cabecerasDesde (a + 5 + b.bytes.length) bs

section Walk
variable {c : Config} {m : Mem} {k n r fuel : ℕ} {a e offset : ℤ} {b : Chunk UInt8}
  {bs pre post : List (Chunk UInt8)} {hallado : Option Cabecera}

theorem hueco_cabecerasDesde (h : ∀ b ∈ bs, b.fits r = false) :
    ∀ w ∈ cabecerasDesde a bs, hueco r w = false := by
  induction bs generalizing a with
  | nil => nofun
  | cons b bs ih =>
      intro w hw
      rcases List.mem_cons.mp hw with rfl | hw
      · exact h b List.mem_cons_self
      · exact ih (fun b' hb' => h b' (List.mem_cons_of_mem b hb')) w hw

/-- The walk over the segment reads the headers of the row. -/
theorem Monton.cadenaSegmento (offset : ℤ) (hr : Rango c k n)
    (h : Monton m (k * c.pagina + offset) bs e) (h0 : 0 ≤ offset)
    (he : e < k * c.pagina + n * c.pagina) :
    CadenaSegmento c m (segmentoNuevo c n (desde k n)) offset
      (cabecerasDesde (k * c.pagina + offset) bs) (e - k * c.pagina) := by
  induction bs generalizing offset with
  | nil =>
      have hend : k * c.pagina + offset = e := h
      show offset = e - k * c.pagina
      omega
  | cons b bs ih =>
      obtain ⟨hleer, h⟩ := h
      dsimp only at h
      have hle := blocks_le le_behind h
      obtain ⟨hheap, -⟩ := leerBloque_eq_some_iff.mp hleer
      have hnext : detras offset (k * c.pagina + offset, cabecera b)
          = offset + 5 + b.bytes.length := rfl
      have hdir : k * c.pagina + offset + 5 + (b.bytes.length : ℤ)
          = k * c.pagina + (offset + 5 + b.bytes.length) := by omega
      refine ⟨?_, ?_⟩
      · rw [hr.leer_eq m h0 (by omega), hheap]
      · rw [hnext, hdir]
        exact ih _ (hdir ▸ h) (by omega)

/-- Where no block is large enough the walk ends without one, unless it meets one behind. -/
theorem Monton.recorrido_none (hr : Rango c k n)
    (h : Monton m (k * c.pagina) bs (k * c.pagina + n * c.pagina - 1))
    (hfits : ∀ b ∈ bs, b.fits r = false)
    (hdetras : NadaDetras c m (segmentoNuevo c n (desde k n)) (n * c.pagina - 1) r)
    (hwalk : buscarSegmento fuel c m (segmentoNuevo c n (desde k n)) r = some hallado) :
    hallado = none := by
  have hchain := Monton.cadenaSegmento 0 hr (by rwa [Int.add_zero]) le_rfl (by omega)
  rw [show k * c.pagina + n * c.pagina - 1 - k * c.pagina = n * c.pagina - 1 by omega] at hchain
  have hend := hr.tamanio_eq
  obtain ⟨fuel', hnone⟩ := (buscarSegmento_none_iff hr.segmentoEntero (by omega) hchain
    (hueco_cabecerasDesde hfits)).mpr hdetras
  exact loop_unique hwalk hnone

/-- Otherwise it ends at the first one. -/
theorem Monton.recorrido_some (hr : Rango c k n)
    (h : Monton m (k * c.pagina) (pre ++ b :: post) (k * c.pagina + n * c.pagina - 1))
    (hpre : ∀ b ∈ pre, b.fits r = false) (hb : b.fits r = true)
    (hwalk : buscarSegmento fuel c m (segmentoNuevo c n (desde k n)) r = some hallado) :
    hallado = some (k * c.pagina + span 5 pre, cabecera b) := by
  obtain ⟨hantes, hleer, hrest⟩ := monton_split_iff.mp h
  obtain ⟨hheap, -⟩ := leerBloque_eq_some_iff.mp hleer
  have hle := blocks_le le_behind hrest
  have hchain := Monton.cadenaSegmento 0 hr (by rwa [Int.add_zero]) le_rfl (by omega)
  rw [add_sub_cancel_left] at hchain
  have hend := hr.tamanio_eq
  have hlimite := hr.limite_eq
  have hfinds : Finds (leerSegmento c m (segmentoNuevo c n (desde k n))) siguiente (hueco r)
      (limiteSegmento c (segmentoNuevo c n (desde k n))) 0
      (k * c.pagina + span 5 pre, cabecera b) := by
    refine ⟨_, span 5 pre, Passes.of_blocks (fun x b => (lt_detras x b).le) ?_ hchain
      (hueco_cabecerasDesde hpre) (by omega), ?_, hb⟩
    · exact fun x b => hr.segmentoEntero.siguiente_eq (by omega)
    · rw [hr.leer_eq m (by omega) (by omega), hheap]
  exact hfinds.eq_some hwalk

end Walk

/-! ## A first request -/

/-- Sixteen bytes are left over or more, and the header that is written last falls on the second
one, or into the block. -/
def DejaLugar (c : Config) (n : ℕ) (tam : UInt32) : Prop :=
  16 ≤ sobran c n tam ∧ (tam.toNat = 5 ∨ 10 ≤ tam.toNat)

section First
variable {c : Config} {s s' : Globals} {m : Mem} {a i : ℤ} {k n fuel g tam : ℕ} {l : Locales}
  {ptr : ℤ} {segmento : NodoSegmento}

/-- `memoria` behind the headers of a first request: those of its block and of the free one behind
it, those of the cut, and the one written last. -/
def trasPrimero (m : Mem) (a : ℤ) (tam g : ℕ) : Mem :=
  escribirHeap (partir (escribirHeap (escribirHeap m a ⟨tam, false⟩) (a + tam + 5) ⟨g, true⟩)
    (a + tam + 5) g 5) (a + 10) ⟨g + tam - 5, true⟩

theorem trasPrimero_eq (hg : 10 ≤ g) (hlt : g < 2147483648) : trasPrimero m a tam g =
    escribirHeap (escribirHeap (escribirHeap (escribirHeap (escribirHeap m a ⟨tam, false⟩)
      (a + tam + 5) ⟨g, true⟩) (a + tam + 5) ⟨5, false⟩) (a + tam + 15) ⟨g - 10, true⟩)
      (a + 10) ⟨g + tam - 5, true⟩ := by
  have hresto : (toU32 (toI32 g - (5 : ℕ) - 5)).toNat = g - 10 := by
    rw [toI32_of_mem (by omega) (by omega), toU32_of_mem (by omega) (by omega)]
    omega
  rw [trasPrimero, partir, hresto, show a + tam + 5 + 5 + ((5 : ℕ) : ℤ) = a + tam + 15 by omega]

/-- They lie between the start of the block and the end of the one behind it. -/
theorem trasPrimero_of_not_mem (hg : 10 ≤ g) (hlt : g < 2147483648)
    (hi : i < a ∨ a + tam + 10 + g ≤ i) : trasPrimero m a tam g i = m i := by
  rw [trasPrimero_eq hg hlt, escribirHeap_of_not_mem (by omega),
    escribirHeap_of_not_mem (by omega), escribirHeap_of_not_mem (by omega),
    escribirHeap_of_not_mem (by omega), escribirHeap_of_not_mem (by omega)]

/-- They are a chain that begins with the block. -/
theorem trasPrimero_cadena (hg : 10 ≤ g) (hlt : g + tam < 2147483648)
    (htam : tam = 5 ∨ 10 ≤ tam) :
    ∃ hs, Cadena (trasPrimero m a tam g) a (⟨tam, false⟩ :: hs) (a + tam + 10 + g) := by
  have hprimera : leerHeap (trasPrimero m a tam g) a = ⟨tam, false⟩ := by
    rw [trasPrimero_eq hg (by omega), leerHeap_escribirHeap_of_ne (by omega),
      leerHeap_escribirHeap_of_ne (by omega), leerHeap_escribirHeap_of_ne (by omega),
      leerHeap_escribirHeap_of_ne (by omega), leerHeap_escribirHeap (by dsimp only; omega)]
  rcases htam with rfl | htam
  · -- the one written last falls on the second one
    have hsegunda : leerHeap (trasPrimero m a 5 g) (a + 10) = ⟨g + 5 - 5, true⟩ := by
      rw [trasPrimero, leerHeap_escribirHeap (by dsimp only; omega)]
    refine ⟨[⟨g + 5 - 5, true⟩], congrArg some hprimera, ?_, ?_⟩
    · dsimp only
      rw [show a + 5 + ((5 : ℕ) : ℤ) = a + 10 by omega, hsegunda]
    · show a + 5 + ((5 : ℕ) : ℤ) + 5 + ((g + 5 - 5 : ℕ) : ℤ) = a + ((5 : ℕ) : ℤ) + 10 + g
      omega
  · -- the one written last falls into the block
    have hsegunda : leerHeap (trasPrimero m a tam g) (a + tam + 5) = ⟨5, false⟩ := by
      rw [trasPrimero_eq hg (by omega), leerHeap_escribirHeap_of_ne (by omega),
        leerHeap_escribirHeap_of_ne (by omega), leerHeap_escribirHeap (by decide)]
    have htercera : leerHeap (trasPrimero m a tam g) (a + tam + 15) = ⟨g - 10, true⟩ := by
      rw [trasPrimero_eq hg (by omega), leerHeap_escribirHeap_of_ne (by omega),
        leerHeap_escribirHeap (by dsimp only; omega)]
    refine ⟨[⟨5, false⟩, ⟨g - 10, true⟩], congrArg some hprimera, ?_, ?_, ?_⟩
    · dsimp only
      rw [show a + 5 + (tam : ℤ) = a + tam + 5 by omega, hsegunda]
    · dsimp only
      rw [show a + 5 + (tam : ℤ) + 5 + ((5 : ℕ) : ℤ) = a + tam + 15 by omega, htercera]
    · show a + 5 + (tam : ℤ) + 5 + ((5 : ℕ) : ℤ) + 5 + ((g - 10 : ℕ) : ℤ) = a + tam + 10 + g
      omega

/-- What a first request leaves: its segment, and the headers in `memoria`. -/
theorem PrimerPedido.montado {tam : UInt32} (h : PrimerPedido c s k n tam)
    (hlugar : DejaLugar c n tam)
    (hret : asignarDirMemoria fuel c l s tam = some (ptr, segmento, s')) :
    segmento = segmentoNuevo c n (desde k n) ∧ ∃ g : ℕ, 10 ≤ g ∧
      (k : ℤ) * c.pagina + tam.toNat + 10 + g = k * c.pagina + n * c.pagina - 1 ∧
      s'.memoria = trasPrimero s.memoria (k * c.pagina) tam.toNat g := by
  obtain ⟨hsobran, hlength⟩ := hlugar
  obtain ⟨rfl, b, hb, -, -, hmemoria⟩ := h.asignado hret
  have hdef : sobran c n tam = n * c.pagina - tam.toNat - 5 := rfl
  have hcorta : b = some (k * c.pagina + tam.toNat + 5, ⟨(sobran c n tam - 6).toNat, true⟩) := by
    have hfinds := (h.recorrido (by omega)).1 (by omega)
    rw [← h.limite_eq] at hfinds
    exact hfinds.eq_some hb
  refine ⟨rfl, (sobran c n tam - 6).toNat, by omega, by omega, ?_⟩
  have htercera : (n * c.pagina - 16).toNat = (sobran c n tam - 6).toNat + tam.toNat - 5 := by
    omega
  rw [hmemoria, hcorta, h.trasCabeceras_eq (by omega), htercera]
  rfl

end First

end Threaders.Muse
