import Threaders.Muse.Writes

/-!
# The layout after a first request

A first request of `tam` bytes writes a used header at the start of its frames and a free one
behind the block, with six bytes less than what is left over.  Then it walks its segment with
a reservation of five bytes, which cuts the free block if that is larger than five, and writes
a third header at the logical address 10: behind a block of five bytes, wherever the block
ends.

So the third header falls on the second one, on the bytes of the block, or on part of the
second one, as the block is of five bytes, of ten or more, or of another length.

## Main definitions

* `PrimerPedido` — a first request, and a state with real frames for it.
* `Disposicion` — the layout it should leave.
* `layout_iff` — when it does.
-/

namespace Threaders.Muse

open Lib Common

/-! ## The bytes of a header -/

section Bytes
variable {m : Mem} {x i : ℤ} {heap : HeapMetadata} {size : ℕ}

theorem toNat_escribirHeap (j : ℕ) (hj : j < 4) (hi : i = x + j) :
    (escribirHeap m x heap i).toNat = heap.size / 256 ^ j % 256 := by
  subst hi
  have hlen : j < heap.bytes.length := by rw [HeapMetadata.length_bytes]; omega
  rw [escribirHeap, Mem.write_getElem hlen]
  simp only [HeapMetadata.bytes]
  rw [List.getElem_append_left (by simpa using hj), getElem_leBytes, UInt8.toNat_ofNat']

theorem escribirHeap_libre : escribirHeap m x heap (x + 4) = if heap.libre then 1 else 0 := by
  rw [escribirHeap_eq]
  simp [Mem.write]

theorem readLe_four : m.readLe x 4 = (m x).toNat + 256 * (m (x + 1)).toNat
    + 65536 * (m (x + 2)).toNat + 16777216 * (m (x + 3)).toNat := by
  simp only [Mem.readLe, Mem.read, ofLeBytes, add_assoc]
  norm_num
  ring

/-- A header read as a free one, byte by byte. -/
theorem leerHeap_libre_iff : leerHeap m x = ⟨size, true⟩ ↔
    (m x).toNat + 256 * (m (x + 1)).toNat + 65536 * (m (x + 2)).toNat
      + 16777216 * (m (x + 3)).toNat = size ∧ m (x + 4) ≠ 0 := by
  rw [leerHeap, HeapMetadata.mk.injEq, readLe_four, decide_eq_true_iff]

theorem leerHeap_usado_iff : leerHeap m x = ⟨size, false⟩ ↔
    (m x).toNat + 256 * (m (x + 1)).toNat + 65536 * (m (x + 2)).toNat
      + 16777216 * (m (x + 3)).toNat = size ∧ m (x + 4) = 0 := by
  rw [leerHeap, HeapMetadata.mk.injEq, readLe_four, decide_eq_false_iff_not, not_not]

end Bytes

/-! ## The third header and the second -/

section Overlap
variable {m : Mem} {a : ℤ} {tam g : ℕ} {heap : HeapMetadata}

/-- The header behind the block, once the one at 10 is written: as it was, if the block is of
ten bytes or more. -/
theorem segunda_of_ge (h : 10 ≤ tam) :
    leerHeap (escribirHeap m (a + 10) heap) (a + tam + 5) = leerHeap m (a + tam + 5) :=
  leerHeap_escribirHeap_of_ne (.inr (by omega))

/-- The free block that is cut is found as it was exactly if the third header falls on it, or
the lengths happen to agree. -/
theorem segunda_cortada (hpos : 1 ≤ tam) (hg : 5 < g) (hlt : g + tam + 11 < 2147483648) :
    leerHeap (escribirHeap (partir m (a + tam + 5) g 5) (a + 10) ⟨g + tam - 5, true⟩)
        (a + tam + 5) = ⟨g, true⟩ ↔
      tam = 5 ∨ tam = 3 ∧ g = 196613 ∨ tam = 4 ∧ g = 67372037 := by
  -- the bytes of the block cut: those of a used header of size five
  have hcinco : ∀ j : ℕ, j < 4 → ∀ i, i = a + tam + 5 + j →
      (partir m (a + tam + 5) g 5 i).toNat = 5 / 256 ^ j % 256 := by
    intro j hj i hi
    rw [partir, escribirHeap_of_not_mem (.inl (by push_cast; omega)), toNat_escribirHeap j hj hi]
  have husado : partir m (a + tam + 5) g 5 (a + tam + 5 + 4) = 0 :=
    libre_eq_false_iff.1 (libre_partir m _ g 5)
  have hbajo : ∀ i, i < a + 10 ∨ a + 15 ≤ i →
      escribirHeap (partir m (a + tam + 5) g 5) (a + 10) ⟨g + tam - 5, true⟩ i
        = partir m (a + tam + 5) g 5 i :=
    fun i hi => escribirHeap_of_not_mem (by omega)
  have htercera : ∀ j : ℕ, j < 4 → ∀ i, i = a + 10 + j →
      (escribirHeap (partir m (a + tam + 5) g 5) (a + 10) ⟨g + tam - 5, true⟩ i).toNat
        = (g + tam - 5) / 256 ^ j % 256 :=
    fun j hj i hi => toNat_escribirHeap j hj hi
  rcases Nat.lt_or_ge tam 5 with hcorto | hlargo
  · rw [leerHeap_libre_iff, ← UInt8.toNat_inj.ne]
    obtain rfl | rfl | rfl | rfl : tam = 1 ∨ tam = 2 ∨ tam = 3 ∨ tam = 4 := by omega
    · rw [hbajo _ (by omega), hbajo _ (by omega), hbajo _ (by omega), hbajo _ (by omega),
        hcinco 0 (by omega) _ (by omega), hcinco 1 (by omega) _ (by omega),
        hcinco 2 (by omega) _ (by omega), hcinco 3 (by omega) _ (by omega)]
      omega
    · rw [hbajo _ (by omega), hbajo _ (by omega), hbajo _ (by omega),
        hcinco 0 (by omega) _ (by omega), hcinco 1 (by omega) _ (by omega),
        hcinco 2 (by omega) _ (by omega), htercera 0 (by omega) _ (by omega),
        htercera 1 (by omega) _ (by omega)]
      simp only [UInt8.toNat_zero]
      omega
    · rw [hbajo _ (by omega), hbajo _ (by omega),
        hcinco 0 (by omega) _ (by omega), hcinco 1 (by omega) _ (by omega),
        htercera 0 (by omega) _ (by omega), htercera 1 (by omega) _ (by omega),
        htercera 2 (by omega) _ (by omega)]
      simp only [UInt8.toNat_zero, true_and]
      omega
    · rw [hbajo _ (by omega), hcinco 0 (by omega) _ (by omega),
        htercera 0 (by omega) _ (by omega), htercera 1 (by omega) _ (by omega),
        htercera 2 (by omega) _ (by omega), htercera 3 (by omega) _ (by omega)]
      simp only [UInt8.toNat_zero, true_and]
      omega
  rcases Nat.lt_or_ge tam 10 with hmedio | hmayor
  · rcases eq_or_lt_of_le hlargo with rfl | hseis
    · have hdir : a + (5 : ℕ) + 5 = a + 10 := by omega
      rw [hdir, leerHeap_escribirHeap (by simp only; omega)]
      simp
    · -- the byte that says free is not reached
      have hlibre : (leerHeap (escribirHeap (partir m (a + tam + 5) g 5) (a + 10)
          ⟨g + tam - 5, true⟩) (a + tam + 5)).libre = false := by
        rw [libre_eq_false_iff, hbajo _ (by omega), husado]
      constructor
      · intro h
        rw [h] at hlibre
        cases hlibre
      · omega
  · have hlibre := libre_partir m (a + tam + 5) g 5
    rw [segunda_of_ge hmayor]
    constructor
    · intro h
      rw [h] at hlibre
      cases hlibre
    · omega

/-- The free block that is not cut is found as it was exactly if the third header falls on it
or on the block in front, or the lengths happen to agree. -/
theorem segunda_entera (hpos : 1 ≤ tam) (hg : g ≤ 5) (hlt : 16 ≤ g + tam + 11) :
    leerHeap (escribirHeap (escribirHeap m (a + tam + 5) ⟨g, true⟩) (a + 10)
        ⟨g + tam - 5, true⟩) (a + tam + 5) = ⟨g, true⟩ ↔
      tam = 5 ∨ 10 ≤ tam ∨ tam = 9 ∧ g = 1 ∨ tam = 1 ∧ g = 5 := by
  have hbajo : ∀ i, i < a + 10 ∨ a + 15 ≤ i →
      escribirHeap (escribirHeap m (a + tam + 5) ⟨g, true⟩) (a + 10) ⟨g + tam - 5, true⟩ i
        = escribirHeap m (a + tam + 5) ⟨g, true⟩ i :=
    fun i hi => escribirHeap_of_not_mem (by omega)
  have hsegunda : ∀ j : ℕ, j < 4 → ∀ i, i = a + tam + 5 + j →
      (escribirHeap m (a + tam + 5) ⟨g, true⟩ i).toNat = g / 256 ^ j % 256 :=
    fun j hj i hi => toNat_escribirHeap j hj hi
  have htercera : ∀ j : ℕ, j < 4 → ∀ i, i = a + 10 + j →
      (escribirHeap (escribirHeap m (a + tam + 5) ⟨g, true⟩) (a + 10) ⟨g + tam - 5, true⟩
        i).toNat = (g + tam - 5) / 256 ^ j % 256 :=
    fun j hj i hi => toNat_escribirHeap j hj hi
  have huno : ∀ i, i = a + 14 →
      escribirHeap (escribirHeap m (a + tam + 5) ⟨g, true⟩) (a + 10) ⟨g + tam - 5, true⟩ i
        = 1 := by
    rintro i rfl
    rw [show a + 14 = a + 10 + 4 by omega, escribirHeap_libre]
    rfl
  have hlibre : ∀ i, i = a + tam + 5 + 4 →
      escribirHeap m (a + tam + 5) ⟨g, true⟩ i = 1 := by
    rintro i rfl
    rw [escribirHeap_libre]
    rfl
  rcases Nat.lt_or_ge tam 10 with hmenor | hmayor
  · rcases eq_or_ne tam 5 with rfl | hcinco
    · have hdir : a + (5 : ℕ) + 5 = a + 10 := by omega
      rw [hdir, leerHeap_escribirHeap (by simp only; omega)]
      simp
    · rw [leerHeap_libre_iff, ← UInt8.toNat_inj.ne]
      obtain rfl | rfl | rfl | rfl | rfl | rfl | rfl | rfl : tam = 1 ∨ tam = 2 ∨ tam = 3 ∨
        tam = 4 ∨ tam = 6 ∨ tam = 7 ∨ tam = 8 ∨ tam = 9 := by omega
      · rw [hbajo _ (by omega), hbajo _ (by omega), hbajo _ (by omega), hbajo _ (by omega),
          hsegunda 0 (by omega) _ (by omega), hsegunda 1 (by omega) _ (by omega),
          hsegunda 2 (by omega) _ (by omega), hsegunda 3 (by omega) _ (by omega),
          htercera 0 (by omega) _ (by omega)]
        simp only [UInt8.toNat_zero, true_and]
        omega
      · rw [htercera 1 (by omega) (a + (2 : ℕ) + 5 + 4) (by omega)]
        simp only [UInt8.toNat_zero]
        omega
      · rw [htercera 2 (by omega) (a + (3 : ℕ) + 5 + 4) (by omega)]
        simp only [UInt8.toNat_zero]
        omega
      · rw [htercera 3 (by omega) (a + (4 : ℕ) + 5 + 4) (by omega)]
        simp only [UInt8.toNat_zero]
        omega
      · rw [huno (a + (6 : ℕ) + 5 + 3) (by omega)]
        simp only [UInt8.toNat_one]
        omega
      · rw [huno (a + (7 : ℕ) + 5 + 2) (by omega)]
        simp only [UInt8.toNat_one]
        omega
      · rw [huno (a + (8 : ℕ) + 5 + 1) (by omega)]
        simp only [UInt8.toNat_one]
        omega
      · rw [huno (a + (9 : ℕ) + 5) (by omega), hbajo _ (by omega), hbajo _ (by omega),
          hbajo _ (by omega), hbajo _ (by omega), hsegunda 1 (by omega) _ (by omega),
          hsegunda 2 (by omega) _ (by omega), hsegunda 3 (by omega) _ (by omega),
          hlibre _ (by omega)]
        simp only [UInt8.toNat_zero, UInt8.toNat_one, true_and]
        omega
  · rw [segunda_of_ge hmayor, leerHeap_escribirHeap (by simp only; omega)]
    simp [hmayor]

end Overlap

/-! ## A segment of frames one behind the other -/

/-- The `n` frames from `k` on, which are frames of `memoria`. -/
structure Rango (c : Config) (k n : ℕ) : Prop where
  pagina : 0 < c.pagina
  pos : 0 < n
  reales : ((k : ℤ) + n) * c.pagina ≤ c.memorySize.toInt

namespace Rango
variable {c : Config} {k n : ℕ} {m : Mem} {offset : ℤ}

theorem bounds (h : Rango c k n) : 0 ≤ (k : ℤ) * c.pagina ∧ c.pagina ≤ n * c.pagina ∧
    k * c.pagina + n * c.pagina < 2147483648 := by
  obtain ⟨hp, hpos, hreales⟩ := h
  have hmem := Int32.toInt_lt c.memorySize
  have hle := mul_le_mul_of_nonneg_right (show (1 : ℤ) ≤ n by omega) hp.le
  rw [one_mul] at hle
  rw [add_mul] at hreales
  exact ⟨mul_nonneg (by omega) hp.le, hle, by omega⟩

theorem tamanio_eq (h : Rango c k n) :
    (segmentoNuevo c n (desde k n)).tamanio = n * c.pagina - 1 := by
  obtain ⟨hk, hpagina, hlt⟩ := h.bounds
  have hp := h.pagina
  rw [segmentoNuevo, toI32_of_mem (x := n * c.pagina) (by omega) (by omega)]
  exact toI32_of_mem (by omega) (by omega)

/-- The last byte of the segment is in its last page. -/
theorem ultima_pagina (h : Rango c k n) : (n * c.pagina - 1) / c.pagina + 1 = n := by
  have hp := h.pagina
  rw [show (n : ℤ) * c.pagina - 1 = c.pagina - 1 + (n - 1) * c.pagina by ring,
    Int.add_mul_ediv_right _ _ (by omega), Int.ediv_eq_zero_of_lt (by omega) (by omega)]
  ring

theorem segmentoEntero (h : Rango c k n) :
    SegmentoEntero c (segmentoNuevo c n (desde k n)) := by
  obtain ⟨hk, hpagina, hlt⟩ := h.bounds
  have hp := h.pagina
  refine ⟨rfl, hp, by rw [h.tamanio_eq]; omega, ?_⟩
  rw [h.tamanio_eq, h.ultima_pagina]
  omega

theorem limite_eq (h : Rango c k n) :
    limiteSegmento c (segmentoNuevo c n (desde k n)) = n * c.pagina - 1 := by
  rw [h.segmentoEntero.limite_eq, h.tamanio_eq, h.ultima_pagina]

theorem listGet_desde {i : ℤ} (h0 : 0 ≤ i) (hi : i < n) : listGet (desde k n) i = some (k + i) := by
  obtain ⟨j, rfl⟩ := Int.eq_ofNat_of_zero_le h0
  have hj : j < n := by omega
  rw [listGet, if_pos h0, desde]
  simp [hj]

/-- The pages are frames one behind the other, so the segment is a range of `memoria`. -/
theorem leer_eq (h : Rango c k n) (m : Mem) (h0 : 0 ≤ offset)
    (hle : offset + 5 ≤ n * c.pagina) : leerSegmento c m (segmentoNuevo c n (desde k n)) offset
      = some (k * c.pagina + offset, leerHeap m (k * c.pagina + offset)) := by
  obtain ⟨hk, hpagina, hmax⟩ := h.bounds
  have hp := h.pagina
  have hq0 : 0 ≤ offset / c.pagina := Int.ediv_nonneg h0 hp.le
  have hqn : offset / c.pagina < n := Int.ediv_lt_of_lt_mul hp (by omega)
  have hdir : c.EnMemoria (k * c.pagina + offset) 5 := by
    have hreales := h.reales
    rw [add_mul] at hreales
    refine .inr ⟨by omega, ?_⟩
    push_cast
    omega
  have hmul := Int.ediv_mul_le offset hp.ne'
  have hmul0 : 0 ≤ offset / c.pagina * c.pagina := mul_nonneg hq0 hp.le
  have hlugar : toI32 ((k + offset / c.pagina) * c.pagina)
        + (offset - toI32 (offset / c.pagina * c.pagina)) = k * c.pagina + offset := by
    rw [add_mul, toI32_of_mem (x := k * c.pagina + offset / c.pagina * c.pagina) (by omega)
      (by omega), toI32_of_mem (by omega) (by omega)]
    omega
  have hbase : (segmentoNuevo c n (desde k n)).base = 0 := rfl
  have hpaginas : (segmentoNuevo c n (desde k n)).listPaginas = desde k n := rfl
  have hpagina : (posicion c 0 offset).pagina = offset / c.pagina := by
    rw [posicion, Int.sub_zero, Int.tdiv_eq_ediv_of_nonneg h0]
  have hdireccion : direccion c (k + offset / c.pagina) (posicion c 0 offset)
      = k * c.pagina + offset := by
    rw [direccion, posicion, Int.sub_zero, Int.tdiv_eq_ediv_of_nonneg h0, hlugar]
  rw [leerSegmento_eq_some]
  refine ⟨k + offset / c.pagina, ?_, ?_, hdir, rfl⟩
  · rw [hbase, hpaginas, hpagina, listGet_desde hq0 hqn]
  · rw [hbase, hdireccion]

end Rango

/-! ## A first request -/

/-- A first request for `tam` bytes, where the first `k` frames are taken and the `n` pages it
needs are free, as frames of `memoria`. -/
structure PrimerPedido (c : Config) (s : Globals) (k n : ℕ) (tam : UInt32) : Prop where
  tablas : Lockstep c s k
  pagina : 16 ≤ c.pagina
  pos : 1 ≤ tam.toNat
  lt : tam.toNat + 5 < 2147483648
  paginas : cantidadPaginasNecesarias c tam = n
  libres : k + n ≤ c.entradas
  reales : ((k : ℤ) + n) * c.pagina ≤ c.memorySize.toInt

/-- `bytes_sobran`. -/
def sobran (c : Config) (n : ℕ) (tam : UInt32) : ℤ := n * c.pagina - tam.toNat - 5

namespace PrimerPedido
variable {c : Config} {s : Globals} {k n : ℕ} {tam : UInt32} {m : Mem} {offset : ℤ}

theorem bounds (h : PrimerPedido c s k n tam) :
    0 < n ∧ 0 ≤ (k : ℤ) * c.pagina ∧ c.pagina ≤ n * c.pagina ∧
      k * c.pagina + n * c.pagina < 2147483648 := by
  have hpagina := h.pagina
  have hlt := h.lt
  have hreales := h.reales
  have hmem := Int32.toInt_lt c.memorySize
  have hn := h.paginas
  rw [cantidadPaginasNecesarias, toI32_of_mem (by omega) (by omega),
    Int.tdiv_eq_ediv_of_nonneg (by omega)] at hn
  have hdiv : 0 ≤ ((tam.toNat : ℤ) + 5) / c.pagina := Int.ediv_nonneg (by omega) (by omega)
  have hpos : 0 < n := by omega
  refine ⟨hpos, mul_nonneg (by omega) (by omega), ?_, by rw [add_mul] at hreales; omega⟩
  have := mul_le_mul_of_nonneg_right (show (1 : ℤ) ≤ n by omega) (show 0 ≤ c.pagina by omega)
  rwa [one_mul] at this

/-- The pages are the fewest that hold the block and its header, and a byte. -/
theorem sobran_bounds (h : PrimerPedido c s k n tam) :
    1 ≤ sobran c n tam ∧ sobran c n tam ≤ c.pagina := by
  have hpagina := h.pagina
  have hlt := h.lt
  have hn := h.paginas
  rw [cantidadPaginasNecesarias, toI32_of_mem (by omega) (by omega),
    Int.tdiv_eq_ediv_of_nonneg (by omega)] at hn
  have hlo := Int.lt_ediv_add_one_mul_self ((tam.toNat : ℤ) + 5) (show 0 < c.pagina by omega)
  have hhi := Int.ediv_mul_le ((tam.toNat : ℤ) + 5) (show c.pagina ≠ 0 by omega)
  rw [hn] at hlo
  rw [show ((tam.toNat : ℤ) + 5) / c.pagina = n - 1 by omega, sub_mul, one_mul] at hhi
  unfold sobran
  omega

theorem escriturasCabeceras_eq (h : PrimerPedido c s k n tam) :
    escriturasCabeceras c n tam ⟨k, (k : ℤ) + n - 1⟩
      = [(k * c.pagina, ⟨tam.toNat, false⟩),
        (k * c.pagina + tam.toNat + 5, ⟨(toU32 (sobran c n tam - 6)).toNat, true⟩)] := by
  obtain ⟨hpos, hk, hpagina, hlt⟩ := h.bounds
  obtain ⟨hlo, hhi⟩ := h.sobran_bounds
  have h16 := h.pagina
  have htam := h.lt
  have hreales := h.reales
  have hcinco : toI32 ((tam.toNat : ℤ) + 5) = tam.toNat + 5 := toI32_of_mem (by omega) (by omega)
  have hbase : toI32 (k * c.pagina) = k * c.pagina := toI32_of_mem (by omega) (by omega)
  have hsobran : toI32 (toI32 (n * c.pagina) - tam.toNat - 5) = sobran c n tam := by
    rw [toI32_of_mem (x := n * c.pagina) (by omega) (by omega)]
    exact toI32_of_mem (by unfold sobran at hlo; omega) (by unfold sobran at hhi; omega)
  unfold sobran at hlo
  have hdir := dirProxima_eq (show 0 < c.pagina by omega) hpos hreales
    (show 0 ≤ k * c.pagina + toI32 (tam.toNat + 5) by rw [hcinco]; omega)
    (by rw [hcinco]; omega)
  rw [hcinco, ← add_assoc] at hdir
  simp only [escriturasCabeceras, dirPrimera, bytesSobran, hbase, hsobran, hdir]
  rw [show sobran c n tam - 5 - 1 = sobran c n tam - 6 by omega]

theorem escrituraFinal_eq (h : PrimerPedido c s k n tam) :
    escrituraFinal c n ⟨k, (k : ℤ) + n - 1⟩
      = (k * c.pagina + 10, ⟨(n * c.pagina - 16).toNat, true⟩) := by
  obtain ⟨hpos, hk, hpagina, hlt⟩ := h.bounds
  have h16 := h.pagina
  have hbase : toI32 (k * c.pagina) = k * c.pagina := toI32_of_mem (by omega) (by omega)
  have hfin : toI32 (n * c.pagina) = n * c.pagina := toI32_of_mem (by omega) (by omega)
  simp only [escrituraFinal, dirPrimera, hbase, hfin]
  rw [show 5 + k * c.pagina + 5 = k * c.pagina + 10 by omega,
    show n * c.pagina - 5 - 5 - 5 - 1 = n * c.pagina - 16 by omega,
    toU32_of_mem (by omega) (by omega)]

theorem rango (h : PrimerPedido c s k n tam) : Rango c k n := by
  obtain ⟨hpos, -, -, -⟩ := h.bounds
  have h16 := h.pagina
  exact ⟨by omega, hpos, h.reales⟩

theorem tamanio_eq (h : PrimerPedido c s k n tam) :
    (segmentoNuevo c n (desde k n)).tamanio = n * c.pagina - 1 := h.rango.tamanio_eq

theorem segmentoEntero (h : PrimerPedido c s k n tam) :
    SegmentoEntero c (segmentoNuevo c n (desde k n)) := h.rango.segmentoEntero

theorem limite_eq (h : PrimerPedido c s k n tam) :
    limiteSegmento c (segmentoNuevo c n (desde k n)) = n * c.pagina - 1 := h.rango.limite_eq

theorem leer_eq (h : PrimerPedido c s k n tam) (m : Mem) (h0 : 0 ≤ offset)
    (hle : offset + 5 ≤ n * c.pagina) : leerSegmento c m (segmentoNuevo c n (desde k n)) offset
      = some (k * c.pagina + offset, leerHeap m (k * c.pagina + offset)) := h.rango.leer_eq m h0 hle

end PrimerPedido

/-! ## The layout -/

/-- The layout a first request should leave.  From the logical address 0 up to the size of the
segment there is a used block of `tam` bytes and behind it one free block, or none; and of the
headers written no size has wrapped around and each byte lies in a frame of the segment. -/
structure Disposicion (c : Config) (s s' : Globals) (k : ℕ) (tam : UInt32)
    (segmento : NodoSegmento) (ws : List Cabecera) : Prop where
  cadena : ∃ bs, CadenaSegmento c s'.memoria segmento 0 bs segmento.tamanio ∧
    (bs = [(k * c.pagina, ⟨tam.toNat, false⟩)] ∨
      ∃ dir size, bs = [(k * c.pagina, ⟨tam.toNat, false⟩), (dir, ⟨size, true⟩)])
  memoria : s'.memoria = aplicar s.memoria ws
  tamanios : ∀ w ∈ ws, w.2.size < 2147483648
  marcos : ∀ w ∈ ws, ∀ x, w.1 ≤ x → x < w.1 + 5 →
    ∃ nroFrame ∈ segmento.listPaginas,
      nroFrame * c.pagina ≤ x ∧ x < (nroFrame + 1) * c.pagina

/-- A first request leaves that layout. -/
def DispuestoBien (c : Config) (s s' : Globals) (k : ℕ) (tam : UInt32) (segmento : NodoSegmento)
    (fuel : ℕ) (l : Locales) : Prop :=
  Disposicion c s s' k tam segmento (escriturasAsignar fuel c l s tam)

/-- `memoria` behind the first two headers. -/
def trasCabeceras (c : Config) (s : Globals) (k n : ℕ) (tam : UInt32) : Mem :=
  cabeceras c s.memoria n tam ⟨k, (k : ℤ) + n - 1⟩

/-- The reservation that is left over from testing cuts nothing behind the free block. -/
def SinCorteDetras (c : Config) (s : Globals) (k n : ℕ) (tam : UInt32) : Prop :=
  NadaDetras c (trasCabeceras c s k n tam) (segmentoNuevo c n (desde k n)) (n * c.pagina - 1) 5

/-- The headers of a block cut at `dir` spare the used one at the start of the segment: they lie
behind it, or the first of them meets it in bytes of the size that are the same. -/
def SinDanioPrimera (tam : ℕ) (dir : ℤ) : Prop :=
  5 ≤ dir ∨ 1 ≤ dir ∧ dir ≤ 3 ∧ tam / 256 ^ dir.toNat = 5

/-- What is left of a block cut `d` bytes in front of the block reserved, a free block of size
`r`, spares the header of the free block of size `g`: it does not meet it, or in bytes that are
the same. -/
def SinDanioSegunda (g r : ℕ) (d : ℤ) : Prop :=
  d = 0 ∨ 10 ≤ d ∨ d = 9 ∧ g = 1 ∨ d = 5 ∧ r = g ∨
    1 ≤ d ∧ d ≤ 4 ∧ r % 256 ^ (d.toNat - 1) = 0 ∧ r / 256 ^ (d.toNat - 1) % 256 ≠ 0

/-- A block that is cut where it does no harm: in the segment, with what is left of it a size
that has not wrapped around, and sparing both headers of the layout, the second of which the
header written last writes again or does not meet. -/
structure SinDanio (c : Config) (k n : ℕ) (tam : UInt32) (b : Cabecera) : Prop where
  inicio : k * c.pagina ≤ b.1
  fin : b.1 + 15 ≤ (k + n) * c.pagina
  resto : (toU32 (toI32 b.2.size - 10)).toNat < 2147483648
  primera : SinDanioPrimera tam.toNat (b.1 - k * c.pagina)
  segunda : tam.toNat = 5 ∨ (10 ≤ tam.toNat ∨ tam.toNat = 9 ∧ sobran c n tam = 7) ∧
    SinDanioSegunda (sobran c n tam - 6).toNat (toU32 (toI32 b.2.size - 10)).toNat
      (tam.toNat - (b.1 - k * c.pagina))

/-- It cuts a block, as a size found behind the segment took the walk back into it; but where it
does no harm. -/
def CorteInocuo (c : Config) (s : Globals) (k n : ℕ) (tam : UInt32) : Prop :=
  ∃ b, Finds (leerSegmento c (trasCabeceras c s k n tam) (segmentoNuevo c n (desde k n)))
      siguiente (hueco 5) (n * c.pagina - 1) (n * c.pagina - 1) b ∧ SinDanio c k n tam b

section Cut
variable {m : Mem} {a : ℤ} {tam g size d : ℕ} {heap : HeapMetadata}

/-- The used header, once a block behind it is cut. -/
theorem primera_cortada (h : leerHeap m a = ⟨tam, false⟩) (hd : 1 ≤ d) :
    leerHeap (escribirHeap (partir m (a + d) size 5) (a + 10) heap) a = ⟨tam, false⟩ ↔
      SinDanioPrimera tam d := by
  rw [leerHeap_escribirHeap_of_ne (by omega), partir, leerHeap_escribirHeap_of_ne (by omega)]
  unfold SinDanioPrimera
  rcases Nat.lt_or_ge d 5 with hcerca | hlejos
  · have hcinco : ∀ j : ℕ, j < 4 → ∀ i, i = a + d + j →
        (escribirHeap m (a + d) ⟨5, false⟩ i).toNat = 5 / 256 ^ j % 256 :=
      fun j hj i hi => toNat_escribirHeap j hj hi
    have hdelante : ∀ i, i < a + d →
        escribirHeap m (a + d) ⟨5, false⟩ i = m i :=
      fun i hi => escribirHeap_of_not_mem (.inl (by omega))
    obtain ⟨hsize, husado⟩ := leerHeap_usado_iff.1 h
    have hbyte := fun i => UInt8.toNat_lt (m i)
    have h0 := hbyte a
    have h1 := hbyte (a + 1)
    have h2 := hbyte (a + 2)
    rw [leerHeap_usado_iff, ← UInt8.toNat_inj]
    obtain rfl | rfl | rfl | rfl : d = 1 ∨ d = 2 ∨ d = 3 ∨ d = 4 := by omega
    · rw [hdelante a (by omega), hcinco 0 (by omega) (a + 1) (by omega),
        hcinco 1 (by omega) (a + 2) (by omega), hcinco 2 (by omega) (a + 3) (by omega),
        hcinco 3 (by omega) (a + 4) (by omega)]
      simp only [UInt8.toNat_zero, Int.toNat_natCast]
      omega
    · rw [hdelante a (by omega), hdelante (a + 1) (by omega),
        hcinco 0 (by omega) (a + 2) (by omega), hcinco 1 (by omega) (a + 3) (by omega),
        hcinco 2 (by omega) (a + 4) (by omega)]
      simp only [UInt8.toNat_zero, Int.toNat_natCast]
      omega
    · rw [hdelante a (by omega), hdelante (a + 1) (by omega), hdelante (a + 2) (by omega),
        hcinco 0 (by omega) (a + 3) (by omega), hcinco 1 (by omega) (a + 4) (by omega)]
      simp only [UInt8.toNat_zero, Int.toNat_natCast]
      omega
    · rw [hcinco 0 (by omega) (a + 4) (by omega)]
      simp only [UInt8.toNat_zero]
      omega
  · rw [leerHeap_escribirHeap_of_ne (by omega)]
    exact ⟨fun _ => .inl (by omega), fun _ => h⟩

/-- The free header, once a block in front of it is cut: what is left of the block may meet it. -/
theorem segunda_de_resto (h : leerHeap m (a + tam + 5) = ⟨g, true⟩) (hg : g ≤ 5) (htam : 9 ≤ tam)
    (hnueve : tam = 9 → g = 1) (hfin : d + 4 ≤ tam + g) {r : ℕ}
    (hr : r = (toU32 (toI32 size - 10)).toNat) (hlt : r < 2147483648) :
    leerHeap (partir m (a + d) size 5) (a + tam + 5) = ⟨g, true⟩ ↔
      SinDanioSegunda g r ((tam : ℤ) - d) := by
  have hresto : ∀ j : ℕ, j < 4 → ∀ i, i = a + d + 10 + j →
      (partir m (a + d) size 5 i).toNat = r / 256 ^ j % 256 := by
    intro j hj i hi
    have hsize : toI32 size - (5 : ℕ) - 5 = toI32 size - 10 := by omega
    rw [partir, toNat_escribirHeap j hj (by omega), hsize, hr]
  have hbandera : ∀ i, i = a + d + 14 → partir m (a + d) size 5 i = 1 := by
    intro i hi
    rw [partir, show i = a + d + 5 + (5 : ℕ) + 4 by omega, escribirHeap_libre]
    rfl
  have hfuera : ∀ i, a + d + 5 ≤ i → i < a + d + 10 ∨ a + d + 15 ≤ i →
      partir m (a + d) size 5 i = m i := by
    intro i hlo hi
    rw [partir, escribirHeap_of_not_mem (by omega), escribirHeap_of_not_mem (by omega)]
  have husado : partir m (a + d) size 5 (a + d + 4) = 0 := libre_eq_false_iff.1 (libre_partir m _ _ 5)
  obtain ⟨hsize, hlibre⟩ := leerHeap_libre_iff.1 h
  have hbyte := fun i => UInt8.toNat_lt (m i)
  unfold SinDanioSegunda
  by_cases hlejos : d = tam ∨ d + 10 ≤ tam
  · rw [partir, leerHeap_escribirHeap_of_ne (by omega), leerHeap_escribirHeap_of_ne (by omega)]
    exact ⟨fun _ => by omega, fun _ => h⟩
  by_cases hdetras : tam < d
  · rw [leerHeap_libre_iff, show a + tam + 5 = a + d + 4 by omega, husado]
    simp only [UInt8.toNat_zero]
    omega
  · obtain ⟨o, rfl⟩ := Nat.exists_eq_add_of_le (Nat.not_lt.1 hdetras)
    have h0 := hbyte (a + ↑(d + o) + 5)
    have h1 := hbyte (a + ↑(d + o) + 5 + 1)
    have h2 := hbyte (a + ↑(d + o) + 5 + 2)
    have h3 := hbyte (a + ↑(d + o) + 5 + 3)
    have ho : (((d + o : ℕ) : ℤ) - d) = o := by omega
    rw [leerHeap_libre_iff, ho]
    rw [← UInt8.toNat_inj.ne, UInt8.toNat_zero] at hlibre ⊢
    obtain rfl | rfl | rfl | rfl | rfl | rfl | rfl | rfl | rfl : o = 1 ∨ o = 2 ∨ o = 3 ∨ o = 4 ∨
      o = 5 ∨ o = 6 ∨ o = 7 ∨ o = 8 ∨ o = 9 := by omega
    · rw [hfuera (a + ↑(d + 1) + 5) (by omega) (by omega),
        hfuera (a + ↑(d + 1) + 5 + 1) (by omega) (by omega),
        hfuera (a + ↑(d + 1) + 5 + 2) (by omega) (by omega),
        hfuera (a + ↑(d + 1) + 5 + 3) (by omega) (by omega),
        hresto 0 (by omega) (a + ↑(d + 1) + 5 + 4) (by omega)]
      simp only [Int.toNat_natCast, Nat.reduceSub, Nat.reducePow]
      omega
    · rw [hfuera (a + ↑(d + 2) + 5) (by omega) (by omega),
        hfuera (a + ↑(d + 2) + 5 + 1) (by omega) (by omega),
        hfuera (a + ↑(d + 2) + 5 + 2) (by omega) (by omega),
        hresto 0 (by omega) (a + ↑(d + 2) + 5 + 3) (by omega),
        hresto 1 (by omega) (a + ↑(d + 2) + 5 + 4) (by omega)]
      simp only [Int.toNat_natCast, Nat.reduceSub, Nat.reducePow]
      omega
    · rw [hfuera (a + ↑(d + 3) + 5) (by omega) (by omega),
        hfuera (a + ↑(d + 3) + 5 + 1) (by omega) (by omega),
        hresto 0 (by omega) (a + ↑(d + 3) + 5 + 2) (by omega),
        hresto 1 (by omega) (a + ↑(d + 3) + 5 + 3) (by omega),
        hresto 2 (by omega) (a + ↑(d + 3) + 5 + 4) (by omega)]
      simp only [Int.toNat_natCast, Nat.reduceSub, Nat.reducePow]
      omega
    · rw [hfuera (a + ↑(d + 4) + 5) (by omega) (by omega),
        hresto 0 (by omega) (a + ↑(d + 4) + 5 + 1) (by omega),
        hresto 1 (by omega) (a + ↑(d + 4) + 5 + 2) (by omega),
        hresto 2 (by omega) (a + ↑(d + 4) + 5 + 3) (by omega),
        hresto 3 (by omega) (a + ↑(d + 4) + 5 + 4) (by omega)]
      simp only [Int.toNat_natCast, Nat.reduceSub, Nat.reducePow]
      omega
    · rw [hresto 0 (by omega) (a + ↑(d + 5) + 5) (by omega),
        hresto 1 (by omega) (a + ↑(d + 5) + 5 + 1) (by omega),
        hresto 2 (by omega) (a + ↑(d + 5) + 5 + 2) (by omega),
        hresto 3 (by omega) (a + ↑(d + 5) + 5 + 3) (by omega),
        hbandera (a + ↑(d + 5) + 5 + 4) (by omega)]
      simp only [Int.toNat_natCast, Nat.reduceSub, Nat.reducePow, UInt8.toNat_one]
      omega
    · rw [hresto 1 (by omega) (a + ↑(d + 6) + 5) (by omega),
        hresto 2 (by omega) (a + ↑(d + 6) + 5 + 1) (by omega),
        hresto 3 (by omega) (a + ↑(d + 6) + 5 + 2) (by omega),
        hbandera (a + ↑(d + 6) + 5 + 3) (by omega),
        hfuera (a + ↑(d + 6) + 5 + 4) (by omega) (by omega)]
      simp only [Int.toNat_natCast, Nat.reduceSub, Nat.reducePow, UInt8.toNat_one]
      omega
    · rw [hresto 2 (by omega) (a + ↑(d + 7) + 5) (by omega),
        hresto 3 (by omega) (a + ↑(d + 7) + 5 + 1) (by omega),
        hbandera (a + ↑(d + 7) + 5 + 2) (by omega),
        hfuera (a + ↑(d + 7) + 5 + 3) (by omega) (by omega),
        hfuera (a + ↑(d + 7) + 5 + 4) (by omega) (by omega)]
      simp only [Int.toNat_natCast, Nat.reduceSub, Nat.reducePow, UInt8.toNat_one]
      omega
    · rw [hresto 3 (by omega) (a + ↑(d + 8) + 5) (by omega),
        hbandera (a + ↑(d + 8) + 5 + 1) (by omega),
        hfuera (a + ↑(d + 8) + 5 + 2) (by omega) (by omega),
        hfuera (a + ↑(d + 8) + 5 + 3) (by omega) (by omega),
        hfuera (a + ↑(d + 8) + 5 + 4) (by omega) (by omega)]
      simp only [Int.toNat_natCast, Nat.reduceSub, Nat.reducePow, UInt8.toNat_one]
      omega
    · rw [hbandera (a + ↑(d + 9) + 5) (by omega),
        hfuera (a + ↑(d + 9) + 5 + 1) (by omega) (by omega),
        hfuera (a + ↑(d + 9) + 5 + 2) (by omega) (by omega),
        hfuera (a + ↑(d + 9) + 5 + 3) (by omega) (by omega),
        hfuera (a + ↑(d + 9) + 5 + 4) (by omega) (by omega)]
      simp only [Int.toNat_natCast, Nat.reduceSub, Nat.reducePow, UInt8.toNat_one]
      omega

/-- The free header, once a block is cut and the last header is written. -/
theorem segunda_tras_corte (h : leerHeap m (a + tam + 5) = ⟨g, true⟩) (hg : g ≤ 5)
    (hd : 5 ≤ d ∨ 1280 ≤ tam) (hfin : d + 4 ≤ tam + g) {r : ℕ}
    (hr : r = (toU32 (toI32 size - 10)).toNat) (hlt : r < 2147483648) :
    leerHeap (escribirHeap (partir m (a + d) size 5) (a + 10) ⟨g + tam - 5, true⟩) (a + tam + 5)
        = ⟨g, true⟩ ↔
      tam = 5 ∨ (10 ≤ tam ∨ tam = 9 ∧ g = 1) ∧ SinDanioSegunda g r ((tam : ℤ) - d) := by
  have hbandera : ∀ i, i = a + 14 →
      escribirHeap (partir m (a + d) size 5) (a + 10) ⟨g + tam - 5, true⟩ i = 1 := by
    intro i hi
    rw [show i = a + 10 + 4 by omega, escribirHeap_libre]
    rfl
  have hfuera : ∀ i, i < a + 10 ∨ a + 15 ≤ i →
      escribirHeap (partir m (a + d) size 5) (a + 10) ⟨g + tam - 5, true⟩ i
        = partir m (a + d) size 5 i :=
    fun i hi => escribirHeap_of_not_mem (by omega)
  rcases Nat.lt_or_ge tam 10 with hmenor | hmayor
  · by_cases hcinco : tam = 5
    · subst hcinco
      have hdir : a + (5 : ℕ) + 5 = a + 10 := by omega
      rw [hdir, leerHeap_escribirHeap (by simp only; omega)]
      simp
    by_cases hnueve : tam = 9 ∧ g = 1
    · obtain ⟨rfl, rfl⟩ := hnueve
      -- the byte written where the header starts is the one that stands there
      have huno : partir m (a + d) size 5 (a + (9 : ℕ) + 5) = 1 := by
        rw [partir, escribirHeap_of_not_mem (by omega), escribirHeap_of_not_mem (by omega),
          ← UInt8.toNat_inj, UInt8.toNat_one]
        have hsize := (leerHeap_libre_iff.1 h).1
        omega
      have hresto := segunda_de_resto h hg (Nat.le_refl 9) (fun _ => rfl) hfin hr hlt
      rw [leerHeap_libre_iff, huno] at hresto
      rw [leerHeap_libre_iff, hbandera (a + (9 : ℕ) + 5) (by omega), hfuera _ (by omega),
        hfuera _ (by omega), hfuera _ (by omega), hfuera _ (by omega), hresto]
      simp
    · -- the header written last spoils the size
      have hmal : ¬ (tam = 5 ∨ (10 ≤ tam ∨ tam = 9 ∧ g = 1) ∧
          SinDanioSegunda g r ((tam : ℤ) - d)) := by omega
      rw [iff_false_right hmal, leerHeap_libre_iff]
      obtain rfl | rfl | rfl | rfl | rfl : tam = 4 ∨ tam = 6 ∨ tam = 7 ∨ tam = 8 ∨ tam = 9 := by
        omega
      · have husado : partir m (a + d) size 5 (a + d + 4) = 0 :=
          libre_eq_false_iff.1 (libre_partir m _ _ 5)
        rw [hfuera (a + (4 : ℕ) + 5) (by omega), show a + (4 : ℕ) + 5 = a + d + 4 by omega, husado,
          UInt8.toNat_zero]
        omega
      · rw [hbandera (a + (6 : ℕ) + 5 + 3) (by omega), UInt8.toNat_one]
        omega
      · rw [hbandera (a + (7 : ℕ) + 5 + 2) (by omega), UInt8.toNat_one]
        omega
      · rw [hbandera (a + (8 : ℕ) + 5 + 1) (by omega), UInt8.toNat_one]
        omega
      · rw [hbandera (a + (9 : ℕ) + 5) (by omega), UInt8.toNat_one]
        omega
  · rw [segunda_of_ge hmayor, segunda_de_resto h hg (by omega) (by omega) hfin hr hlt]
    simp only [hmayor, true_or, true_and, iff_or_self]
    omega

end Cut

section Layout
variable {c : Config} {s s' : Globals} {k n fuel : ℕ} {tam : UInt32} {l : Locales} {ptr : ℤ}
  {segmento : NodoSegmento} {m : Mem}

/-- What a first request that returns has done. -/
theorem PrimerPedido.asignado (h : PrimerPedido c s k n tam)
    (hret : asignarDirMemoria fuel c l s tam = some (ptr, segmento, s')) :
    segmento = segmentoNuevo c n (desde k n) ∧
      ∃ b, buscarSegmento fuel c (trasCabeceras c s k n tam) segmento 5 = some b ∧
        escriturasAsignar fuel c l s tam
          = [(k * c.pagina, ⟨tam.toNat, false⟩),
            (k * c.pagina + tam.toNat + 5, ⟨(toU32 (sobran c n tam - 6)).toNat, true⟩)] ++
          (escriturasCortar 5 b ++
            [(k * c.pagina + 10, ⟨(n * c.pagina - 16).toNat, true⟩)]) ∧
        s'.memoria = aplicar s.memoria (escriturasAsignar fuel c l s tam) ∧
        s'.memoria = escribirHeap (cortar (trasCabeceras c s k n tam) 5 b) (k * c.pagina + 10)
          ⟨(n * c.pagina - 16).toNat, true⟩ := by
  obtain ⟨hpos, -, -, -⟩ := h.bounds
  have hlibres := h.libres
  have hexiste : existeMemoriaPararPaginas c s n = true :=
    (h.tablas.existe_iff (by omega)).2 (by omega)
  obtain ⟨-, hpaginas, hlocales⟩ := h.tablas.asignarPaginas (l := l) (n := n) hlibres
  have hultimo : ((k + n - 1 : ℕ) : ℤ) = (k : ℤ) + n - 1 := by omega
  have hlocales := hlocales hpos
  rw [hultimo] at hlocales
  obtain ⟨-, -, -, hmemoria⟩ := memoria_asignar hret
  obtain ⟨a, ha⟩ : ∃ a, asignarPaginas c ⟨s, [], l⟩ (n : ℤ).toNat = a := ⟨_, rfl⟩
  obtain ⟨hprimera, hproxima, -, hsegmento, -, respuesta, m, hwalk, -⟩ :=
    asignarDirMemoria_eq_some h.paginas ha hexiste hret
  rw [Int.toNat_natCast] at ha
  rw [ha] at hpaginas hlocales
  rw [hlocales] at hprimera hproxima hwalk
  rw [hpaginas] at hsegmento
  have hsegmento : segmento = segmentoNuevo c n (desde k n) := hsegmento
  obtain ⟨b, b', hb, -, -, -⟩ := recorer_eq_some (by rw [hsegmento]; rfl) hwalk
  have hlista : escriturasAsignar fuel c l s tam = _ :=
    escriturasAsignar_eq h.tablas hpos h.paginas hlibres
  have hdentro := And.intro hprimera hproxima
  have hvuelve : (recorerSegmentoEspacioLibre fuel c (trasCabeceras c s k n tam)
      (segmentoNuevo c n (desde k n)) 5).isSome = true := by
    rw [← hsegmento, trasCabeceras, hwalk]
    rfl
  have hcorte : escriturasRecorrido fuel c (trasCabeceras c s k n tam)
      (segmentoNuevo c n (desde k n)) 5 = escriturasCortar 5 b := by
    rw [escriturasRecorrido, ← hsegmento, trasCabeceras, hb]
  rw [if_pos hdentro, ← trasCabeceras, if_pos hvuelve, hcorte, h.escriturasCabeceras_eq,
    h.escrituraFinal_eq] at hlista
  refine ⟨hsegmento, b, hb, hlista, hmemoria, ?_⟩
  rw [hmemoria, hlista, ← h.escriturasCabeceras_eq, aplicar_append, aplicar_append,
    aplicar_cabeceras, aplicar_cortar]
  rfl

/-- The headers of the layout, read one by one. -/
theorem PrimerPedido.cadena_iff (h : PrimerPedido c s k n tam) (hsobran : 6 ≤ sobran c n tam) :
    (∃ bs, CadenaSegmento c m (segmentoNuevo c n (desde k n)) 0 bs
        (segmentoNuevo c n (desde k n)).tamanio ∧
      (bs = [(k * c.pagina, ⟨tam.toNat, false⟩)] ∨
        ∃ dir size, bs = [(k * c.pagina, ⟨tam.toNat, false⟩), (dir, ⟨size, true⟩)])) ↔
      leerHeap m (k * c.pagina) = ⟨tam.toNat, false⟩ ∧
        leerHeap m (k * c.pagina + tam.toNat + 5) = ⟨(sobran c n tam - 6).toNat, true⟩ := by
  have hdef : sobran c n tam = n * c.pagina - tam.toNat - 5 := rfl
  have hprimera := h.leer_eq m (Int.le_refl 0) (by omega)
  have hsegunda := h.leer_eq m (show (0 : ℤ) ≤ tam.toNat + 5 by omega) (by omega)
  have hdetras : detras 0 (k * c.pagina, ⟨tam.toNat, false⟩) = tam.toNat + 5 := by
    unfold detras
    dsimp only
    omega
  rw [Int.add_zero] at hprimera
  rw [← add_assoc] at hsegunda
  rw [h.tamanio_eq]
  constructor
  · rintro ⟨bs, hchain, rfl | ⟨dir, size, rfl⟩⟩
    · have hend : detras 0 (k * c.pagina, ⟨tam.toNat, false⟩) = n * c.pagina - 1 := hchain.2
      omega
    · obtain ⟨h0, h1, hend⟩ := hchain
      rw [hdetras] at h1 hend
      rw [hprimera] at h0
      rw [hsegunda] at h1
      obtain ⟨-, h0⟩ := Prod.mk.inj (Option.some.inj h0)
      obtain ⟨-, h1⟩ := Prod.mk.inj (Option.some.inj h1)
      refine ⟨h0, h1.trans ?_⟩
      have hend : (tam.toNat : ℤ) + 5 + 5 + size = n * c.pagina - 1 := hend
      congr 1
      omega
  · rintro ⟨h0, h1⟩
    refine ⟨[(k * c.pagina, ⟨tam.toNat, false⟩),
      (k * c.pagina + tam.toNat + 5, ⟨(sobran c n tam - 6).toNat, true⟩)], ⟨?_, ?_, ?_⟩,
      .inr ⟨_, _, rfl⟩⟩
    · rw [hprimera, h0]
    · rw [hdetras, hsegunda, h1]
    · rw [hdetras]
      show (tam.toNat : ℤ) + 5 + 5 + ((sobran c n tam - 6).toNat : ℤ) = n * c.pagina - 1
      omega

/-- A request for ten bytes or fewer takes one page. -/
theorem PrimerPedido.una_pagina (h : PrimerPedido c s k n tam) (htam : tam.toNat ≤ 10) :
    n * c.pagina = c.pagina := by
  have h16 := h.pagina
  have hn := h.paginas
  rw [cantidadPaginasNecesarias, toI32_of_mem (by omega) (by omega),
    Int.tdiv_eq_ediv_of_nonneg (by omega), Int.ediv_eq_zero_of_lt (by omega) (by omega)] at hn
  have hn : (n : ℤ) = 1 := by omega
  rw [hn, one_mul]

/-- A header lies in the frames of the segment if and only if it lies between their ends. -/
theorem PrimerPedido.marcos_iff (h : PrimerPedido c s k n tam) (dir : ℤ) :
    (∀ x, dir ≤ x → x < dir + 5 → ∃ nroFrame ∈ (segmentoNuevo c n (desde k n)).listPaginas,
      nroFrame * c.pagina ≤ x ∧ x < (nroFrame + 1) * c.pagina) ↔
      k * c.pagina ≤ dir ∧ dir + 5 ≤ (k + n) * c.pagina := by
  have h16 := h.pagina
  have hp : 0 < c.pagina := by omega
  have hbyte : ∀ x, (∃ nroFrame ∈ (segmentoNuevo c n (desde k n)).listPaginas,
      nroFrame * c.pagina ≤ x ∧ x < (nroFrame + 1) * c.pagina) ↔
      k * c.pagina ≤ x ∧ x < (k + n) * c.pagina := by
    intro x
    constructor
    · rintro ⟨f, hf, hlo, hhi⟩
      have hf : (k : ℤ) ≤ f ∧ f < k + n := mem_desde.1 hf
      have hle := mul_le_mul_of_nonneg_right hf.1 hp.le
      have hle' := mul_le_mul_of_nonneg_right (show f + 1 ≤ (k : ℤ) + n by omega) hp.le
      omega
    · rintro ⟨hlo, hhi⟩
      refine ⟨x / c.pagina, mem_desde.2 ⟨?_, ?_⟩, Int.ediv_mul_le x hp.ne',
        Int.lt_ediv_add_one_mul_self x hp⟩
      · exact (Int.le_ediv_iff_mul_le hp).2 hlo
      · exact (Int.ediv_lt_iff_lt_mul hp).2 hhi
  simp only [hbyte]
  constructor
  · intro h
    have hfirst := h dir (by omega) (by omega)
    have hlast := h (dir + 4) (by omega) (by omega)
    omega
  · intro h x hlo hhi
    omega

/-- The headers behind the assignment loop. -/
theorem PrimerPedido.trasCabeceras_eq (h : PrimerPedido c s k n tam)
    (hsobran : 6 ≤ sobran c n tam) :
    trasCabeceras c s k n tam = escribirHeap (escribirHeap s.memoria (k * c.pagina)
      ⟨tam.toNat, false⟩) (k * c.pagina + tam.toNat + 5) ⟨(sobran c n tam - 6).toNat, true⟩ := by
  obtain ⟨-, hhi⟩ := h.sobran_bounds
  obtain ⟨-, hk, hpagina, hlt⟩ := h.bounds
  rw [trasCabeceras, ← aplicar_cabeceras, h.escriturasCabeceras_eq,
    toU32_of_mem (by omega) (by omega)]
  rfl

theorem PrimerPedido.trasCabeceras_leidas (h : PrimerPedido c s k n tam)
    (hsobran : 6 ≤ sobran c n tam) :
    leerHeap (trasCabeceras c s k n tam) (k * c.pagina) = ⟨tam.toNat, false⟩ ∧
      leerHeap (trasCabeceras c s k n tam) (k * c.pagina + tam.toNat + 5)
        = ⟨(sobran c n tam - 6).toNat, true⟩ := by
  obtain ⟨-, hhi⟩ := h.sobran_bounds
  obtain ⟨-, hk, hpagina, hlt⟩ := h.bounds
  have htam := h.lt
  rw [h.trasCabeceras_eq hsobran]
  constructor
  · rw [leerHeap_escribirHeap_of_ne (by omega), leerHeap_escribirHeap (by dsimp only; omega)]
  · rw [leerHeap_escribirHeap (by dsimp only; omega)]

/-- Up to the free block the walk meets nothing; and nothing up to the end of the segment, if
the free block is not larger than five. -/
theorem PrimerPedido.recorrido (h : PrimerPedido c s k n tam) (hsobran : 6 ≤ sobran c n tam) :
    (11 < sobran c n tam →
      Finds (leerSegmento c (trasCabeceras c s k n tam) (segmentoNuevo c n (desde k n))) siguiente
        (hueco 5) (n * c.pagina - 1) 0
        (k * c.pagina + tam.toNat + 5, ⟨(sobran c n tam - 6).toNat, true⟩)) ∧
    (sobran c n tam ≤ 11 → ∃ bs,
      Passes (leerSegmento c (trasCabeceras c s k n tam) (segmentoNuevo c n (desde k n))) siguiente
        (hueco 5) (n * c.pagina - 1) 0 bs (n * c.pagina - 1)) := by
  have hdef : sobran c n tam = n * c.pagina - tam.toNat - 5 := rfl
  obtain ⟨h0, h1⟩ := h.trasCabeceras_leidas hsobran
  have hprimera := h.leer_eq (trasCabeceras c s k n tam) (Int.le_refl 0) (by omega)
  have hsegunda := h.leer_eq (trasCabeceras c s k n tam)
    (show (0 : ℤ) ≤ tam.toNat + 5 by omega) (by omega)
  rw [Int.add_zero, h0] at hprimera
  rw [← add_assoc, h1] at hsegunda
  have hentero := h.segmentoEntero
  have htam := h.tamanio_eq
  have hdetras : detras 0 (k * c.pagina, ⟨tam.toNat, false⟩) = tam.toNat + 5 := by
    unfold detras
    dsimp only
    omega
  have hfin : detras (tam.toNat + 5) (k * c.pagina + tam.toNat + 5,
      ⟨(sobran c n tam - 6).toNat, true⟩) = n * c.pagina - 1 := by
    unfold detras
    dsimp only
    omega
  have hsiguiente : siguiente 0 (k * c.pagina, ⟨tam.toNat, false⟩) = tam.toNat + 5 :=
    (hentero.siguiente_eq (e := n * c.pagina - 1) (by omega) (Int.le_refl 0) (by omega)).trans
      hdetras
  constructor
  · intro hgrande
    refine ⟨[(k * c.pagina, ⟨tam.toNat, false⟩)], tam.toNat + 5,
      ⟨hprimera, rfl, by omega, hsiguiente⟩, hsegunda, ?_⟩
    simp only [hueco, cabe, Bool.true_and, decide_eq_true_eq]
    omega
  · intro hchico
    have hsiguiente' : siguiente (tam.toNat + 5) (k * c.pagina + tam.toNat + 5,
        ⟨(sobran c n tam - 6).toNat, true⟩) = n * c.pagina - 1 :=
      (hentero.siguiente_eq (e := n * c.pagina - 1) (by omega) (by omega) (by omega)).trans hfin
    refine ⟨[(k * c.pagina, ⟨tam.toNat, false⟩), (k * c.pagina + tam.toNat + 5,
      ⟨(sobran c n tam - 6).toNat, true⟩)], hprimera, rfl, by omega, ?_⟩
    rw [hsiguiente]
    refine ⟨hsegunda, ?_, by omega, hsiguiente'⟩
    simp only [hueco, cabe, Bool.true_and, decide_eq_false_iff_not]
    omega

/-- A header that is written as it should: its size has not wrapped around, and it lies in the
frames of the segment. -/
def EscritaBien (c : Config) (k n : ℕ) (w : Cabecera) : Prop :=
  w.2.size < 2147483648 ∧ k * c.pagina ≤ w.1 ∧ w.1 + 5 ≤ (k + n) * c.pagina

/-- With six bytes left over or more, the layout depends on the two headers at the end and on
those of the block that was cut. -/
theorem PrimerPedido.dispuestoBien_iff (h : PrimerPedido c s k n tam)
    (hsobran : 6 ≤ sobran c n tam) {b : Option Cabecera}
    (hws : escriturasAsignar fuel c l s tam = [(k * c.pagina, ⟨tam.toNat, false⟩),
        (k * c.pagina + tam.toNat + 5, ⟨(toU32 (sobran c n tam - 6)).toNat, true⟩)] ++
      (escriturasCortar 5 b ++ [(k * c.pagina + 10, ⟨(n * c.pagina - 16).toNat, true⟩)]))
    (hmemoria : s'.memoria = aplicar s.memoria (escriturasAsignar fuel c l s tam)) :
    DispuestoBien c s s' k tam (segmentoNuevo c n (desde k n)) fuel l ↔
      (leerHeap s'.memoria (k * c.pagina) = ⟨tam.toNat, false⟩ ∧
        leerHeap s'.memoria (k * c.pagina + tam.toNat + 5)
          = ⟨(sobran c n tam - 6).toNat, true⟩) ∧
      ∀ w ∈ escriturasCortar 5 b, EscritaBien c k n w := by
  have hdef : sobran c n tam = n * c.pagina - tam.toNat - 5 := rfl
  obtain ⟨-, hhi⟩ := h.sobran_bounds
  obtain ⟨-, hk, hpagina, hlt⟩ := h.bounds
  have htam := h.lt
  have h16 := h.pagina
  have hfin : ((k : ℤ) + n) * c.pagina = k * c.pagina + n * c.pagina := add_mul _ _ _
  -- the headers that are always written are written as they should
  have hfijas : (∀ w ∈ escriturasAsignar fuel c l s tam, EscritaBien c k n w) ↔
      ∀ w ∈ escriturasCortar 5 b, EscritaBien c k n w := by
    rw [hws]
    simp only [List.mem_append, List.mem_cons, List.not_mem_nil, or_false, or_imp, forall_and,
      forall_eq]
    constructor
    · rintro ⟨-, hcorte, -⟩
      exact hcorte
    · intro hcorte
      rw [toU32_of_mem (by omega) (by omega)]
      refine ⟨⟨⟨?_, ?_, ?_⟩, ⟨?_, ?_, ?_⟩⟩, hcorte, ⟨?_, ?_, ?_⟩⟩ <;> dsimp only <;> omega
  rw [← h.cadena_iff hsobran, ← hfijas]
  constructor
  · rintro ⟨hchain, -, htamanios, hmarcos⟩
    exact ⟨hchain, fun w hw => ⟨htamanios w hw, (h.marcos_iff w.1).1 (hmarcos w hw)⟩⟩
  · rintro ⟨hchain, hwritten⟩
    exact ⟨hchain, hmemoria, fun w hw => (hwritten w hw).1,
      fun w hw => (h.marcos_iff w.1).2 (hwritten w hw).2⟩

/-- The headers of a block that is cut. -/
theorem escritaBien_cortar (b : Cabecera) :
    (∀ w ∈ escriturasCortar 5 (some b), EscritaBien c k n w) ↔
      k * c.pagina ≤ b.1 ∧ b.1 + 15 ≤ (k + n) * c.pagina ∧
        (toU32 (toI32 b.2.size - 10)).toNat < 2147483648 := by
  have hresto : toI32 b.2.size - (5 : ℕ) - 5 = toI32 b.2.size - 10 := by omega
  simp only [escriturasCortar, List.mem_cons, List.not_mem_nil, or_false, or_imp, forall_and,
    forall_eq, EscritaBien, hresto]
  constructor
  · rintro ⟨⟨-, hsize⟩, ⟨hlo, -⟩, -, hhi⟩
    exact ⟨hlo, by omega, hsize⟩
  · rintro ⟨hlo, hhi, hsize⟩
    exact ⟨⟨by omega, hsize⟩, ⟨hlo, by omega⟩, by omega, by omega⟩

/-- A free block that ends one byte in front of the end of the segment is cut as it should if
it has room for ten bytes. -/
theorem escritaBien_cortar_iff {x : ℤ} {g : ℕ} (hlo : k * c.pagina ≤ x) (hg : g < 2147483648)
    (hend : x + 5 + g + 1 = (k + n) * c.pagina) :
    (∀ w ∈ escriturasCortar 5 (some (x, ⟨g, true⟩)), EscritaBien c k n w) ↔ 10 ≤ g := by
  rw [escritaBien_cortar]
  dsimp only
  rw [toI32_of_mem (by omega) (by omega)]
  constructor
  · rintro ⟨-, -, hsize⟩
    unfold toU32 at hsize
    omega
  · intro hdiez
    rw [toU32_of_mem (by omega) (by omega)]
    exact ⟨hlo, by omega, by omega⟩

/-- With twelve bytes left over or more the free block is cut: the layout is there if the
third header falls on its header, or agrees with what is left of it. -/
theorem PrimerPedido.dispuesto_cortado (h : PrimerPedido c s k n tam)
    (hsobran : 11 < sobran c n tam) :
    (leerHeap (escribirHeap (partir (trasCabeceras c s k n tam) (k * c.pagina + tam.toNat + 5)
        (sobran c n tam - 6).toNat 5) (k * c.pagina + 10) ⟨(n * c.pagina - 16).toNat, true⟩)
          (k * c.pagina) = ⟨tam.toNat, false⟩ ∧
      leerHeap (escribirHeap (partir (trasCabeceras c s k n tam) (k * c.pagina + tam.toNat + 5)
        (sobran c n tam - 6).toNat 5) (k * c.pagina + 10) ⟨(n * c.pagina - 16).toNat, true⟩)
          (k * c.pagina + tam.toNat + 5) = ⟨(sobran c n tam - 6).toNat, true⟩) ∧
      (∀ w ∈ escriturasCortar 5 (some (k * c.pagina + tam.toNat + 5,
        ⟨(sobran c n tam - 6).toNat, true⟩)), EscritaBien c k n w) ↔
      tam.toNat = 5 ∧ 26 ≤ c.pagina ∨ tam.toNat = 3 ∧ c.pagina = 196627 ∨
        tam.toNat = 4 ∧ c.pagina = 67372052 := by
  have hdef : sobran c n tam = n * c.pagina - tam.toNat - 5 := rfl
  obtain ⟨-, hk, hpagina, hlt⟩ := h.bounds
  have hpos := h.pos
  have hfin : ((k : ℤ) + n) * c.pagina = k * c.pagina + n * c.pagina := add_mul _ _ _
  have huna := h.una_pagina
  obtain ⟨hprimera, -⟩ := h.trasCabeceras_leidas (by omega)
  obtain ⟨g, hg⟩ : ∃ g, g = (sobran c n tam - 6).toNat := ⟨_, rfl⟩
  have htercera : (n * c.pagina - 16).toNat = g + tam.toNat - 5 := by omega
  have hsegunda := segunda_cortada (m := trasCabeceras c s k n tam) (a := k * c.pagina) (g := g)
    hpos (by omega) (by omega)
  rw [← hg, htercera, hsegunda]
  have hintacta : leerHeap (escribirHeap (partir (trasCabeceras c s k n tam)
      (k * c.pagina + tam.toNat + 5) g 5) (k * c.pagina + 10) ⟨g + tam.toNat - 5, true⟩)
        (k * c.pagina) = ⟨tam.toNat, false⟩ := by
    rw [partir, leerHeap_escribirHeap_of_ne (by omega), leerHeap_escribirHeap_of_ne (by omega),
      leerHeap_escribirHeap_of_ne (by omega), hprimera]
  have hcorte := escritaBien_cortar_iff (c := c) (k := k) (n := n) (g := g)
    (x := k * c.pagina + tam.toNat + 5) (by omega) (by omega) (by omega)
  rw [hcorte]
  constructor
  · rintro ⟨⟨-, hlen⟩, hdiez⟩
    omega
  · intro hlen
    exact ⟨⟨hintacta, by omega⟩, by omega⟩

/-- With less, and nothing cut behind. -/
theorem PrimerPedido.dispuesto_entero (h : PrimerPedido c s k n tam)
    (hlo : 6 ≤ sobran c n tam) (hhi : sobran c n tam ≤ 11) :
    leerHeap (escribirHeap (trasCabeceras c s k n tam) (k * c.pagina + 10)
        ⟨(n * c.pagina - 16).toNat, true⟩) (k * c.pagina) = ⟨tam.toNat, false⟩ ∧
      leerHeap (escribirHeap (trasCabeceras c s k n tam) (k * c.pagina + 10)
        ⟨(n * c.pagina - 16).toNat, true⟩) (k * c.pagina + tam.toNat + 5)
          = ⟨(sobran c n tam - 6).toNat, true⟩ ↔
      tam.toNat = 5 ∨ 10 ≤ tam.toNat ∨ tam.toNat = 9 ∧ c.pagina = 21 ∨
        tam.toNat = 1 ∧ c.pagina = 17 := by
  have hdef : sobran c n tam = n * c.pagina - tam.toNat - 5 := rfl
  obtain ⟨-, hk, hpagina, hlt⟩ := h.bounds
  have hpos := h.pos
  have h16 := h.pagina
  have huna := h.una_pagina
  obtain ⟨hprimera, -⟩ := h.trasCabeceras_leidas hlo
  have hintacta : leerHeap (escribirHeap (trasCabeceras c s k n tam) (k * c.pagina + 10)
      ⟨(n * c.pagina - 16).toNat, true⟩) (k * c.pagina) = ⟨tam.toNat, false⟩ := by
    rw [leerHeap_escribirHeap_of_ne (by omega), hprimera]
  obtain ⟨g, hg⟩ : ∃ g, g = (sobran c n tam - 6).toNat := ⟨_, rfl⟩
  have htercera : (n * c.pagina - 16).toNat = g + tam.toNat - 5 := by omega
  have hsegunda := segunda_entera (m := escribirHeap s.memoria (k * c.pagina) ⟨tam.toNat, false⟩)
    (a := k * c.pagina) (g := g) hpos (by omega) (by omega)
  rw [htercera, h.trasCabeceras_eq hlo, ← hg] at hintacta ⊢
  rw [hsegunda]
  constructor
  · rintro ⟨-, hlen⟩
    omega
  · intro hlen
    exact ⟨hintacta, by omega⟩

/-- A block that is cut in the segment, behind whose end the walk went on. -/
theorem PrimerPedido.cortado_detras (h : PrimerPedido c s k n tam)
    (hsobran : 6 ≤ sobran c n tam) (hchico : sobran c n tam ≤ 11) {b : Cabecera}
    (hfinds : Finds (leerSegmento c (trasCabeceras c s k n tam) (segmentoNuevo c n (desde k n)))
      siguiente (hueco 5) (n * c.pagina - 1) (n * c.pagina - 1) b)
    (hlo : k * c.pagina ≤ b.1) (hhi : b.1 + 15 ≤ (k + n) * c.pagina)
    (hsize : (toU32 (toI32 b.2.size - 10)).toNat < 2147483648) :
    leerHeap (escribirHeap (partir (trasCabeceras c s k n tam) b.1 b.2.size 5) (k * c.pagina + 10)
        ⟨(n * c.pagina - 16).toNat, true⟩) (k * c.pagina) = ⟨tam.toNat, false⟩ ∧
      leerHeap (escribirHeap (partir (trasCabeceras c s k n tam) b.1 b.2.size 5)
        (k * c.pagina + 10) ⟨(n * c.pagina - 16).toNat, true⟩) (k * c.pagina + tam.toNat + 5)
          = ⟨(sobran c n tam - 6).toNat, true⟩ ↔
      SinDanioPrimera tam.toNat (b.1 - k * c.pagina) ∧
        (tam.toNat = 5 ∨ (10 ≤ tam.toNat ∨ tam.toNat = 9 ∧ sobran c n tam = 7) ∧
          SinDanioSegunda (sobran c n tam - 6).toNat (toU32 (toI32 b.2.size - 10)).toNat
            (tam.toNat - (b.1 - k * c.pagina))) := by
  have hdef : sobran c n tam = n * c.pagina - tam.toNat - 5 := rfl
  have hfin : ((k : ℤ) + n) * c.pagina = k * c.pagina + n * c.pagina := add_mul _ _ _
  obtain ⟨hprimera, hsegunda⟩ := h.trasCabeceras_leidas hsobran
  obtain ⟨d, hd⟩ := Int.eq_ofNat_of_zero_le (show 0 ≤ b.1 - k * c.pagina by omega)
  have hb : b.1 = k * c.pagina + d := by omega
  -- the block cut was free, and so is not the one at the start
  have hpos : 1 ≤ d := by
    obtain ⟨bs, x, -, hleer, hhueco⟩ := hfinds
    have hheap := (leerSegmento_heap hleer).2
    by_contra hcero
    rw [hb, show d = 0 by omega, Nat.cast_zero, Int.add_zero, hprimera] at hheap
    simp [hueco, cabe, hheap] at hhueco
  obtain ⟨g, hg⟩ : ∃ g, g = (sobran c n tam - 6).toNat := ⟨_, rfl⟩
  have hultima : (n * c.pagina - 16).toNat = g + tam.toNat - 5 := by omega
  have hsiete : sobran c n tam = 7 ↔ g = 1 := by omega
  rw [hd, hb, hultima, ← hg, hsiete]
  rw [← hg] at hsegunda
  rw [primera_cortada hprimera hpos]
  refine and_congr_right fun hsin => segunda_tras_corte hsegunda (by omega) ?_ (by omega) rfl hsize
  rcases hsin with hlejos | ⟨-, -, hcinco⟩
  · exact .inl (by omega)
  · right
    rw [Int.toNat_natCast] at hcinco
    have hpow : 256 ^ 1 ≤ 256 ^ d := Nat.pow_le_pow_right (by omega) hpos
    have hmul := Nat.div_mul_le_self tam.toNat (256 ^ d)
    rw [hcinco] at hmul
    omega

/-- With less than twelve bytes left over the walk comes to the end of the segment: the layout
depends on what it does there. -/
theorem PrimerPedido.dispuesto_chico (h : PrimerPedido c s k n tam)
    (hsobran : 6 ≤ sobran c n tam) (hchico : sobran c n tam ≤ 11) {b : Option Cabecera}
    (hb : buscarSegmento fuel c (trasCabeceras c s k n tam) (segmentoNuevo c n (desde k n)) 5
      = some b) :
    (leerHeap (escribirHeap (cortar (trasCabeceras c s k n tam) 5 b) (k * c.pagina + 10)
        ⟨(n * c.pagina - 16).toNat, true⟩) (k * c.pagina) = ⟨tam.toNat, false⟩ ∧
      leerHeap (escribirHeap (cortar (trasCabeceras c s k n tam) 5 b) (k * c.pagina + 10)
        ⟨(n * c.pagina - 16).toNat, true⟩) (k * c.pagina + tam.toNat + 5)
          = ⟨(sobran c n tam - 6).toNat, true⟩) ∧
      (∀ w ∈ escriturasCortar 5 b, EscritaBien c k n w) ↔
      SinCorteDetras c s k n tam ∧
          (tam.toNat = 5 ∨ 10 ≤ tam.toNat ∨ tam.toNat = 9 ∧ c.pagina = 21 ∨
            tam.toNat = 1 ∧ c.pagina = 17) ∨
        CorteInocuo c s k n tam := by
  obtain ⟨bs, hpass⟩ := (h.recorrido hsobran).2 hchico
  cases b with
  | none =>
      have hmisses : Misses _ _ _ _ _ := finds_or_misses hb
      rw [h.limite_eq, hpass.misses_iff] at hmisses
      have hdetras : SinCorteDetras c s k n tam := by
        intro _
        rwa [h.limite_eq]
      have hinocuo : ¬ CorteInocuo c s k n tam := by
        rintro ⟨b, hfinds, -⟩
        exact hmisses.not_finds hfinds
      have hentero := h.dispuesto_entero hsobran hchico
      simp only [cortar]
      rw [hentero]
      constructor
      · rintro ⟨hlen, -⟩
        exact .inl ⟨hdetras, hlen⟩
      · rintro (⟨-, hlen⟩ | hcorte)
        · exact ⟨hlen, fun w hw => by cases hw⟩
        · exact absurd hcorte hinocuo
  | some b =>
      have hfinds : Finds _ _ _ _ _ b := finds_or_misses hb
      rw [h.limite_eq, hpass.finds_iff] at hfinds
      have hdetras : ¬ SinCorteDetras c s k n tam := by
        intro hmisses
        have hmisses := hmisses (by rw [h.limite_eq])
        rw [h.limite_eq] at hmisses
        exact hmisses.not_finds hfinds
      simp only [cortar]
      rw [escritaBien_cortar]
      constructor
      · rintro ⟨hcabeceras, hlo, hhi, hsize⟩
        obtain ⟨h0, h1⟩ := (h.cortado_detras hsobran hchico hfinds hlo hhi hsize).1 hcabeceras
        exact .inr ⟨b, hfinds, hlo, hhi, hsize, h0, h1⟩
      · rintro (⟨hmisses, -⟩ | ⟨b', hfinds', hlo, hhi, hsize, h0, h1⟩)
        · exact absurd hmisses hdetras
        · obtain rfl := hfinds.unique hfinds'
          exact ⟨(h.cortado_detras hsobran hchico hfinds hlo hhi hsize).2 ⟨h0, h1⟩, hlo, hhi,
            hsize⟩

/-- A first request that returns leaves the layout if and only if at least six bytes are left
over behind the block, and either the block is of five bytes and the page of 26 or more; or
not more than eleven are left over, the walk cuts nothing behind them, and the block is of five
bytes, or of ten or more; or the lengths are among four that happen to agree. -/
theorem layout_iff (h : PrimerPedido c s k n tam)
    (hret : asignarDirMemoria fuel c l s tam = some (ptr, segmento, s')) :
    DispuestoBien c s s' k tam segmento fuel l ↔
      6 ≤ sobran c n tam ∧
        (tam.toNat = 5 ∧ 26 ≤ c.pagina ∨ tam.toNat = 3 ∧ c.pagina = 196627 ∨
          tam.toNat = 4 ∧ c.pagina = 67372052 ∨
          sobran c n tam ≤ 11 ∧
            (SinCorteDetras c s k n tam ∧
              (tam.toNat = 5 ∨ 10 ≤ tam.toNat ∨ tam.toNat = 9 ∧ c.pagina = 21 ∨
                tam.toNat = 1 ∧ c.pagina = 17) ∨
            CorteInocuo c s k n tam)) := by
  obtain ⟨rfl, b, hb, hws, hmemoria, hfinal⟩ := h.asignado hret
  have hbounds := h.sobran_bounds
  have hdef : sobran c n tam = n * c.pagina - tam.toNat - 5 := rfl
  by_cases hsobran : 6 ≤ sobran c n tam
  · rw [h.dispuestoBien_iff hsobran hws hmemoria, hfinal]
    by_cases hcorta : 11 < sobran c n tam
    · -- the free block is cut
      have hfinds := (h.recorrido hsobran).1 hcorta
      rw [← h.limite_eq] at hfinds
      have hb' : b = some (k * c.pagina + tam.toNat + 5, ⟨(sobran c n tam - 6).toNat, true⟩) :=
        hfinds.eq_some hb
      subst hb'
      have hcortado := h.dispuesto_cortado hcorta
      simp only [cortar]
      rw [hcortado]
      omega
    · have hmas : ¬ (tam.toNat = 5 ∧ 26 ≤ c.pagina ∨ tam.toNat = 3 ∧ c.pagina = 196627 ∨
          tam.toNat = 4 ∧ c.pagina = 67372052) := by
        intro hlen
        have huna := h.una_pagina (by omega)
        omega
      rw [h.dispuesto_chico hsobran (by omega) hb]
      constructor
      · intro hlayout
        exact ⟨hsobran, .inr (.inr (.inr ⟨by omega, hlayout⟩))⟩
      · rintro ⟨-, h5 | h3 | h4 | ⟨-, hlayout⟩⟩
        · exact absurd (.inl h5) hmas
        · exact absurd (.inr (.inl h3)) hmas
        · exact absurd (.inr (.inr h4)) hmas
        · exact hlayout
  · -- the size of the second header has wrapped around
    have hwrapped : ¬ DispuestoBien c s s' k tam (segmentoNuevo c n (desde k n)) fuel l := by
      intro hdisp
      have hsize := hdisp.tamanios (k * c.pagina + tam.toNat + 5,
        ⟨(toU32 (sobran c n tam - 6)).toNat, true⟩) (by rw [hws]; simp)
      dsimp only at hsize
      unfold toU32 at hsize
      omega
    exact ⟨fun hdisp => absurd hdisp hwrapped, fun hcond => absurd hcond.1 hsobran⟩

end Layout

/-- Nothing is taken at the start: a request that fits one page is a first request. -/
theorem primerPedido_museInit {tam : UInt32} (hpos : 1 ≤ tam.toNat) (htam : tam.toNat < 27) :
    PrimerPedido ⟨96, 32, 0, 0⟩ (museInit ⟨96, 32, 0, 0⟩ fun _ => 0) 0 1 tam where
  tablas := (paged_museInit _ _).toLockstep
  pagina := by decide
  pos := hpos
  lt := by omega
  paginas := by
    have hpagina : Config.pagina ⟨96, 32, 0, 0⟩ = 32 := by decide
    rw [cantidadPaginasNecesarias, toI32_of_mem (by omega) (by omega), hpagina,
      Int.tdiv_eq_ediv_of_nonneg (by omega)]
    omega
  libres := by decide
  reales := by decide

/-- Five bytes in a page of 32 are followed by a free block of sixteen, up to its last byte. -/
theorem layout_iff_cinco : ∃ ptr segmento s',
    asignarDirMemoria 10 ⟨96, 32, 0, 0⟩ ⟨0, 0⟩ (museInit ⟨96, 32, 0, 0⟩ fun _ => 0) 5
      = some (ptr, segmento, s') ∧
    DispuestoBien ⟨96, 32, 0, 0⟩ (museInit ⟨96, 32, 0, 0⟩ fun _ => 0) s' 0 5 segmento 10
      ⟨0, 0⟩ := by
  have hsome : (asignarDirMemoria 10 ⟨96, 32, 0, 0⟩ ⟨0, 0⟩
      (museInit ⟨96, 32, 0, 0⟩ fun _ => 0) 5).isSome := by
    decide +kernel
  obtain ⟨⟨ptr, segmento, s'⟩, hret⟩ := Option.isSome_iff_exists.1 hsome
  have hprimer : PrimerPedido ⟨96, 32, 0, 0⟩ (museInit ⟨96, 32, 0, 0⟩ fun _ => 0) 0 1 5 :=
    primerPedido_museInit (by decide) (by decide)
  exact ⟨ptr, segmento, s', hret,
    (layout_iff hprimer hret).2 ⟨by decide, .inl ⟨by decide, by decide⟩⟩⟩

/-- Behind eight bytes the third header covers the start of the second, which is then read as a
used one of 256 bytes. -/
theorem third_header_over_second : ∃ ptr segmento s',
    PrimerPedido ⟨96, 32, 0, 0⟩ (museInit ⟨96, 32, 0, 0⟩ fun _ => 0) 0 1 8 ∧
    asignarDirMemoria 10 ⟨96, 32, 0, 0⟩ ⟨0, 0⟩ (museInit ⟨96, 32, 0, 0⟩ fun _ => 0) 8
      = some (ptr, segmento, s') ∧
    ¬ DispuestoBien ⟨96, 32, 0, 0⟩ (museInit ⟨96, 32, 0, 0⟩ fun _ => 0) s' 0 8 segmento 10
      ⟨0, 0⟩ := by
  have hlibre : (asignarDirMemoria 10 ⟨96, 32, 0, 0⟩ ⟨0, 0⟩
      (museInit ⟨96, 32, 0, 0⟩ fun _ => 0) 8).map
        (fun r => (leerHeap r.2.2.memoria 13).libre) = some false := by
    decide +kernel
  obtain ⟨⟨ptr, segmento, s'⟩, hret, hlibre⟩ := Option.map_eq_some_iff.1 hlibre
  have hprimer : PrimerPedido ⟨96, 32, 0, 0⟩ (museInit ⟨96, 32, 0, 0⟩ fun _ => 0) 0 1 8 :=
    primerPedido_museInit (by decide) (by decide)
  refine ⟨ptr, segmento, s', hprimer, hret, ?_⟩
  intro hdisp
  obtain ⟨rfl, -⟩ := hprimer.asignado hret
  have hsegunda := ((hprimer.cadena_iff (by decide)).1 hdisp.cadena).2
  have hdir : ((0 : ℕ) : ℤ) * Config.pagina ⟨96, 32, 0, 0⟩ + (8 : UInt32).toNat + 5 = 13 := by
    decide
  rw [hdir] at hsegunda
  simp only [hsegunda] at hlibre
  cases hlibre

end Threaders.Muse
