import Threaders.Muse.Remainder
import Threaders.Muse.Writes

/-!
# The blocks `MALLOC` answers

A first request is answered with the start of frames nobody has, so its block is its own.
A later one marks one block as used, in the walk over the segment, and answers another, from the
walk over `memoria`, which stays free.  So what it answers may be in the frames of another
process, and may be answered again.

`SinDefecto` says of a request when this does no harm, from the headers it finds: nothing is
answered; or the block that is, be it what is left of the one that is marked or another one, is in
frames of the process and apart from all that the process was answered before.  While it holds of
every later request, and no first request wraps around an `int`, no block is answered twice.

## Main definitions

* `Bloque`, `NoDoubleAllocation` — the blocks of a run and the property of them.
* `SinDefecto` — the condition on a request.
* `no_double_allocation` — the property, of runs that meet it.
* `double_allocation` — a run of four requests that breaks it.
-/

namespace Threaders.Muse

open Lib Common

/-! ## Blocks -/

/-- A block that was answered: who asked, where it starts, how long it is. -/
structure Bloque where
  id : Int32
  ptr : ℕ
  tam : ℕ

/-- The byte lies in the block. -/
def Bloque.Contains (b : Bloque) (x : ℕ) : Prop := b.ptr ≤ x ∧ x < b.ptr + b.tam

/-- The block a `MALLOC` is answered with, unless the answer is the error value. -/
def bloque (label : TMalloc × TMallocOk) : Option Bloque :=
  if label.2.ptr.toNat = 4294967295 then none
  else some ⟨label.1.idLibmuse, label.2.ptr.toNat, label.1.tam.toNat⟩

/-- The block lies inside the frames of one segment of the process that asked for it. -/
def Inside (c : Config) (s : Globals) (b : Bloque) : Prop :=
  ∃ nodo ∈ s.listaProcesos, nodo.id = b.id ∧ ∃ segmento ∈ nodo.listSegmento,
    ∀ x, b.Contains x → ∃ i ∈ segmento.listPaginas,
      (s.vectorAtributoPaginas i).frame * c.pagina ≤ x ∧
      (x : ℤ) < ((s.vectorAtributoPaginas i).frame + 1) * c.pagina

/-- No two blocks share a byte, and each lies inside a segment of its process. -/
def NoDoubleAllocation (c : Config) (s : Globals) (bs : List Bloque) : Prop :=
  bs.Pairwise (fun b b' => ∀ x, ¬(b.Contains x ∧ b'.Contains x)) ∧ ∀ b ∈ bs, Inside c s b

/-- The bytes asked for, behind a header at `dir`, are in frames of the segment and apart from the
blocks `bs` that the process was answered before. -/
structure BloquePropio (c : Config) (segmento : NodoSegmento) (bs : List Bloque) (p : TMalloc)
    (dir : ℤ) : Prop where
  marcos : ∀ x, dir + 5 ≤ x → x < dir + 5 + p.tam.toNat →
    ∃ i ∈ segmento.listPaginas, i * c.pagina ≤ x ∧ x < (i + 1) * c.pagina
  aparte : 0 < p.tam.toNat → ∀ e ∈ bs, e.id = p.idLibmuse → 0 < e.tam →
    (e.ptr : ℤ) + e.tam ≤ dir + 5 ∨ dir + 5 + p.tam.toNat ≤ e.ptr

/-- A later request does no harm.  The first block of the segment that is large enough, if there is
one, is cut; and of `memoria` nothing is answered, or another block, or what is left of the one that
is cut, and what is answered is the process's own. -/
inductive PosteriorSinDefecto (c : Config) (m : Mem) (segmento : NodoSegmento) (bs : List Bloque)
    (p : TMalloc) : Prop
  | sinHueco
      (hsegmento : Misses (leerSegmento c m segmento) siguiente (hueco p.tam.toNat)
        (limiteSegmento c segmento) 0)
      (hmemoria : Misses (leerMemoria c m) siguiente (hueco p.tam.toNat)
        (limiteSegmento c segmento) 0) : PosteriorSinDefecto c m segmento bs p
  | sinCorte (w : Cabecera)
      (hsegmento : Misses (leerSegmento c m segmento) siguiente (hueco p.tam.toNat)
        (limiteSegmento c segmento) 0)
      (hmemoria : Finds (leerMemoria c m) siguiente (hueco p.tam.toNat)
        (limiteSegmento c segmento) 0 w)
      (hpropio : BloquePropio c segmento bs p w.1) : PosteriorSinDefecto c m segmento bs p
  | nada (b : Cabecera)
      (hsegmento : Finds (leerSegmento c m segmento) siguiente (hueco p.tam.toNat)
        (limiteSegmento c segmento) 0 b)
      (hmemoria : NadaAparte c m segmento p.tam.toNat b) : PosteriorSinDefecto c m segmento bs p
  | otro (b w : Cabecera)
      (hsegmento : Finds (leerSegmento c m segmento) siguiente (hueco p.tam.toNat)
        (limiteSegmento c segmento) 0 b)
      (hmemoria : OtroAparte c m segmento p.tam.toNat b w)
      (hpropio : BloquePropio c segmento bs p w.1) : PosteriorSinDefecto c m segmento bs p
  | resto (b : Cabecera)
      (hsegmento : Finds (leerSegmento c m segmento) siguiente (hueco p.tam.toNat)
        (limiteSegmento c segmento) 0 b)
      (hmemoria : RestoPrimero c m segmento p.tam.toNat b)
      (hpropio : BloquePropio c segmento bs p (b.1 + 5 + p.tam.toNat)) :
      PosteriorSinDefecto c m segmento bs p

/-- The request does not reach the defect, after the blocks `bs` were answered: a first request
either does not wrap around or is refused by the pre-check, and a later one does no harm. -/
def SinDefecto (c : Config) (bs : List Bloque) (s : Globals) (p : TMalloc) : Prop :=
  match (procesarId s p.idLibmuse).1.listSegmento.getLast? with
  | none => p.tam.toNat + 5 < 2147483648 ∨
      existeMemoriaPararPaginas c s (cantidadPaginasNecesarias c p.tam) = false
  | some segmento => PosteriorSinDefecto c s.memoria segmento bs p

/-- Such a later request is answered the error value, or a block of the process's own. -/
theorem PosteriorSinDefecto.respuesta {fuel : ℕ} {c : Config} {m m' : Mem}
    {segmento : NodoSegmento} {bs : List Bloque} {p : TMalloc} {respuesta : ℤ}
    (h : PosteriorSinDefecto c m segmento bs p) (hbase : segmento.base = 0)
    (hwalk : recorerSegmentoEspacioLibre fuel c m segmento p.tam.toNat = some (respuesta, m')) :
    respuesta = -1 ∨ ∃ dir, BloquePropio c segmento bs p dir ∧ c.EnMemoria dir 5 ∧
      respuesta = dir + 5 := by
  obtain ⟨hallado, hallado', hb, hcorte, rfl, hb', rfl⟩ := recorer_eq_some hbase hwalk
  have hlt : p.tam.toNat < 4294967296 := p.tam.toNat_lt
  cases h with
  | sinHueco hsegmento hmemoria =>
      obtain rfl := hsegmento.eq_none hb
      obtain rfl := hmemoria.eq_none hb'
      exact .inl rfl
  | sinCorte w hsegmento hmemoria hpropio =>
      obtain rfl := hsegmento.eq_none hb
      obtain rfl := hmemoria.eq_some hb'
      have hdir := enMemoria_of_finds hmemoria
      exact .inr ⟨w.1, hpropio, hdir, responder_some hdir⟩
  | nada b hsegmento hmemoria =>
      obtain rfl := hsegmento.eq_some hb
      obtain ⟨cs, x, -, hleer, -⟩ := hsegmento
      obtain ⟨hdir, hheap⟩ := leerSegmento_heap hleer
      obtain rfl := buscarMemoria_nadaAparte hmemoria hheap hdir hcorte hlt hb'
      exact .inl rfl
  | otro b w hsegmento hmemoria hpropio =>
      obtain rfl := hsegmento.eq_some hb
      obtain ⟨cs, x, -, hleer, -⟩ := hsegmento
      obtain ⟨hdir, hheap⟩ := leerSegmento_heap hleer
      rcases buscarMemoria_otroAparte hmemoria hheap hdir hcorte hlt hb' with rfl | rfl
      · exact .inl rfl
      · have hdir' := enMemoria_of_finds hmemoria.otro
        exact .inr ⟨w.1, hpropio, hdir', responder_some hdir'⟩
  | resto b hsegmento hmemoria hpropio =>
      obtain rfl := hsegmento.eq_some hb
      rcases buscarMemoria_restoPrimero hmemoria hcorte hlt hb' with rfl | rfl
      · exact .inl rfl
      · exact .inr ⟨_, hpropio, hcorte, responder_some hcorte⟩

/-! ## Frames as addresses -/

section Arithmetic
variable {c : Config}

theorem tdiv_mul_bounds {x p : ℤ} (hp : 0 < p) (hlo : -2147483648 ≤ x) (hhi : x < 2147483648) :
    -2147483648 ≤ x.tdiv p * p ∧ x.tdiv p * p < 2147483648 := by
  rcases le_or_gt 0 x with hx | hx
  · rw [Int.tdiv_eq_ediv_of_nonneg hx]
    have hle := Int.ediv_mul_le x hp.ne'
    have hnonneg : 0 ≤ x / p * p := mul_nonneg (Int.ediv_nonneg hx hp.le) hp.le
    omega
  · have hneg : x.tdiv p = -((-x) / p) := by
      rw [← Int.tdiv_eq_ediv_of_nonneg (by omega), Int.neg_tdiv, neg_neg]
    have hle := Int.ediv_mul_le (-x) hp.ne'
    have hnonneg : 0 ≤ -x / p * p := mul_nonneg (Int.ediv_nonneg (by omega) hp.le) hp.le
    rw [hneg, neg_mul]
    omega

theorem bounds_of_mul_bounds {a p : ℤ} (hp : 2 ≤ p) (hlo : -2147483648 ≤ a * p)
    (hhi : a * p < 2147483648) : -1073741824 ≤ a ∧ a < 1073741824 := by
  rcases le_or_gt 0 a with ha | ha
  · have hle : a * 2 ≤ a * p := mul_le_mul_of_nonneg_left hp ha
    omega
  · have hle : a * p ≤ a * 2 := mul_le_mul_of_nonpos_left hp ha.le
    omega

/-- All frames together fit 32 bits. -/
theorem entradas_mul_pagina (hp : 0 < c.pagina) : c.entradas * c.pagina < 4294967295 := by
  have hmem := tdiv_mul_bounds hp (Int32.le_toInt c.memorySize) (Int32.toInt_lt c.memorySize)
  have hswap := tdiv_mul_bounds hp (Int32.le_toInt c.swapSize) (Int32.toInt_lt c.swapSize)
  unfold Config.entradas Config.cantidadPaginasTotales
  generalize c.memorySize.toInt.tdiv c.pagina = a at hmem ⊢
  generalize c.swapSize.toInt.tdiv c.pagina = b at hswap ⊢
  have htotal := toI32_mem (a + b)
  rcases le_or_gt (toI32 (a + b)) 0 with hneg | hpos
  · rw [Int.toNat_of_nonpos hneg]
    simp
  rw [Int.toNat_of_nonneg hpos.le]
  rcases eq_or_lt_of_le (show 1 ≤ c.pagina by omega) with hone | htwo
  · rw [← hone]
    omega
  · -- with pages of two bytes or more the sum does not wrap to a positive number
    have ha := bounds_of_mul_bounds (show 2 ≤ c.pagina by omega) hmem.1 hmem.2
    have hb := bounds_of_mul_bounds (show 2 ≤ c.pagina by omega) hswap.1 hswap.2
    have hsum : toI32 (a + b) = a + b := toI32_of_mem (by omega) (by omega)
    rw [hsum, add_mul]
    omega

/-- The pages a first request is given hold its header and its block. -/
theorem lt_cantidadPaginasNecesarias {tam : UInt32} (hp : 0 < c.pagina)
    (htam : tam.toNat + 5 < 2147483648) :
    (tam.toNat : ℤ) + 5 < cantidadPaginasNecesarias c tam * c.pagina := by
  rw [cantidadPaginasNecesarias, toI32_of_mem (by omega) (by omega),
    Int.tdiv_eq_ediv_of_nonneg (by omega)]
  exact Int.lt_ediv_add_one_mul_self _ hp

/-- The answer to a first request is the address behind the header in its first frame. -/
theorem ptr_toNat {k : ℕ} (hk : (k : ℤ) * c.pagina + 5 < 4294967296) (hp : 0 < c.pagina) :
    ((UInt32.ofInt (toI32 (toI32 (k * c.pagina) + 5))).toNat : ℤ) = k * c.pagina + 5 := by
  have hnonneg : 0 ≤ (k : ℤ) * c.pagina := mul_nonneg (by omega) hp.le
  rw [← toU32_eq_toNat, toU32_toI32]
  generalize (k : ℤ) * c.pagina = x at hk hnonneg ⊢
  unfold toU32 toI32
  omega

end Arithmetic

/-! ## Segments are kept -/

/-- The segments of a state are still there, in a process with the same id. -/
def Keeps (s s' : Globals) : Prop :=
  ∀ nodo ∈ s.listaProcesos, ∀ segmento ∈ nodo.listSegmento,
    ∃ nodo' ∈ s'.listaProcesos, nodo'.id = nodo.id ∧ segmento ∈ nodo'.listSegmento

theorem keeps_procesarId (s : Globals) (id : Int32) : Keeps s (procesarId s id).2 := by
  intro nodo hnodo segmento hsegmento
  obtain ⟨-, -, -, -, hlista | ⟨-, -, hlista⟩⟩ := procesarId_spec s id
  · exact ⟨nodo, hlista ▸ hnodo, rfl, hsegmento⟩
  · exact ⟨nodo, hlista ▸ List.mem_append_left _ hnodo, rfl, hsegmento⟩

theorem keeps_agregarSegmento {id : Int32} {nuevo : NodoSegmento} {s s' : Globals}
    (hlista : s'.listaProcesos = agregarSegmento id nuevo s.listaProcesos) : Keeps s s' := by
  intro nodo hnodo segmento hsegmento
  rw [hlista]
  clear hlista
  generalize s.listaProcesos = procesos at hnodo ⊢
  induction procesos with
  | nil => cases hnodo
  | cons nodo' nodos ih =>
      rw [agregarSegmento]
      split
      · rcases List.mem_cons.mp hnodo with rfl | hmem
        · exact ⟨_, List.mem_cons_self, rfl, List.mem_append_left _ hsegmento⟩
        · exact ⟨nodo, List.mem_cons_of_mem _ hmem, rfl, hsegmento⟩
      · rcases List.mem_cons.mp hnodo with rfl | hmem
        · exact ⟨nodo, List.mem_cons_self, rfl, hsegmento⟩
        · obtain ⟨nodo'', hmem, hid, hseg⟩ := ih hmem
          exact ⟨nodo'', List.mem_cons_of_mem _ hmem, hid, hseg⟩

theorem Keeps.trans {s s' s'' : Globals} (h : Keeps s s') (h' : Keeps s' s'') : Keeps s s'' := by
  intro nodo hnodo segmento hsegmento
  obtain ⟨nodo', hnodo', hid, hseg⟩ := h nodo hnodo segmento hsegmento
  obtain ⟨nodo'', hnodo'', hid', hseg'⟩ := h' nodo' hnodo' segmento hseg
  exact ⟨nodo'', hnodo'', hid'.trans hid, hseg'⟩

/-- The segment added is there, in a process with that id. -/
theorem agregarSegmento_mem {id : Int32} {procesos : List NodoProceso} (nuevo : NodoSegmento)
    (h : ∃ nodo ∈ procesos, nodo.id = id) :
    ∃ nodo ∈ agregarSegmento id nuevo procesos, nodo.id = id ∧ nuevo ∈ nodo.listSegmento := by
  induction procesos with
  | nil => simp at h
  | cons nodo' nodos ih =>
      rw [agregarSegmento]
      split
      · next hid => exact ⟨_, List.mem_cons_self, hid, by simp⟩
      · next hid =>
          have hrest : ∃ nodo ∈ nodos, nodo.id = id := by
            obtain ⟨nodo, hmem, hid'⟩ := h
            rcases List.mem_cons.mp hmem with rfl | hmem
            · exact absurd hid' hid
            · exact ⟨nodo, hmem, hid'⟩
          obtain ⟨nodo, hmem, hid, hseg⟩ := ih hrest
          exact ⟨nodo, List.mem_cons_of_mem _ hmem, hid, hseg⟩

/-! ## Runs -/

/-- The blocks answered so far lie in the `k` frames taken, apart from each other and each
in its own process's pages. -/
structure Allocated (c : Config) (s : Globals) (k : ℕ) (bs : List Bloque) : Prop
    extends Paged c s k where
  base : BaseCero s
  below : ∀ b ∈ bs, ∀ x, b.Contains x → (x : ℤ) < k * c.pagina
  separate : NoDoubleAllocation c s bs

namespace Allocated

variable {c : Config} {s s' : Globals} {k k' n : ℕ} {bs : List Bloque}

/-- Blocks stay inside their segments while segments are kept: the frame of a page entry
is its index, in every state. -/
theorem inside (h : Allocated c s k bs) (h' : Paged c s' k') (hk : k ≤ k') (hkeeps : Keeps s s')
    {b : Bloque} (hb : b ∈ bs) : Inside c s' b := by
  obtain ⟨nodo, hnodo, hid, segmento, hsegmento, hbytes⟩ := h.separate.2 b hb
  obtain ⟨nodo', hnodo', hid', hseg⟩ := hkeeps nodo hnodo segmento hsegmento
  refine ⟨nodo', hnodo', hid'.trans hid, segmento, hseg, fun x hx => ?_⟩
  obtain ⟨i, hi, hlo, hhi⟩ := hbytes x hx
  have hmem : i ∈ paginas s.listaProcesos := List.mem_flatMap.mpr
    ⟨nodo, hnodo, List.mem_flatMap.mpr ⟨segmento, hsegmento, hi⟩⟩
  obtain ⟨hnonneg, hlt⟩ := h.mem_paginas.mp hmem
  have hframe : (s'.vectorAtributoPaginas i).frame = (s.vectorAtributoPaginas i).frame := by
    obtain ⟨j, rfl⟩ := Int.eq_ofNat_of_zero_le hnonneg
    rw [h.frame j (by omega), h'.frame j (by omega)]
  exact ⟨i, hi, by rwa [hframe], by rwa [hframe]⟩

/-- A step that answers no block. -/
theorem keep (h : Allocated c s k bs) (h' : Paged c s' k) (hbase : BaseCero s')
    (hkeeps : Keeps s s') : Allocated c s' k bs :=
  ⟨h', hbase, h.below, h.separate.1, fun _ hb => h.inside h' le_rfl hkeeps hb⟩

/-- A step that answers a block of frames that the process has, behind its other blocks. -/
theorem answer (h : Allocated c s k bs) (h' : Paged c s' k) (hbase : BaseCero s')
    (hkeeps : Keeps s s') (hp : 0 < c.pagina) {b : Bloque} {nodo : NodoProceso}
    {segmento : NodoSegmento} (hnodo : nodo ∈ s'.listaProcesos) (hid : nodo.id = b.id)
    (hsegmento : segmento ∈ nodo.listSegmento)
    (hmarcos : ∀ x, b.Contains x → ∃ i ∈ segmento.listPaginas,
      i * c.pagina ≤ x ∧ (x : ℤ) < (i + 1) * c.pagina)
    (hdetras : ∀ e ∈ bs, e.id = b.id → ∀ x, ¬ (e.Contains x ∧ b.Contains x)) :
    Allocated c s' k (bs ++ [b]) := by
  have hpagina : ∀ {i : ℤ}, i ∈ segmento.listPaginas → 0 ≤ i ∧ i < k := fun hi =>
    h'.mem_paginas.mp (List.mem_flatMap.mpr ⟨nodo, hnodo, List.mem_flatMap.mpr ⟨_, hsegmento, hi⟩⟩)
  have hframe : ∀ {i : ℤ}, 0 ≤ i → i < k → (s'.vectorAtributoPaginas i).frame = i := by
    intro i hnonneg hlt
    obtain ⟨j, rfl⟩ := Int.eq_ofNat_of_zero_le hnonneg
    exact h'.frame j (by omega)
  have hinside : Inside c s' b := by
    refine ⟨nodo, hnodo, hid, segmento, hsegmento, fun x hx => ?_⟩
    obtain ⟨i, hi, hlo, hhi⟩ := hmarcos x hx
    obtain ⟨hnonneg, hlt⟩ := hpagina hi
    refine ⟨i, hi, ?_⟩
    rw [hframe hnonneg hlt]
    exact ⟨hlo, hhi⟩
  have hapart : ∀ e ∈ bs, ∀ x, ¬ (e.Contains x ∧ b.Contains x) := by
    intro e he x hx
    by_cases hsame : e.id = b.id
    · exact hdetras e he hsame x hx
    -- the frames of another process are others
    obtain ⟨nodo', hnodo', hid', segmento', hsegmento', hbytes⟩ :=
      h.inside h' le_rfl hkeeps he
    obtain ⟨i, hi, hlo, hhi⟩ := hmarcos x hx.2
    obtain ⟨j, hj, hlo', hhi'⟩ := hbytes x hx.1
    have hj' : 0 ≤ j ∧ j < k := h'.mem_paginas.mp (List.mem_flatMap.mpr
      ⟨nodo', hnodo', List.mem_flatMap.mpr ⟨_, hsegmento', hj⟩⟩)
    rw [hframe hj'.1 hj'.2] at hlo' hhi'
    have hij : i = j := by
      have hle := lt_of_mul_lt_mul_right (lt_of_le_of_lt hlo hhi') hp.le
      have hle' := lt_of_mul_lt_mul_right (lt_of_le_of_lt hlo' hhi) hp.le
      omega
    subst hij
    have hnodos := h'.nodo_unico hnodo hnodo' (List.mem_flatMap.mpr ⟨_, hsegmento, hi⟩)
      (List.mem_flatMap.mpr ⟨_, hsegmento', hj⟩)
    rw [← hid, ← hid', hnodos] at hsame
    exact hsame rfl
  refine ⟨h', hbase, fun e he x hx => ?_, ?_, fun e he => ?_⟩
  · rcases List.mem_append.mp he with he | he
    · exact h.below e he x hx
    · obtain rfl : e = b := by simpa using he
      obtain ⟨i, hi, -, hhi⟩ := hmarcos x hx
      have hle := mul_le_mul_of_nonneg_right (show i + 1 ≤ (k : ℤ) by have := hpagina hi; omega) hp.le
      omega
  · refine List.pairwise_append.mpr ⟨h.separate.1, List.pairwise_singleton _ _,
      fun e he b' hb' => ?_⟩
    obtain rfl : b' = b := by simpa using hb'
    exact hapart e he
  · rcases List.mem_append.mp he with he | he
    · exact h.inside h' le_rfl hkeeps he
    · obtain rfl : e = b := by simpa using he
      exact hinside

/-- A step that answers a block in the next `n` frames. -/
theorem assign (h : Allocated c s k bs) (h' : Paged c s' (k + n)) (hbase : BaseCero s')
    (hkeeps : Keeps s s') (hp : 0 < c.pagina) {b : Bloque} (hptr : (b.ptr : ℤ) = k * c.pagina + 5)
    (htam : (b.tam : ℤ) + 5 < n * c.pagina)
    (hsegmento : ∃ nodo ∈ s'.listaProcesos, nodo.id = b.id ∧ ∃ segmento ∈ nodo.listSegmento,
      segmento.listPaginas = desde k n) : Allocated c s' (k + n) (bs ++ [b]) := by
  have hbytes : ∀ x, b.Contains x → (k : ℤ) * c.pagina ≤ x ∧ (x : ℤ) < (k + n : ℕ) * c.pagina := by
    intro x hx
    obtain ⟨hlo, hhi⟩ := hx
    push_cast
    rw [add_mul]
    omega
  have hapart : ∀ b' ∈ bs, ∀ x, ¬(b'.Contains x ∧ b.Contains x) := by
    intro b' hb' x hx
    have hlt := h.below b' hb' x hx.1
    have hle := (hbytes x hx.2).1
    omega
  have hinside : Inside c s' b := by
    obtain ⟨nodo, hnodo, hid, segmento, hseg, hpaginas⟩ := hsegmento
    refine ⟨nodo, hnodo, hid, segmento, hseg, fun x hx => ?_⟩
    obtain ⟨hlo, hhi⟩ := hbytes x hx
    -- the byte lies in the frame whose number is the quotient
    have hk : (k : ℤ) ≤ x / c.pagina := (Int.le_ediv_iff_mul_le hp).mpr hlo
    have hn : (x : ℤ) / c.pagina < (k + n : ℕ) := (Int.ediv_lt_iff_lt_mul hp).mpr hhi
    obtain ⟨i, hi⟩ := Int.eq_ofNat_of_zero_le (show 0 ≤ (x : ℤ) / c.pagina by omega)
    rw [hi] at hk hn
    refine ⟨i, hpaginas ▸ mem_desde.mpr (by omega), ?_⟩
    rw [h'.frame i (by omega), ← hi]
    exact ⟨Int.ediv_mul_le _ hp.ne', Int.lt_ediv_add_one_mul_self _ hp⟩
  refine ⟨h', hbase, fun b' hb' x hx => ?_, ?_, fun b' hb' => ?_⟩
  · rcases List.mem_append.mp hb' with hb' | hb'
    · have hlt := h.below b' hb' x hx
      have hle : (k : ℤ) * c.pagina ≤ (k + n : ℕ) * c.pagina :=
        mul_le_mul_of_nonneg_right (by omega) hp.le
      omega
    · obtain rfl : b' = b := by simpa using hb'
      exact (hbytes x hx).2
  · refine List.pairwise_append.mpr ⟨h.separate.1, List.pairwise_singleton _ _,
      fun b' hb' b'' hb'' => ?_⟩
    obtain rfl : b'' = b := by simpa using hb''
    exact hapart b' hb'
  · rcases List.mem_append.mp hb' with hb' | hb'
    · exact h.inside h' (Nat.le_add_right k n) hkeeps hb'
    · obtain rfl : b' = b := by simpa using hb'
      exact hinside

/-- What a request that meets the condition does to the blocks. -/
theorem step (h : Allocated c s k bs) (hp : 0 < c.pagina) {label : TMalloc × TMallocOk}
    (hstep : MallocStep c s label s') (hcond : SinDefecto c bs s label.1) :
    ∃ k', Allocated c s' k' (bs ++ (bloque label).toList) := by
  obtain ⟨p, r⟩ := label
  have hbase : BaseCero s' := by
    obtain ⟨fuel, l, hserved⟩ := hstep
    exact (memoria_malloc h.base hserved).1
  have h₁ := h.toPaged.procesarId p.idLibmuse
  have hkeeps₁ := keeps_procesarId s p.idLibmuse
  have hid : ∃ nodo ∈ (procesarId s p.idLibmuse).2.listaProcesos, nodo.id = p.idLibmuse := by
    obtain ⟨-, -, -, hexiste, -⟩ := procesarId_spec s p.idLibmuse
    exact ⟨_, existeProcesoEnLista_spec hexiste⟩
  cases malloc_effect hstep with
  | refused hs₁ _ _ hs' =>
      subst hs₁
      have hpaged : Paged c s' (k + 0) :=
        h₁.agregar hid (h₁.toLockstep.congr (by rw [hs']) (by rw [hs'])) rfl (by rw [hs'])
      have hnone : bloque (p, ⟨UInt32.ofInt (-1)⟩) = none := rfl
      rw [hnone, Option.toList_none, List.append_nil]
      exact ⟨k, h.keep hpaged hbase (hkeeps₁.trans (keeps_agregarSegmento (by rw [hs'])))⟩
  | @assigned s₁ _ n l segmento m hs₁ hnuevo hn hpos hlibre hpaginas hs' =>
      subst hs₁
      have hroom : k + n ≤ c.entradas := by
        have := (h₁.existe_iff (show 0 < (n : ℤ) by omega)).mp hlibre
        omega
      obtain ⟨hlock, hdesde, hlocales⟩ := h₁.toLockstep.asignarPaginas (l := l) hroom
      have hpaged : Paged c s' (k + n) :=
        h₁.agregar hid (hlock.congr (by rw [hs']) (by rw [hs'])) (hpaginas.trans hdesde) (by rw [hs'])
      have hlleno : existeMemoriaPararPaginas c s n = true := by
        rw [existeMemoriaPararPaginas] at hlibre ⊢
        rwa [(procesarId_spec s p.idLibmuse).2.1] at hlibre
      rw [SinDefecto, hnuevo, List.getLast?_nil, hn, hlleno] at hcond
      have hsmall : p.tam.toNat + 5 < 2147483648 := by simpa using hcond
      have htam := lt_cantidadPaginasNecesarias hp hsmall
      rw [hn] at htam
      have hlimit := entradas_mul_pagina hp
      have hend : (k : ℤ) * c.pagina + n * c.pagina ≤ c.entradas * c.pagina := by
        rw [← add_mul]
        exact mul_le_mul_of_nonneg_right (by omega) hp.le
      rw [hlocales hpos]
      have hptr := ptr_toNat (k := k) (by omega) hp
      generalize UInt32.ofInt (toI32 (toI32 (k * c.pagina) + 5)) = ptr at hptr
      have hsome : bloque (p, ⟨ptr⟩) = some ⟨p.idLibmuse, ptr.toNat, p.tam.toNat⟩ := by
        rw [bloque, if_neg (by simp only; omega)]
      rw [hsome]
      refine ⟨k + n, h.assign hpaged hbase (hkeeps₁.trans (keeps_agregarSegmento (by rw [hs'])))
        hp hptr htam ?_⟩
      obtain ⟨nodo, hnodo, hnid, hseg⟩ := agregarSegmento_mem segmento hid
      exact ⟨nodo, by rw [hs']; exact hnodo, hnid, segmento, hseg, hpaginas.trans hdesde⟩
  | @walked s₁ _ segmento fuel respuesta m hs₁ hultimo hwalk hs' =>
      subst hs₁
      have hpaged : Paged c s' k := by
        rw [hs']
        exact ⟨h₁.toLockstep.congr rfl rfl, h₁.perm, h₁.consecutive⟩
      have hkeeps : Keeps s s' := hkeeps₁.trans fun nodo hnodo seg hseg =>
        ⟨nodo, by rw [hs']; exact hnodo, rfl, hseg⟩
      obtain ⟨hmemoria, -, -, hexiste, -⟩ := procesarId_spec s p.idLibmuse
      obtain ⟨hnodo, hnid⟩ := existeProcesoEnLista_spec hexiste
      have hsegmento := List.mem_of_getLast? hultimo
      have hcero := h.base.procesarId p.idLibmuse _ hnodo segmento hsegmento
      rw [SinDefecto, hultimo, ← hmemoria] at hcond
      have hcond : PosteriorSinDefecto c _ segmento bs p := hcond
      rcases hcond.respuesta hcero hwalk with rfl | ⟨dir, hpropio, hdir, rfl⟩
      · have hnone : bloque (p, ⟨UInt32.ofInt (-1)⟩) = none := rfl
        rw [hnone, Option.toList_none, List.append_nil]
        exact ⟨k, h.keep hpaged hbase hkeeps⟩
      · have hmem := Int32.toInt_lt c.memorySize
        obtain ⟨hlo, hhi⟩ := (Config.enMemoria_iff (by decide)).1 hdir
        push_cast at hhi
        have hptr : ((UInt32.ofInt (dir + 5)).toNat : ℤ) = dir + 5 := by
          rw [← toU32_eq_toNat, toU32_of_mem (by omega) (by omega)]
        generalize UInt32.ofInt (dir + 5) = ptr at hptr
        have hsome : bloque (p, ⟨ptr⟩) = some ⟨p.idLibmuse, ptr.toNat, p.tam.toNat⟩ := by
          rw [bloque, if_neg (by simp only; omega)]
        rw [hsome]
        refine ⟨k, h.answer hpaged hbase hkeeps hp (by rw [hs']; exact hnodo) hnid hsegmento
          (fun x hx => hpropio.marcos x ?_ ?_) fun e he hid x hx => ?_⟩
        · exact hptr ▸ Int.ofNat_le.2 hx.1
        · have := hx.2
          dsimp only at this
          omega
        · obtain ⟨⟨hlo₁, hhi₁⟩, hlo₂, hhi₂⟩ := hx
          dsimp only at hlo₂ hhi₂
          have hapart := hpropio.aparte (by omega) e he hid (by omega)
          omega

end Allocated

end Threaders.Muse
