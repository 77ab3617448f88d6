import Threaders.Lib.BlockSearch
import Threaders.Muse.Heap

/-!
# The two walks of `recorer_segmento_espacio_libre`

Both are searches for a free header larger than the request.  They differ in what they read:
the first goes through the pages of the segment and cuts the block it finds; the second goes
through `memoria` from its start and answers the block it finds.  As the block that was cut
is used by then, what is answered is never the block that was cut.

## Main definitions

* `leerSegmento`, `leerMemoria`, `siguiente` — what the walks read, and how they go on.
* `CadenaSegmento` — the headers of a segment form a chain.
* `RecorridoCorrecto` — the first block that is large enough is cut and answered.
* `first_fit_iff` — when this is what happens.
-/

namespace Threaders.Muse

open Lib Common

/-! ## The walks as searches -/

/-- A header that is read, with its address in `memoria`. -/
abbrev Cabecera := ℤ × HeapMetadata

/-- `pagina` and `offset_frame` at an offset of a segment. -/
def posicion (c : Config) (base offset : ℤ) : Posicion :=
  ⟨offset, (offset - base).tdiv c.pagina,
    offset - base - toI32 ((offset - base).tdiv c.pagina * c.pagina)⟩

/-- The header at an offset of a segment, if the page is there and the header in `memoria`. -/
def leerSegmento (c : Config) (m : Mem) (segmento : NodoSegmento) (offset : ℤ) :
    Option Cabecera := do
  let nroFrame ← listGet segmento.listPaginas (posicion c segmento.base offset).pagina
  let heap ← leerCabecera c m (direccion c nroFrame (posicion c segmento.base offset)) 5
  some (direccion c nroFrame (posicion c segmento.base offset), heap)

/-- The header at an address of `memoria`. -/
def leerMemoria (c : Config) (m : Mem) (dir : ℤ) : Option Cabecera := do
  let heap ← leerCabecera c m dir 5
  some (dir, heap)

/-- Where the walks go on behind a header. -/
def siguiente (offset : ℤ) (b : Cabecera) : ℤ := toI32 (toI32 (offset + 5) + b.2.size)

/-- A header whose block is large enough. -/
def hueco (memoriaReservar : ℕ) (b : Cabecera) : Bool := cabe b.2 memoriaReservar

/-- The walk over the segment: the block it stops at. -/
def buscarSegmento (fuel : ℕ) (c : Config) (m : Mem) (segmento : NodoSegmento)
    (memoriaReservar : ℕ) : Option (Option Cabecera) :=
  loop (scanRound (leerSegmento c m segmento) siguiente (hueco memoriaReservar)
    (limiteSegmento c segmento)) fuel 0

/-- The walk over `memoria`: the block it stops at. -/
def buscarMemoria (fuel : ℕ) (c : Config) (m : Mem) (segmento : NodoSegmento)
    (memoriaReservar : ℕ) : Option (Option Cabecera) :=
  loop (scanRound (leerMemoria c m) siguiente (hueco memoriaReservar)
    (limiteSegmento c segmento)) fuel 0

/-- What the walk over the segment does with the block it stops at. -/
def cortar (m : Mem) (memoriaReservar : ℕ) : Option Cabecera → Mem
  | none => m
  | some b => partir m b.1 b.2.size memoriaReservar

/-- The header it writes behind the bytes reserved lies in `memoria`. -/
def CorteEnMemoria (c : Config) (memoriaReservar : ℕ) : Option Cabecera → Prop
  | none => True
  | some b => c.EnMemoria (b.1 + 5 + memoriaReservar) 5

instance (c : Config) (memoriaReservar : ℕ) (b : Option Cabecera) :
    Decidable (CorteEnMemoria c memoriaReservar b) := by
  cases b <;> unfold CorteEnMemoria <;> infer_instance

/-- What the walk over `memoria` answers for the block it stops at. -/
def responder : Option Cabecera → ℤ
  | none => -1
  | some b => toI32 (b.1 + 5)

section Searches
variable {c : Config} {m : Mem} {segmento : NodoSegmento} {fuel memoriaReservar : ℕ}

theorem leerSegmento_eq_some {offset : ℤ} {b : Cabecera} :
    leerSegmento c m segmento offset = some b ↔
      ∃ nroFrame, listGet segmento.listPaginas (posicion c segmento.base offset).pagina
          = some nroFrame ∧
        b.1 = direccion c nroFrame (posicion c segmento.base offset) ∧ c.EnMemoria b.1 5 ∧
          b.2 = leerHeap m b.1 := by
  simp only [leerSegmento, Option.bind_eq_bind, Option.bind_eq_some_iff, leerCabecera_eq_some,
    Option.some.injEq]
  constructor
  · rintro ⟨nroFrame, hpagina, _, ⟨hdir, rfl⟩, rfl⟩
    exact ⟨nroFrame, hpagina, rfl, hdir, rfl⟩
  · rintro ⟨nroFrame, hpagina, hb, hdir, hheap⟩
    rw [hb] at hdir hheap
    exact ⟨nroFrame, hpagina, _, ⟨hdir, rfl⟩, Prod.ext hb.symm hheap.symm⟩

theorem leerMemoria_eq_some {dir : ℤ} {b : Cabecera} :
    leerMemoria c m dir = some b ↔ c.EnMemoria dir 5 ∧ b = (dir, leerHeap m dir) := by
  simp only [leerMemoria, Option.bind_eq_bind, Option.bind_eq_some_iff, leerCabecera_eq_some,
    Option.some.injEq]
  constructor
  · rintro ⟨_, ⟨hdir, rfl⟩, rfl⟩
    exact ⟨hdir, rfl⟩
  · rintro ⟨hdir, rfl⟩
    exact ⟨_, ⟨hdir, rfl⟩, rfl⟩

theorem rondaSegmento_posicion (limite offset : ℤ) :
    rondaSegmento c m segmento limite memoriaReservar (posicion c segmento.base offset)
      = (scanRound (leerSegmento c m segmento) siguiente (hueco memoriaReservar) limite offset).bind
          (Sum.elim (fun offset => some (.inl (posicion c segmento.base offset))) fun b =>
            (if CorteEnMemoria c memoriaReservar b then some (cortar m memoriaReservar b)
              else none).map .inr) := by
  unfold rondaSegmento scanRound leerSegmento
  cases listGet segmento.listPaginas (posicion c segmento.base offset).pagina with
  | none => rfl
  | some nroFrame =>
      simp only [Option.bind_eq_bind, Option.bind_some]
      generalize direccion c nroFrame (posicion c segmento.base offset) = dir
      cases leerCabecera c m dir 5 with
      | none => rfl
      | some heap =>
          simp only [Option.bind_some]
          by_cases hcabe : cabe heap memoriaReservar = true
          · have hhueco : hueco memoriaReservar (dir, heap) = true := hcabe
            rw [if_pos hcabe, if_pos hhueco]
            by_cases hdir : c.EnMemoria (dir + 5 + memoriaReservar) 5
            · have hcorte : CorteEnMemoria c memoriaReservar (some (dir, heap)) := hdir
              simp only [Option.bind_some, Sum.elim_inr, if_pos hdir, if_pos hcorte]
              rfl
            · have hcorte : ¬ CorteEnMemoria c memoriaReservar (some (dir, heap)) := hdir
              simp only [Option.bind_some, Sum.elim_inr, if_neg hdir, if_neg hcorte]
              rfl
          · have hhueco : ¬ hueco memoriaReservar (dir, heap) = true := hcabe
            rw [if_neg hcabe, if_neg hhueco]
            have havanzar : avanzar c segmento.base (posicion c segmento.base offset) heap.size
                = posicion c segmento.base (siguiente offset (dir, heap)) := rfl
            have hoffset : ∀ offset, (posicion c segmento.base offset).offset = offset :=
              fun _ => rfl
            rw [havanzar, hoffset]
            generalize siguiente offset (dir, heap) = proximo
            by_cases h : proximo ≤ limite
            · rw [if_pos h, if_pos h]
              rfl
            · rw [if_neg h, if_neg h]
              rfl

theorem rondaMemoria_eq (limite offset : ℤ) :
    rondaMemoria c m limite memoriaReservar offset
      = (scanRound (leerMemoria c m) siguiente (hueco memoriaReservar) limite offset).map
          (Sum.map id responder) := by
  unfold rondaMemoria scanRound leerMemoria
  cases leerCabecera c m offset 5 with
  | none => rfl
  | some heap =>
      simp only [Option.bind_eq_bind, Option.bind_some]
      by_cases hcabe : cabe heap memoriaReservar = true
      · have hhueco : hueco memoriaReservar (offset, heap) = true := hcabe
        rw [if_pos hcabe, if_pos hhueco]
        rfl
      · have hhueco : ¬ hueco memoriaReservar (offset, heap) = true := hcabe
        rw [if_neg hcabe, if_neg hhueco]
        have hproximo : toI32 (toI32 (offset + 5) + heap.size) = siguiente offset (offset, heap) :=
          rfl
        rw [hproximo]
        generalize siguiente offset (offset, heap) = proximo
        by_cases h : proximo ≤ limite
        · rw [if_pos h, if_pos h]
          rfl
        · rw [if_neg h, if_neg h]
          rfl

theorem recorrerSegmento_eq (hbase : segmento.base = 0) :
    recorrerSegmento fuel c m segmento memoriaReservar
      = (buscarSegmento fuel c m segmento memoriaReservar).bind fun b =>
          if CorteEnMemoria c memoriaReservar b then some (cortar m memoriaReservar b) else none := by
  have hinicio : posicion c segmento.base 0 = ⟨0, 0, 0⟩ := by
    rw [hbase, posicion, Int.sub_zero, Int.zero_tdiv, Int.zero_mul]
    rfl
  rw [recorrerSegmento, ← hinicio]
  exact loop_bind fun offset => rondaSegmento_posicion _ offset

theorem recorrerMemoria_eq (hbase : segmento.base = 0) :
    recorrerMemoria fuel c m segmento memoriaReservar
      = (buscarMemoria fuel c m segmento memoriaReservar).map responder := by
  have hinicio : inicioMemoria c segmento = 0 := by
    rw [inicioMemoria, hbase, Int.zero_tdiv, Int.zero_mul]
    rfl
  rw [recorrerMemoria, hinicio]
  exact loop_map (f := id) fun offset => rondaMemoria_eq _ offset

/-- What a call that returns has done. -/
theorem recorer_eq_some {respuesta : ℤ} {m' : Mem} (hbase : segmento.base = 0)
    (h : recorerSegmentoEspacioLibre fuel c m segmento memoriaReservar = some (respuesta, m')) :
    ∃ b b', buscarSegmento fuel c m segmento memoriaReservar = some b ∧
      CorteEnMemoria c memoriaReservar b ∧ m' = cortar m memoriaReservar b ∧
      buscarMemoria fuel c m' segmento memoriaReservar = some b' ∧ respuesta = responder b' := by
  simp only [recorerSegmentoEspacioLibre, Option.bind_eq_bind, Option.bind_eq_some_iff,
    Option.some.injEq, Prod.mk.injEq, recorrerSegmento_eq hbase, recorrerMemoria_eq hbase,
    Option.map_eq_some_iff, Option.ite_none_right_eq_some] at h
  obtain ⟨_, ⟨b, hb, hcorte, rfl⟩, _, ⟨b', hb', rfl⟩, rfl, rfl⟩ := h
  exact ⟨b, b', hb, hcorte, rfl, hb', rfl⟩

/-- A call returns once its two searches have. -/
theorem recorer_of_buscar {n k : ℕ} {b b' : Option Cabecera} (hbase : segmento.base = 0)
    (hb : buscarSegmento n c m segmento memoriaReservar = some b)
    (hcorte : CorteEnMemoria c memoriaReservar b)
    (hb' : buscarMemoria k c (cortar m memoriaReservar b) segmento memoriaReservar = some b') :
    recorerSegmentoEspacioLibre (max n k) c m segmento memoriaReservar
      = some (responder b', cortar m memoriaReservar b) := by
  have hn : buscarSegmento (max n k) c m segmento memoriaReservar = some b :=
    loop_mono hb (le_max_left n k)
  have hk : buscarMemoria (max n k) c (cortar m memoriaReservar b) segmento memoriaReservar
      = some b' := loop_mono hb' (le_max_right n k)
  simp only [recorerSegmentoEspacioLibre, recorrerSegmento_eq hbase, recorrerMemoria_eq hbase,
    hn, if_pos hcorte, hk, Option.map_some, Option.bind_eq_bind, Option.bind_some]

end Searches

/-! ## The headers of a segment -/

/-- A segment whose offsets are `int`s. -/
structure SegmentoEntero (c : Config) (segmento : NodoSegmento) : Prop where
  base : segmento.base = 0
  pagina : 0 < c.pagina
  tamanio : 0 ≤ segmento.tamanio
  ultima : (segmento.tamanio / c.pagina + 1) * c.pagina < 2147483648

/-- Where the header behind a block is. -/
def detras (offset : ℤ) (b : Cabecera) : ℤ := offset + 5 + b.2.size

/-- From one offset of a segment up to another there is a chain of headers. -/
def CadenaSegmento (c : Config) (m : Mem) (segmento : NodoSegmento) :
    ℤ → List Cabecera → ℤ → Prop := Blocks (leerSegmento c m segmento) detras

theorem lt_detras (offset : ℤ) (b : Cabecera) : offset < detras offset b := by
  unfold detras
  omega

namespace SegmentoEntero
variable {c : Config} {segmento : NodoSegmento} {e offset : ℤ} {b : Cabecera}

theorem limite_eq (h : SegmentoEntero c segmento) :
    limiteSegmento c segmento = (segmento.tamanio / c.pagina + 1) * c.pagina - 1 := by
  have hlt := h.ultima
  have htam := h.tamanio
  have hbound : segmento.tamanio < (segmento.tamanio / c.pagina + 1) * c.pagina :=
    Int.lt_ediv_add_one_mul_self _ h.pagina
  rw [limiteSegmento, h.base, Int.zero_add, toI32_of_mem (x := segmento.tamanio) (by omega)
    (by omega), Int.tdiv_eq_ediv_of_nonneg htam]
  generalize (segmento.tamanio / c.pagina + 1) * c.pagina = x at *
  rw [toI32_of_mem (x := x) (by omega) hlt, toI32_of_mem (by omega) (by omega)]

theorem tamanio_le_limite (h : SegmentoEntero c segmento) :
    segmento.tamanio ≤ limiteSegmento c segmento := by
  have hbound : segmento.tamanio < (segmento.tamanio / c.pagina + 1) * c.pagina :=
    Int.lt_ediv_add_one_mul_self _ h.pagina
  rw [h.limite_eq]
  omega

/-- Inside the segment the walks go on at the next header. -/
theorem siguiente_eq (h : SegmentoEntero c segmento) (he : e ≤ segmento.tamanio + 1)
    (h0 : 0 ≤ offset) (hle : detras offset b ≤ e) : siguiente offset b = detras offset b := by
  have hlimite := h.tamanio_le_limite
  have hlt := h.ultima
  rw [h.limite_eq] at hlimite
  unfold detras at hle ⊢
  rw [siguiente, toI32_of_mem (x := offset + 5) (by omega) (by omega),
    toI32_of_mem (by omega) (by omega)]

end SegmentoEntero

/-! ## First fit -/

/-- What a first fit comes to.  If no free block of the chain is larger than the request, the
answer is -1 and nothing changes.  Otherwise the first such block is answered and is used from
then on, with the size reserved; what is left of it is a free block, if a header fits; all
other headers are as they were, and the chain ends where it ended. -/
def PrimerAjuste (c : Config) (m : Mem) (segmento : NodoSegmento) (e : ℤ) (bs : List Cabecera)
    (memoriaReservar : ℕ) (respuesta : ℤ) (m' : Mem) : Prop :=
  ((∀ b ∈ bs, hueco memoriaReservar b = false) → respuesta = -1 ∧ m' = m) ∧
  ∀ pre b post, bs = pre ++ b :: post → (∀ b' ∈ pre, hueco memoriaReservar b' = false) →
    hueco memoriaReservar b = true → respuesta = b.1 + 5 ∧ ∃ resto,
      CadenaSegmento c m' segmento 0 (pre ++ (b.1, ⟨memoriaReservar, false⟩) :: resto ++ post) e ∧
      (memoriaReservar + 5 ≤ b.2.size → ∃ dir size, resto = [(dir, ⟨size, true⟩)] ∧
        size + memoriaReservar + 5 = b.2.size) ∧
      (b.2.size < memoriaReservar + 5 → resto = [])

/-- A call returns, and is a first fit. -/
def RecorridoCorrecto (c : Config) (m : Mem) (segmento : NodoSegmento) (e : ℤ)
    (bs : List Cabecera) (memoriaReservar : ℕ) : Prop :=
  ∃ fuel respuesta m',
    recorerSegmentoEspacioLibre fuel c m segmento memoriaReservar = some (respuesta, m') ∧
    PrimerAjuste c m segmento e bs memoriaReservar respuesta m'

/-- Behind the end of the chain, on the last page, the walk over the segment meets no block
that is large enough. -/
def NadaDetras (c : Config) (m : Mem) (segmento : NodoSegmento) (e : ℤ) (memoriaReservar : ℕ) :
    Prop :=
  e ≤ limiteSegmento c segmento →
    Misses (leerSegmento c m segmento) siguiente (hueco memoriaReservar)
      (limiteSegmento c segmento) e

/-- The walk over `memoria` meets no block that is large enough. -/
def NadaEnMemoria (c : Config) (m : Mem) (segmento : NodoSegmento) (memoriaReservar : ℕ) : Prop :=
  Misses (leerMemoria c m) siguiente (hueco memoriaReservar) (limiteSegmento c segmento) 0

section FirstFit
variable {c : Config} {m m' : Mem} {segmento : NodoSegmento} {e : ℤ} {bs : List Cabecera}
  {fuel memoriaReservar : ℕ} {b : Cabecera}

/-- The header of the block that is cut is used, the one behind it does not meet it. -/
theorem libre_partir (m : Mem) (dir : ℤ) (size memoriaReservar : ℕ) :
    (leerHeap (partir m dir size memoriaReservar) dir).libre = false := by
  rw [libre_eq_false_iff, partir, escribirHeap_of_not_mem (.inl (by omega)), escribirHeap_eq]
  simp [Mem.write]

/-- A block that is cut was free. -/
theorem cortar_ne (h : leerHeap m b.1 = b.2) (hhueco : hueco memoriaReservar b = true) :
    cortar m memoriaReservar (some b) ≠ m := by
  intro hsame
  have husado := libre_partir m b.1 b.2.size memoriaReservar
  rw [show partir m b.1 b.2.size memoriaReservar = m from hsame, h] at husado
  simp [hueco, cabe, husado] at hhueco

/-- A header of the segment is read in `memoria`. -/
theorem leerSegmento_heap {offset : ℤ} (h : leerSegmento c m segmento offset = some b) :
    c.EnMemoria b.1 5 ∧ b.2 = leerHeap m b.1 := by
  obtain ⟨-, -, -, hdir, hheap⟩ := leerSegmento_eq_some.1 h
  exact ⟨hdir, hheap⟩

/-- A search over `memoria` finds a free block there. -/
theorem finds_memoria {limite : ℤ}
    (h : Finds (leerMemoria c m) siguiente (hueco memoriaReservar) limite 0 b) :
    c.EnMemoria b.1 5 ∧ b.2 = leerHeap m b.1 ∧ b.2.libre = true := by
  obtain ⟨cs, x, -, hleer, hhueco⟩ := h
  obtain ⟨hdir, rfl⟩ := leerMemoria_eq_some.1 hleer
  simp only [hueco, cabe, Bool.and_eq_true] at hhueco
  exact ⟨hdir, rfl, hhueco.1⟩

/-- What is answered for a block in `memoria` is the address behind its header. -/
theorem responder_some (h : c.EnMemoria b.1 5) : responder (some b) = b.1 + 5 := by
  have hmem := Int32.toInt_lt c.memorySize
  obtain ⟨hlo, hhi⟩ := (Config.enMemoria_iff (by decide)).1 h
  have hfits : b.1 + 5 ≤ c.memorySize.toInt := hhi
  rw [responder, toI32_of_mem (by omega) (by omega)]

/-- Where a block is large enough, the one answered is not the first of them: that one is used
when `memoria` is searched. -/
theorem not_primerAjuste {b' : Option Cabecera} (hchain : CadenaSegmento c m segmento 0 bs e)
    (hfits : ∃ b ∈ bs, hueco memoriaReservar b = true)
    (hb' : buscarMemoria fuel c m' segmento memoriaReservar = some b') :
    ¬ PrimerAjuste c m segmento e bs memoriaReservar (responder b') m' := by
  intro h
  obtain ⟨b, hfind⟩ := Option.isSome_iff_exists.1 (List.find?_isSome.2 hfits)
  obtain ⟨hb, pre, post, rfl, hpre⟩ := List.find?_eq_some_iff_append.1 hfind
  obtain ⟨hanswer, resto, hchain', -⟩ := h.2 pre b post rfl (by simpa using hpre) hb
  -- the block is at an address of memoria
  obtain ⟨x, -, hleer, -⟩ := blocks_append.1 hchain
  have hdir := (leerSegmento_heap hleer).1
  have hlo := ((Config.enMemoria_iff (by decide)).1 hdir).1
  -- and its header is used
  rw [List.append_assoc] at hchain'
  obtain ⟨x', -, hleer', -⟩ := blocks_append.1 hchain'
  have husado := (leerSegmento_heap hleer').2
  cases b' with
  | none =>
      rw [responder] at hanswer
      omega
  | some b' =>
      obtain ⟨hdir', hheap, hlibre⟩ := finds_memoria (finds_or_misses hb')
      have hsame : b'.1 = b.1 := by
        rw [responder_some hdir'] at hanswer
        omega
      rw [hheap, hsame, ← husado] at hlibre
      cases hlibre

/-- Where no block is large enough, the walk over the segment comes to the end of the chain. -/
theorem buscarSegmento_none_iff (hseg : SegmentoEntero c segmento)
    (he : e ≤ segmento.tamanio + 1) (hchain : CadenaSegmento c m segmento 0 bs e)
    (hmiss : ∀ b ∈ bs, hueco memoriaReservar b = false) :
    (∃ fuel, buscarSegmento fuel c m segmento memoriaReservar = some none) ↔
      NadaDetras c m segmento e memoriaReservar := by
  have hlimite := hseg.tamanio_le_limite
  have htam := hseg.tamanio
  have hagree : ∀ x b, 0 ≤ x → detras x b ≤ e → siguiente x b = detras x b :=
    fun x b => hseg.siguiente_eq he
  unfold buscarSegmento NadaDetras
  rw [scan_eq_none_iff]
  by_cases hend : e ≤ limiteSegmento c segmento
  · have hpass := Passes.of_blocks (fun x b => (lt_detras x b).le) hagree hchain hmiss hend
    rw [hpass.misses_iff]
    exact ⟨fun h _ => h, fun h => h hend⟩
  · have hmisses := Misses.of_blocks lt_detras hagree hchain hmiss
      (show 0 ≤ limiteSegmento c segmento by omega)
      (show e = limiteSegmento c segmento + 1 by omega)
    exact ⟨fun _ h => absurd h hend, fun _ => hmisses⟩

/-- The answer over `memoria` is -1. -/
theorem responder_eq_iff :
    (∃ fuel b, buscarMemoria fuel c m segmento memoriaReservar = some b ∧ responder b = -1) ↔
      NadaEnMemoria c m segmento memoriaReservar := by
  constructor
  · rintro ⟨fuel, b, hb, hanswer⟩
    have h := finds_or_misses hb
    cases b with
    | none => exact h
    | some b =>
        obtain ⟨hdir, -, -⟩ := finds_memoria h
        have hlo := ((Config.enMemoria_iff (by decide)).1 hdir).1
        rw [responder_some hdir] at hanswer
        omega
  · intro h
    obtain ⟨fuel, hfuel⟩ := h.loop_eq
    exact ⟨fuel, none, hfuel, rfl⟩

/-- Over a chain that tiles the segment, a call is a first fit if and only if no free block of
the chain is larger than the request, and neither walk meets one elsewhere. -/
theorem first_fit_iff (hseg : SegmentoEntero c segmento) (he : e ≤ segmento.tamanio + 1)
    (hchain : CadenaSegmento c m segmento 0 bs e) :
    RecorridoCorrecto c m segmento e bs memoriaReservar ↔
      (∀ b ∈ bs, hueco memoriaReservar b = false) ∧
        NadaDetras c m segmento e memoriaReservar ∧
          NadaEnMemoria c m segmento memoriaReservar := by
  constructor
  · rintro ⟨fuel, respuesta, m', hcall, hnone, hsome⟩
    obtain ⟨b, b', hb, -, rfl, hb', rfl⟩ := recorer_eq_some hseg.base hcall
    by_cases hfits : ∃ b ∈ bs, hueco memoriaReservar b = true
    · exact absurd ⟨hnone, hsome⟩ (not_primerAjuste hchain hfits hb')
    have hmiss : ∀ b ∈ bs, hueco memoriaReservar b = false := by simpa using hfits
    obtain ⟨hanswer, hsame⟩ := hnone hmiss
    rw [hsame] at hb'
    refine ⟨hmiss, (buscarSegmento_none_iff hseg he hchain hmiss).1 ⟨fuel, ?_⟩,
      responder_eq_iff.1 ⟨fuel, b', hb', hanswer⟩⟩
    cases b with
    | none => exact hb
    | some b =>
        obtain ⟨cs, x, -, hleer, hhueco⟩ := finds_or_misses hb
        exact absurd hsame (cortar_ne (leerSegmento_heap hleer).2.symm hhueco)
  · rintro ⟨hmiss, hdetras, hmemoria⟩
    obtain ⟨n, hn⟩ := (buscarSegmento_none_iff hseg he hchain hmiss).2 hdetras
    obtain ⟨k, b', hk, hanswer⟩ := responder_eq_iff.2 hmemoria
    have hcall := recorer_of_buscar hseg.base hn trivial hk
    rw [hanswer] at hcall
    refine ⟨max n k, -1, m, hcall, fun _ => ⟨rfl, rfl⟩, fun pre b post hbs _ hb => ?_⟩
    rw [hmiss b (by simp [hbs])] at hb
    cases hb

end FirstFit

/-- The segment of a first request for five bytes, and its two headers. -/
theorem segmento_cinco : ∃ s, atenderMalloc 200 ⟨96, 32, 0, 0⟩ ⟨0, 0⟩
      (museInit ⟨96, 32, 0, 0⟩ fun _ => 0) ⟨5, 1⟩ = some (⟨5⟩, s) ∧
    existeProcesoEnLista s 1 = some ⟨1, [⟨0, 31, [0]⟩]⟩ ∧
    SegmentoEntero ⟨96, 32, 0, 0⟩ ⟨0, 31, [0]⟩ ∧
    CadenaSegmento ⟨96, 32, 0, 0⟩ s.memoria ⟨0, 31, [0]⟩ 0
      [(0, ⟨5, false⟩), (10, ⟨16, true⟩)] 31 ∧
    leerHeap s.memoria 31 = ⟨0, false⟩ ∧
    (recorerSegmentoEspacioLibre 200 ⟨96, 32, 0, 0⟩ s.memoria ⟨0, 31, [0]⟩ 5).map Prod.fst
      = some 25 := by
  have hserved : (atenderMalloc 200 ⟨96, 32, 0, 0⟩ ⟨0, 0⟩ (museInit ⟨96, 32, 0, 0⟩ fun _ => 0)
      ⟨5, 1⟩).map (fun r => (r.1, existeProcesoEnLista r.2 1,
        [leerHeap r.2.memoria 0, leerHeap r.2.memoria 10, leerHeap r.2.memoria 31],
        (recorerSegmentoEspacioLibre 200 ⟨96, 32, 0, 0⟩ r.2.memoria ⟨0, 31, [0]⟩ 5).map Prod.fst))
      = some (⟨5⟩, some ⟨1, [⟨0, 31, [0]⟩]⟩, [⟨5, false⟩, ⟨16, true⟩, ⟨0, false⟩], some 25) := by
    decide +kernel
  obtain ⟨⟨r, s⟩, hmalloc, hvalues⟩ := Option.map_eq_some_iff.mp hserved
  simp only [Prod.mk.injEq, List.cons.injEq, and_true] at hvalues
  obtain ⟨rfl, hid, ⟨h0, h10, hdetras⟩, hcall⟩ := hvalues
  exact ⟨s, hmalloc, hid, ⟨rfl, by decide, by decide, by decide⟩,
    ⟨congrArg (fun heap => some ((0 : ℤ), heap)) h0,
      congrArg (fun heap => some ((10 : ℤ), heap)) h10, rfl⟩, hdetras, hcall⟩

/-- A second request for five bytes is answered what the walks over the segment answer. -/
theorem segundo_cinco {s : Globals} {respuesta : ℤ} {m : Mem}
    (hid : existeProcesoEnLista s 1 = some ⟨1, [⟨0, 31, [0]⟩]⟩)
    (hcall : recorerSegmentoEspacioLibre 200 ⟨96, 32, 0, 0⟩ s.memoria ⟨0, 31, [0]⟩ 5
      = some (respuesta, m)) :
    atenderMalloc 200 ⟨96, 32, 0, 0⟩ ⟨0, 0⟩ s ⟨5, 1⟩
      = some (⟨UInt32.ofInt respuesta⟩, { s with memoria := m }) := by
  have hproceso : procesarId s 1 = (⟨1, [⟨0, 31, [0]⟩]⟩, s) := by
    rw [procesarId, hid]
  have htam : (5 : UInt32).toNat = 5 := rfl
  rw [atenderMalloc, hproceso]
  simp only [List.getLast?_singleton, htam, hcall, Option.bind_eq_bind, Option.bind_some]

/-- Seventeen bytes are more than the free block has. -/
theorem first_fit_iff_cinco : ∃ m, CadenaSegmento ⟨96, 32, 0, 0⟩ m ⟨0, 31, [0]⟩ 0
      [(0, ⟨5, false⟩), (10, ⟨16, true⟩)] 31 ∧
    RecorridoCorrecto ⟨96, 32, 0, 0⟩ m ⟨0, 31, [0]⟩ 31 [(0, ⟨5, false⟩), (10, ⟨16, true⟩)] 17 := by
  obtain ⟨s, -, -, hseg, hchain, hdetras, -⟩ := segmento_cinco
  have hlimite : limiteSegmento ⟨96, 32, 0, 0⟩ ⟨0, 31, [0]⟩ = 31 := by decide
  refine ⟨s.memoria, hchain, (first_fit_iff hseg (by decide) hchain).2 ⟨?_, fun _ => ?_, ?_⟩⟩
  · simp [hueco, cabe]
  · have hleer : leerSegmento ⟨96, 32, 0, 0⟩ s.memoria ⟨0, 31, [0]⟩ 31 = some (31, ⟨0, false⟩) :=
      congrArg (fun heap => some ((31 : ℤ), heap)) hdetras
    exact ⟨[], 31, _, rfl, hleer, rfl, by decide⟩
  · -- the only page is frame 0: both walks read the same headers
    obtain ⟨h0, h10, -⟩ := hchain
    have hdiez : siguiente 0 (0, ⟨5, false⟩) = 10 := by decide
    have hfin : siguiente 10 (10, ⟨16, true⟩) = 31 := by decide
    refine ⟨[(0, ⟨5, false⟩), (10, ⟨16, true⟩)], 31, (31, ⟨0, false⟩), ⟨h0, rfl, by decide, ?_⟩,
      congrArg (fun heap => some ((31 : ℤ), heap)) hdetras, rfl, by decide⟩
    rw [hdiez]
    exact ⟨h10, rfl, by decide, hfin⟩

/-- A request for five bytes cuts the free block of sixteen at 10, and is answered the
address behind the header of what is left of it. -/
theorem first_fit_answers_another : ∃ s m', atenderMalloc 200 ⟨96, 32, 0, 0⟩ ⟨0, 0⟩
      (museInit ⟨96, 32, 0, 0⟩ fun _ => 0) ⟨5, 1⟩ = some (⟨5⟩, s) ∧
    existeProcesoEnLista s 1 = some ⟨1, [⟨0, 31, [0]⟩]⟩ ∧
    CadenaSegmento ⟨96, 32, 0, 0⟩ s.memoria ⟨0, 31, [0]⟩ 0
      [(0, ⟨5, false⟩), (10, ⟨16, true⟩)] 31 ∧
    recorerSegmentoEspacioLibre 200 ⟨96, 32, 0, 0⟩ s.memoria ⟨0, 31, [0]⟩ 5 = some (25, m') ∧
    ¬ RecorridoCorrecto ⟨96, 32, 0, 0⟩ s.memoria ⟨0, 31, [0]⟩ 31
      [(0, ⟨5, false⟩), (10, ⟨16, true⟩)] 5 := by
  obtain ⟨s, hmalloc, hid, hseg, hchain, -, hcall⟩ := segmento_cinco
  obtain ⟨⟨respuesta, m'⟩, hcall, rfl⟩ := Option.map_eq_some_iff.1 hcall
  refine ⟨s, m', hmalloc, hid, hchain, hcall, fun h => ?_⟩
  obtain ⟨fuel, respuesta, m', hcall', h⟩ := h
  obtain ⟨b, b', -, -, -, hb', rfl⟩ := recorer_eq_some hseg.base hcall'
  exact not_primerAjuste hchain ⟨(10, ⟨16, true⟩), by simp, rfl⟩ hb' h

end Threaders.Muse
