import Mathlib.Data.Int.Interval
import Threaders.Muse.Writes

/-!
# When a `MALLOC` is answered

Nothing bounds the walks of a `MALLOC`: a header that a client has stored over may lead behind
`memoria`, to a page that the segment does not have, or back.  The walk over the segment is of
`memoria` as the request finds it, and the walk over `memoria` of what the cut leaves of it.

## Main definitions

* `RecorridoSano` — what the two walks need to get through.
* `PrimeraSana`, `MallocSano` — what a request needs.
* `malloc_answered_iff` — a request is answered exactly if it has it.
-/

namespace Threaders.Muse

open Lib Common

/-- Both walks get through: that over the segment, of headers on its pages and in `memoria`; and
that over `memoria`, as it is where there is nothing to cut, else with the first block that is
large enough cut in `memoria`. -/
structure RecorridoSano (c : Config) (m : Mem) (segmento : NodoSegmento) (memoriaReservar : ℕ) :
    Prop where
  pasa : GetsThrough (leerSegmento c m segmento) siguiente (hueco memoriaReservar)
    (limiteSegmento c segmento) 0
  nada : Misses (leerSegmento c m segmento) siguiente (hueco memoriaReservar)
      (limiteSegmento c segmento) 0 →
    GetsThrough (leerMemoria c m) siguiente (hueco memoriaReservar) (limiteSegmento c segmento) 0
  corte : ∀ b, Finds (leerSegmento c m segmento) siguiente (hueco memoriaReservar)
      (limiteSegmento c segmento) 0 b →
    c.EnMemoria (b.1 + 5 + memoriaReservar) 5 ∧
      GetsThrough (leerMemoria c (partir m b.1 b.2.size memoriaReservar)) siguiente
        (hueco memoriaReservar) (limiteSegmento c segmento) 0

/-- A first request gets through, where `k` frames are taken and it needs `n` pages: it needs one
or more, the three headers it writes of its own lie in `memoria`, and so do those of the walks
over its segment. -/
structure PrimeraSana (c : Config) (m : Mem) (k n : ℤ) (tam : UInt32) : Prop where
  paginas : 0 < n
  primera : c.EnMemoria (dirPrimera c ⟨k, k + n - 1⟩) 5
  proxima : c.EnMemoria (dirProximaEstructura c n tam ⟨k, k + n - 1⟩) 5
  final : c.EnMemoria (5 + dirPrimera c ⟨k, k + n - 1⟩ + 5) 5
  recorrido : RecorridoSano c (cabeceras c m n tam ⟨k, k + n - 1⟩)
    (segmentoNuevo c n (desde k.toNat n.toNat)) 5

/-- What a request needs to be answered: a first one is refused by the pre-check or gets
through, and a later one gets through its segment. -/
def MallocSano (c : Config) (s : Globals) (p : TMalloc) : Prop :=
  match (procesarId s p.idLibmuse).1.listSegmento.getLast? with
  | none => existeMemoriaPararPaginas c s (cantidadPaginasNecesarias c p.tam) = false ∨
      PrimeraSana c s.memoria (asignarFrameLibre c s) (cantidadPaginasNecesarias c p.tam) p.tam
  | some segmento => RecorridoSano c s.memoria segmento p.tam.toNat

section Answers
variable {c : Config} {m : Mem} {s : Globals} {k : ℕ} {l : Locales} {p : TMalloc} {tam : UInt32}
  {segmento : NodoSegmento} {memoriaReservar : ℕ} {leer : ℤ → Option Cabecera} {limite : ℤ}

/-- The offsets are `int`s. -/
theorem comesTo_finite {hit : Cabecera → Bool} :
    {x | ComesTo leer siguiente hit limite 0 x}.Finite := by
  refine (Set.finite_Icc (-2147483648 : ℤ) 2147483647).subset fun x hx => ?_
  rcases Relation.ReflTransGen.cases_tail hx with rfl | ⟨y, -, b, -, -, rfl, -⟩
  · exact ⟨by decide, by decide⟩
  · have hmem := toI32_mem (toI32 (y + 5) + b.2.size)
    exact ⟨hmem.1, Int.le_of_lt_add_one hmem.2⟩

theorem ends_iff_getsThrough {hit : Cabecera → Bool} :
    Ends (scanRound leer siguiente hit limite) 0 ↔ GetsThrough leer siguiente hit limite 0 :=
  ends_scan_iff comesTo_finite

/-- The two walks return exactly if they get through. -/
theorem recorer_returns_iff (hbase : segmento.base = 0) :
    (∃ fuel x, recorerSegmentoEspacioLibre fuel c m segmento memoriaReservar = some x) ↔
      RecorridoSano c m segmento memoriaReservar := by
  constructor
  · rintro ⟨fuel, ⟨respuesta, m'⟩, h⟩
    obtain ⟨b, b', hb, hcorte, rfl, hb', -⟩ := recorer_eq_some hbase h
    have hmemoria := ends_iff_getsThrough.1 ⟨fuel, b', hb'⟩
    refine ⟨ends_iff_getsThrough.1 ⟨fuel, b, hb⟩, fun hnada => ?_, fun b₁ hb₁ => ?_⟩
    · obtain rfl := hnada.eq_none hb
      exact hmemoria
    · obtain rfl := hb₁.eq_some hb
      exact ⟨hcorte, hmemoria⟩
  · rintro ⟨hsegmento, hnada, hcorte⟩
    obtain ⟨n, b, hb⟩ := ends_iff_getsThrough.2 hsegmento
    have hfinds := finds_or_misses hb
    cases b with
    | none =>
        obtain ⟨k, b', hb'⟩ := ends_iff_getsThrough.2 (hnada hfinds)
        exact ⟨_, _, recorer_of_buscar hbase hb trivial hb'⟩
    | some b =>
        obtain ⟨hdentro, hmemoria⟩ := hcorte b hfinds
        obtain ⟨k, b', hb'⟩ := ends_iff_getsThrough.2 hmemoria
        exact ⟨_, _, recorer_of_buscar hbase hb hdentro hb'⟩

/-- Where the pre-check holds, the frames a first request takes are the next ones. -/
theorem Lockstep.primera_eq {n : ℤ} {a : Asignacion} (h : Lockstep c s k)
    (hexiste : existeMemoriaPararPaginas c s n = true) (hpos : 0 < n)
    (ha : Muse.asignarPaginas c ⟨s, [], l⟩ n.toNat = a) :
    a.paginas = desde k n.toNat ∧ a.locales = ⟨k, (k : ℤ) + n - 1⟩ ∧ asignarFrameLibre c s = k := by
  subst ha
  have hroom := (h.existe_iff hpos).1 hexiste
  have hultimo : ((k + n.toNat - 1 : ℕ) : ℤ) = (k : ℤ) + n - 1 := by omega
  obtain ⟨-, hpaginas, hlocales⟩ := h.asignarPaginas (l := l) (n := n.toNat) (by omega)
  exact ⟨hpaginas, hultimo ▸ hlocales (by omega), h.asignarFrameLibre_eq (by omega)⟩

/-- `asignar_dir_memoria` returns exactly if the pre-check refuses or the request gets
through. -/
theorem asignar_returns_iff (hlock : Lockstep c s k) :
    (∃ fuel x, asignarDirMemoria fuel c l s tam = some x) ↔
      existeMemoriaPararPaginas c s (cantidadPaginasNecesarias c tam) = false ∨
        PrimeraSana c s.memoria (asignarFrameLibre c s) (cantidadPaginasNecesarias c tam) tam := by
  cases hexiste : existeMemoriaPararPaginas c s (cantidadPaginasNecesarias c tam) with
  | false => simp [asignarDirMemoria, hexiste]
  | true =>
      simp only [Bool.true_eq_false, false_or]
      obtain ⟨n, hn⟩ : ∃ n, cantidadPaginasNecesarias c tam = n := ⟨_, rfl⟩
      obtain ⟨a, ha⟩ : ∃ a, asignarPaginas c ⟨s, [], l⟩ n.toNat = a := ⟨_, rfl⟩
      rw [hn] at hexiste ⊢
      constructor
      · rintro ⟨fuel, ⟨ptr, segmento, s'⟩, h⟩
        -- a page or more is asked for, or the walk has no page to read
        have hpos : 0 < n := by
          obtain ⟨j, -, hj, hjn, -⟩ := asignarDirMemoria_of_existe (hn ▸ hexiste) h
          omega
        obtain ⟨hpaginas, hlocales, hk⟩ := hlock.primera_eq hexiste hpos ha
        obtain ⟨hprimera, hproxima, hfinal, rfl, -, respuesta, m, hwalk, -⟩ :=
          asignarDirMemoria_eq_some hn ha hexiste h
        have hwalks := (recorer_returns_iff (by rfl)).1 ⟨fuel, _, hwalk⟩
        rw [hlocales] at hprimera hproxima hfinal hwalks
        rw [hpaginas] at hwalks
        rw [hk]
        exact ⟨hpos, hprimera, hproxima, hfinal, hwalks⟩
      · intro h
        obtain ⟨hpaginas, hlocales, hk⟩ := hlock.primera_eq hexiste h.paginas ha
        rw [hk] at h
        obtain ⟨fuel, ⟨respuesta, m⟩, hwalk⟩ := (recorer_returns_iff (by rfl)).2 h.recorrido
        have hdentro := And.intro h.primera h.proxima
        have hfinal := h.final
        rw [← hlocales] at hdentro hfinal hwalk
        rw [Int.toNat_natCast, ← hpaginas] at hwalk
        refine ⟨fuel, (toI32 (dirPrimera c a.locales + 5), segmentoNuevo c n a.paginas,
          { a.globals with memoria := cabeceraFinal c m n a.locales }), ?_⟩
        unfold asignarDirMemoria
        rw [segmentoNuevo] at hwalk
        simp only [hn, ha, if_pos hexiste, if_pos hdentro, hwalk, Option.bind_eq_bind,
          Option.bind_some, if_pos hfinal, segmentoNuevo]

/-- A `MALLOC` is answered exactly if it gets through, whatever the uninitialised variables
hold. -/
theorem malloc_answered_iff (hlock : Lockstep c s k) (hbase : BaseCero s) :
    (∃ fuel x, atenderMalloc fuel c l s p = some x) ↔ MallocSano c s p := by
  obtain ⟨hmemoria, hframes, hentries, hexiste, -⟩ := procesarId_spec s p.idLibmuse
  have hlock₁ := hlock.congr hframes hentries
  have hbase₁ := hbase.procesarId p.idLibmuse
  have hhay : existeMemoriaPararPaginas c s (cantidadPaginasNecesarias c p.tam)
      = existeMemoriaPararPaginas c (procesarId s p.idLibmuse).2
          (cantidadPaginasNecesarias c p.tam) := by
    rw [existeMemoriaPararPaginas, existeMemoriaPararPaginas, hframes]
  have hlibre : asignarFrameLibre c s = asignarFrameLibre c (procesarId s p.idLibmuse).2 := by
    rw [asignarFrameLibre, asignarFrameLibre, hframes]
  unfold MallocSano atenderMalloc
  rw [hhay, hlibre, ← hmemoria]
  generalize procesarId s p.idLibmuse = nodo at hexiste hlock₁ hbase₁ ⊢
  obtain ⟨nodo, s₁⟩ := nodo
  simp only at hexiste hlock₁ hbase₁ ⊢
  cases hlast : nodo.listSegmento.getLast? with
  | none =>
      simp only
      rw [← asignar_returns_iff (l := l) hlock₁]
      refine exists_congr fun fuel => ?_
      cases asignarDirMemoria fuel c l s₁ p.tam <;> simp
  | some segmento =>
      have hcero := hbase₁ nodo (existeProcesoEnLista_spec hexiste).1 segmento
        (List.mem_of_getLast? hlast)
      simp only
      rw [← recorer_returns_iff hcero]
      refine exists_congr fun fuel => ?_
      cases recorerSegmentoEspacioLibre fuel c s₁.memoria segmento p.tam.toNat <;> simp

end Answers

end Threaders.Muse
