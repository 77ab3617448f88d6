import Mathlib.Data.Int.Interval
import Threaders.Muse.Free

/-!
# The search for the block in front of one that is freed

The `do`-`while` loop of `MEMFREE` starts at the first byte of `memoria` and goes on `size + 1`
bytes behind each header, which is four bytes short of the next one: from the second round on it
takes whatever a client has stored for headers.  The sum is an `int`, so it may be negative or
lead back; and a used block that ends where the previous one should neither ends the loop nor
moves it on.

## Main definitions

* `busqueda` — the loop of a `MEMFREE`.
* `BusquedaTermina` — it ends, and reads in `memoria` only.
* `Sigue`, `CadenaSana` — the chain of headers from 0, and the one a search gets through.
* `LiberacionSana` — what a `MEMFREE` needs to be answered.
-/

namespace Threaders.Muse

open Lib Common

/-! ## The loop and what is asked of it -/

/-- The handler accepts a `MEMFREE`: its process is registered, and in front of `dir` there is
the header of a used block, in `memoria`. -/
structure Aceptada (c : Config) (s : Globals) (p : TFree) : Prop where
  registrado : existeProcesoEnLista s p.selfId ≠ none
  dentro : c.EnMemoria (Acceso.cabecera p) 8
  usado : (leerHeap s.memoria (Acceso.cabecera p)).libre = false

/-- The memory that the search finds, and the size it adds to a block in front. -/
def antesDeBuscar (s : Globals) (p : TFree) : Mem × ℕ :=
  liberar s.memoria (toI32 p.dir.toNat) (leerHeap s.memoria (Acceso.cabecera p)).size

/-- The `do`-`while` loop of a `MEMFREE`, from a value of `desp` on. -/
def busqueda (c : Config) (s : Globals) (p : TFree) : ℤ → Option (ℤ ⊕ Option (ℤ × HeapMetadata)) :=
  rondaPrevio c (antesDeBuscar s p).1 (toI32 p.dir.toNat)

/-- A header that lies in `memoria`. -/
def CabeceraDentro (c : Config) (desp : ℤ) : Prop := 0 ≤ desp ∧ desp + 5 ≤ c.memorySize.toInt

/-- The search ends, and every header it reads lies in `memoria`. -/
def BusquedaTermina (c : Config) (s : Globals) (p : TFree) : Prop :=
  Ends (busqueda c s p) 0 ∧ ∀ desp, Visits (busqueda c s p) 0 desp → CabeceraDentro c desp

/-! ## The chain of headers -/

/-- The block at `desp` ends where the one in front of `dir` should. -/
def TerminaAntes (c : Config) (m : Mem) (dir desp : ℤ) : Prop :=
  c.base + desp + (leerHeap m desp).size = toI32 (dir - 6)

instance (c : Config) (m : Mem) (dir desp : ℤ) : Decidable (TerminaAntes c m dir desp) :=
  inferInstanceAs (Decidable (_ = _))

/-- The block at `desp` is not the one looked for, and its size leads to `desp'`, in front of
the header of `dir`. -/
def Sigue (c : Config) (m : Mem) (dir desp desp' : ℤ) : Prop :=
  ¬ TerminaAntes c m dir desp ∧ desp' = toI32 (desp + (leerHeap m desp).size + 1) ∧
    desp' < toI32 (dir - 5)

/-- The chain of headers from 0 stays in `memoria`, comes to no header twice, and to no used
block in front of `dir` that ends where the previous one should. -/
structure CadenaSana (c : Config) (m : Mem) (dir : ℤ) : Prop where
  dentro : ∀ desp, Relation.ReflTransGen (Sigue c m dir) 0 desp → CabeceraDentro c desp
  avanza : ∀ desp, Relation.ReflTransGen (Sigue c m dir) 0 desp →
    ¬ Relation.TransGen (Sigue c m dir) desp desp
  libre : ∀ desp, Relation.ReflTransGen (Sigue c m dir) 0 desp → TerminaAntes c m dir desp →
    desp < toI32 (dir - 5) → (leerHeap m desp).libre = true

section Search
variable {c : Config} {m m' : Mem} {dir desp desp' : ℤ}

/-- A round whose header is in `memoria`. -/
theorem rondaPrevio_eq (hdentro : c.EnMemoria desp 8) : rondaPrevio c m dir desp =
    if TerminaAntes c m dir desp then
      if (leerHeap m desp).libre then some (.inr (some (desp, leerHeap m desp)))
      else some (if desp < toI32 (dir - 5) then .inl desp else .inr none)
    else
      some (if toI32 (desp + (leerHeap m desp).size + 1) < toI32 (dir - 5)
        then .inl (toI32 (desp + (leerHeap m desp).size + 1)) else .inr none) := by
  have hleer : leerCabecera c m desp 8 = some (leerHeap m desp) := if_pos hdentro
  rw [rondaPrevio, hleer]
  by_cases hterm : TerminaAntes c m dir desp
  · have hdec : decide (c.base + desp + (leerHeap m desp).size = toI32 (dir - 6)) = true :=
      decide_eq_true hterm
    simp only [Option.bind_eq_bind, Option.bind_some, hdec, Bool.true_and, if_true, if_pos hterm]
  · have hdec : decide (c.base + desp + (leerHeap m desp).size = toI32 (dir - 6)) = false :=
      decide_eq_false hterm
    simp only [Option.bind_eq_bind, Option.bind_some, hdec, Bool.false_and, Bool.false_eq_true,
      if_false, if_neg hterm]

/-- A round goes on along the chain, or stays at a used block that ends where the previous one
should. -/
theorem rondaPrevio_inl_iff (hdentro : c.EnMemoria desp 8) :
    rondaPrevio c m dir desp = some (.inl desp') ↔
      Sigue c m dir desp desp' ∨
        desp' = desp ∧ TerminaAntes c m dir desp ∧ (leerHeap m desp).libre = false ∧
          desp < toI32 (dir - 5) := by
  rw [rondaPrevio_eq hdentro, Sigue]
  by_cases hterm : TerminaAntes c m dir desp
  · cases hlibre : (leerHeap m desp).libre with
    | true => simp [hterm]
    | false =>
        by_cases hlt : desp < toI32 (dir - 5)
        · simp only [hterm, hlt, Bool.false_eq_true, if_false, if_true, Option.some.injEq,
            Sum.inl.injEq, not_true, false_and, and_true, false_or]
          exact eq_comm
        · simp [hterm, hlt]
  · by_cases hlt : toI32 (desp + (leerHeap m desp).size + 1) < toI32 (dir - 5)
    · simp only [hterm, hlt, if_false, if_true, Option.some.injEq, Sum.inl.injEq, not_false_iff,
        true_and, false_and, and_false, or_false]
      constructor
      · rintro rfl
        exact ⟨rfl, hlt⟩
      · rintro ⟨rfl, -⟩
        rfl
    · simp only [hterm, hlt, if_false, Option.some.injEq, reduceCtorEq, not_false_iff, true_and,
        false_and, and_false, or_false, false_iff]
      rintro ⟨rfl, hlt'⟩
      exact hlt hlt'

theorem rondaPrevio_eq_none_iff : rondaPrevio c m dir desp = none ↔ ¬ c.EnMemoria desp 8 := by
  by_cases hdentro : c.EnMemoria desp 8
  · rw [rondaPrevio_eq hdentro]
    split_ifs <;> simp [hdentro]
  · simp [rondaPrevio, leerCabecera, hdentro]

/-- A round that stops at a block stops at a free one that ends where the previous one should. -/
theorem rondaPrevio_some_iff {previo : ℤ × HeapMetadata} :
    rondaPrevio c m dir desp = some (.inr (some previo)) ↔
      c.EnMemoria desp 8 ∧ TerminaAntes c m dir desp ∧ (leerHeap m desp).libre = true ∧
        previo = (desp, leerHeap m desp) := by
  by_cases hdentro : c.EnMemoria desp 8
  · rw [rondaPrevio_eq hdentro]
    by_cases hterm : TerminaAntes c m dir desp
    · cases hlibre : (leerHeap m desp).libre with
      | true => simp [hdentro, hterm, eq_comm]
      | false =>
          simp only [hterm, Bool.false_eq_true, if_true, if_false, false_and, and_false, iff_false]
          split <;> simp
    · simp only [hterm, if_false, false_and, and_false, iff_false]
      split <;> simp
  · simp [rondaPrevio, leerCabecera, hdentro]

/-- The chain stays in front of the header of `dir`. -/
theorem delante_of_reach (h : Relation.ReflTransGen (Sigue c m dir) 0 desp) :
    desp = 0 ∨ desp < toI32 (dir - 5) := by
  cases h with
  | refl => exact .inl rfl
  | tail _ hsigue => exact .inr hsigue.2.2

/-- Where the eight bytes from the header of `dir` on are in `memoria`, so are those of every
header of the chain. -/
theorem CabeceraDentro.enMemoria (h : CabeceraDentro c desp) (hdir : c.EnMemoria (dir - 5) 8)
    (hdelante : desp = 0 ∨ desp < toI32 (dir - 5)) : c.EnMemoria desp 8 := by
  have hmem := Int32.toInt_lt c.memorySize
  obtain ⟨hlo, hhi⟩ := (Config.enMemoria_iff (by decide)).1 hdir
  have hfits : dir - 5 + 8 ≤ c.memorySize.toInt := hhi
  rw [toI32_of_mem (by omega) (by omega)] at hdelante
  refine .inr ⟨h.1, ?_⟩
  push_cast
  omega

/-- Where the search comes to, if it does not stay at a block, the chain leads. -/
theorem reflTransGen_of_visits (hlibre : ∀ desp, Relation.ReflTransGen (Sigue c m dir) 0 desp →
      TerminaAntes c m dir desp → desp < toI32 (dir - 5) → (leerHeap m desp).libre = true)
    (hvisits : Visits (rondaPrevio c m dir) 0 desp) :
    Relation.ReflTransGen (Sigue c m dir) 0 desp := by
  induction hvisits with
  | refl => exact .refl
  | @tail d _ _ hnext ih =>
      have hdentro : c.EnMemoria d 8 := by
        by_contra hfuera
        rw [rondaPrevio_eq_none_iff.2 hfuera] at hnext
        cases hnext
      rcases (rondaPrevio_inl_iff hdentro).1 hnext with hsigue | ⟨-, hterm, husado, hlt⟩
      · exact ih.tail hsigue
      · rw [hlibre _ ih hterm hlt] at husado
        cases husado

/-- Along the chain the search goes, as long as it reads in `memoria`. -/
theorem visits_of_reflTransGen
    (hdentro : ∀ desp, Visits (rondaPrevio c m dir) 0 desp → c.EnMemoria desp 8)
    (h : Relation.ReflTransGen (Sigue c m dir) 0 desp) : Visits (rondaPrevio c m dir) 0 desp := by
  induction h with
  | refl => exact .refl
  | tail _ hsigue ih => exact ih.tail ((rondaPrevio_inl_iff (hdentro _ ih)).2 (.inl hsigue))

theorem rounds_of_transGen
    (hdentro : ∀ desp, Visits (rondaPrevio c m dir) 0 desp → c.EnMemoria desp 8)
    (hvisits : Visits (rondaPrevio c m dir) 0 desp)
    (h : Relation.TransGen (Sigue c m dir) desp desp') :
    Relation.TransGen (fun d d' => rondaPrevio c m dir d = some (.inl d')) desp desp' := by
  induction h with
  | single hsigue => exact .single ((rondaPrevio_inl_iff (hdentro _ hvisits)).2 (.inl hsigue))
  | tail _ hsigue ih =>
      have hvisits' := hvisits.trans ih.to_reflTransGen
      exact ih.tail ((rondaPrevio_inl_iff (hdentro _ hvisits')).2 (.inl hsigue))

/-- Rounds that lead from a header the chain comes to are steps of the chain. -/
theorem transGen_of_rounds (hlibre : ∀ desp, Relation.ReflTransGen (Sigue c m dir) 0 desp →
      TerminaAntes c m dir desp → desp < toI32 (dir - 5) → (leerHeap m desp).libre = true)
    (hdentro : ∀ desp, Relation.ReflTransGen (Sigue c m dir) 0 desp → c.EnMemoria desp 8)
    (hreach : Relation.ReflTransGen (Sigue c m dir) 0 desp)
    (h : Relation.TransGen (fun d d' => rondaPrevio c m dir d = some (.inl d')) desp desp') :
    Relation.TransGen (Sigue c m dir) desp desp' := by
  induction h with
  | single hnext =>
      rcases (rondaPrevio_inl_iff (hdentro _ hreach)).1 hnext with
        hsigue | ⟨-, hterm, husado, hlt⟩
      · exact .single hsigue
      · rw [hlibre _ hreach hterm hlt] at husado
        cases husado
  | tail _ hnext ih =>
      have hreach' := hreach.trans ih.to_reflTransGen
      rcases (rondaPrevio_inl_iff (hdentro _ hreach')).1 hnext with
        hsigue | ⟨-, hterm, husado, hlt⟩
      · exact ih.tail hsigue
      · rw [hlibre _ hreach' hterm hlt] at husado
        cases husado

/-- A search that ends has a chain that stays in `memoria`. -/
theorem CadenaSana.of_ends (hends : Ends (rondaPrevio c m dir) 0) : CadenaSana c m dir := by
  have hdentro : ∀ desp, Visits (rondaPrevio c m dir) 0 desp → c.EnMemoria desp 8 := by
    intro desp hvisits
    by_contra hfuera
    exact hends.ne_none hvisits (rondaPrevio_eq_none_iff.2 hfuera)
  refine ⟨fun desp hreach => ?_, fun desp hreach hagain => ?_, fun desp hreach hterm hlt => ?_⟩
  · obtain ⟨hlo, hhi⟩ :=
      (Config.enMemoria_iff (by decide)).1 (hdentro desp (visits_of_reflTransGen hdentro hreach))
    exact ⟨hlo, by push_cast at hhi; omega⟩
  · have hvisits := visits_of_reflTransGen hdentro hreach
    exact hends.not_again hvisits (rounds_of_transGen hdentro hvisits hagain)
  · have hvisits := visits_of_reflTransGen hdentro hreach
    cases hlibre : (leerHeap m desp).libre with
    | true => rfl
    | false =>
        have hstay : rondaPrevio c m dir desp = some (.inl desp) :=
          (rondaPrevio_inl_iff (hdentro desp hvisits)).2 (.inr ⟨rfl, hterm, hlibre, hlt⟩)
        exact absurd (.single hstay) (hends.not_again hvisits)

section Accepted
variable (hdir : c.EnMemoria (dir - 5) 8)
include hdir

theorem CadenaSana.enMemoria (h : CadenaSana c m dir)
    (hreach : Relation.ReflTransGen (Sigue c m dir) 0 desp) : c.EnMemoria desp 8 :=
  (h.dentro desp hreach).enMemoria hdir (delante_of_reach hreach)

/-- Along such a chain the search ends: there are only so many places in `memoria`. -/
theorem CadenaSana.ends (h : CadenaSana c m dir) : Ends (rondaPrevio c m dir) 0 := by
  have hfinite : {desp | Visits (rondaPrevio c m dir) 0 desp}.Finite := by
    refine (Set.finite_Icc (0 : ℤ) c.memorySize.toInt).subset fun desp hvisits => ?_
    obtain ⟨hlo, hhi⟩ := h.dentro desp (reflTransGen_of_visits h.libre hvisits)
    exact ⟨hlo, by omega⟩
  rw [ends_iff_not_again hfinite fun desp hvisits hnone => rondaPrevio_eq_none_iff.1 hnone
    (h.enMemoria hdir (reflTransGen_of_visits h.libre hvisits))]
  intro desp hvisits hagain
  have hreach := reflTransGen_of_visits h.libre hvisits
  exact h.avanza desp hreach
    (transGen_of_rounds h.libre (fun desp => h.enMemoria hdir) hreach hagain)

end Accepted

section Same
variable (hdir : 5 ≤ dir) (hpasa : toI32 (dir - 5) = dir - 5)
  (hsame : ∀ desp, desp + 5 ≤ dir → leerHeap m' desp = leerHeap m desp)
include hpasa hsame

theorem sigue_congr (hdesp : desp + 5 ≤ dir) (h : Sigue c m' dir desp desp') :
    Sigue c m dir desp desp' ∧ desp' + 5 ≤ dir := by
  obtain ⟨hterm, hnext, hlt⟩ := h
  rw [TerminaAntes, hsame desp hdesp] at hterm
  rw [hsame desp hdesp] at hnext
  exact ⟨⟨hterm, hnext, hlt⟩, by omega⟩

theorem transGen_congr (hdesp : desp + 5 ≤ dir)
    (h : Relation.TransGen (Sigue c m' dir) desp desp') :
    Relation.TransGen (Sigue c m dir) desp desp' ∧ desp' + 5 ≤ dir := by
  induction h with
  | single hsigue =>
      obtain ⟨hsigue, hlt⟩ := sigue_congr hpasa hsame hdesp hsigue
      exact ⟨.single hsigue, hlt⟩
  | tail _ hsigue ih =>
      obtain ⟨hsigue, hlt⟩ := sigue_congr hpasa hsame ih.2 hsigue
      exact ⟨ih.1.tail hsigue, hlt⟩

include hdir

theorem reach_congr (h : Relation.ReflTransGen (Sigue c m' dir) 0 desp) :
    Relation.ReflTransGen (Sigue c m dir) 0 desp ∧ desp + 5 ≤ dir := by
  rcases Relation.reflTransGen_iff_eq_or_transGen.1 h with rfl | h
  · exact ⟨.refl, by omega⟩
  · obtain ⟨h, hlt⟩ := transGen_congr hpasa hsame (by omega) h
    exact ⟨h.to_reflTransGen, hlt⟩

/-- The chain is made of the headers in front of that of `dir`. -/
theorem CadenaSana.congr (h : CadenaSana c m dir) : CadenaSana c m' dir where
  dentro desp hreach := h.dentro desp (reach_congr hdir hpasa hsame hreach).1
  avanza desp hreach hagain := by
    obtain ⟨hreach, hlt⟩ := reach_congr hdir hpasa hsame hreach
    exact h.avanza desp hreach (transGen_congr hpasa hsame hlt hagain).1
  libre desp hreach hterm hlt := by
    obtain ⟨hreach, hdesp⟩ := reach_congr hdir hpasa hsame hreach
    rw [TerminaAntes, hsame desp hdesp] at hterm
    rw [hsame desp hdesp]
    exact h.libre desp hreach hterm hlt

end Same

/-- Clearing a block and the free one behind it leaves the headers in front alone. -/
theorem leerHeap_liberar (size : ℕ) (h : desp + 5 ≤ dir) :
    leerHeap (liberar m dir size).1 desp = leerHeap m desp := by
  refine leerHeap_congr fun i _ hi => ?_
  unfold liberar
  simp only
  split
  · simp only [Mem.clear]
    rw [if_neg (by omega), if_neg (by omega)]
  · simp only [Mem.clear]
    rw [if_neg (by omega)]

end Search

section Request
variable {c : Config} {s : Globals} {p : TFree} {desp : ℤ}

/-- The search finds the headers in front of `dir` as they were. -/
theorem leerHeap_antesDeBuscar (h : desp + 5 ≤ toI32 p.dir.toNat) :
    leerHeap (antesDeBuscar s p).1 desp = leerHeap s.memoria desp :=
  leerHeap_liberar _ h

theorem Aceptada.dir_mem (h : Aceptada c s p) :
    5 ≤ toI32 p.dir.toNat ∧ toI32 (toI32 p.dir.toNat - 5) = toI32 p.dir.toNat - 5 := by
  obtain ⟨hlo, -⟩ := (Config.enMemoria_iff (by decide)).1 h.dentro
  have hmem := toI32_mem (p.dir.toNat : ℤ)
  unfold Acceso.cabecera at hlo
  exact ⟨by omega, toI32_of_mem (by omega) (by omega)⟩

/-- The chain that the search finds is the one there was when the request arrived. -/
theorem cadenaSana_iff (h : Aceptada c s p) :
    CadenaSana c (antesDeBuscar s p).1 (toI32 p.dir.toNat) ↔
      CadenaSana c s.memoria (toI32 p.dir.toNat) := by
  obtain ⟨hdir, hpasa⟩ := h.dir_mem
  exact ⟨.congr hdir hpasa fun _ hle => (leerHeap_antesDeBuscar hle).symm,
    .congr hdir hpasa fun _ hle => leerHeap_antesDeBuscar hle⟩

theorem ends_iff_cadenaSana (h : Aceptada c s p) :
    Ends (busqueda c s p) 0 ↔ CadenaSana c s.memoria (toI32 p.dir.toNat) :=
  ⟨fun hends => (cadenaSana_iff h).1 (.of_ends hends),
    fun hcadena => ((cadenaSana_iff h).2 hcadena).ends h.dentro⟩

/-- What a `MEMFREE` that the handler accepts needs to be answered: what it clears and reads
behind the block is in `memoria`, the search in front of it gets through, and what it clears
in front is in `memoria`. -/
structure LiberacionSana (c : Config) (s : Globals) (p : TFree) : Prop where
  detras : LiberaEnMemoria c s.memoria (toI32 p.dir.toNat)
    (leerHeap s.memoria (Acceso.cabecera p)).size
  cadena : CadenaSana c s.memoria (toI32 p.dir.toNat)
  delante : ∀ desp, Relation.ReflTransGen (Sigue c s.memoria (toI32 p.dir.toNat)) 0 desp →
    TerminaAntes c s.memoria (toI32 p.dir.toNat) desp → (leerHeap s.memoria desp).libre = true →
      c.EnMemoria (desp + 5)
        (toU32 ((leerHeap s.memoria desp).size + (antesDeBuscar s p).2)).toNat

/-- Where the search ends, and at which block. -/
theorem busqueda_some_iff (h : Aceptada c s p) (hcadena : CadenaSana c s.memoria (toI32 p.dir.toNat))
    {heap : HeapMetadata} :
    (∃ fuel, loop (busqueda c s p) fuel 0 = some (some (desp, heap))) ↔
      Relation.ReflTransGen (Sigue c s.memoria (toI32 p.dir.toNat)) 0 desp ∧
        TerminaAntes c s.memoria (toI32 p.dir.toNat) desp ∧ heap.libre = true ∧
          heap = leerHeap s.memoria desp := by
  obtain ⟨hdir, hpasa⟩ := h.dir_mem
  have hcadena' := (cadenaSana_iff h).2 hcadena
  constructor
  · rintro ⟨fuel, hfuel⟩
    obtain ⟨_, hvisits, hstop⟩ := exists_stop hfuel
    obtain ⟨-, hterm, hlibre, hprevio⟩ := rondaPrevio_some_iff.1 hstop
    obtain ⟨rfl, rfl⟩ := Prod.mk.inj hprevio
    obtain ⟨hreach, hlt⟩ := reach_congr hdir hpasa (fun _ hle => leerHeap_antesDeBuscar hle)
      (reflTransGen_of_visits hcadena'.libre hvisits)
    rw [TerminaAntes, leerHeap_antesDeBuscar hlt] at hterm
    rw [leerHeap_antesDeBuscar hlt] at hlibre ⊢
    exact ⟨hreach, hterm, hlibre, rfl⟩
  · rintro ⟨hreach, hterm, hlibre, rfl⟩
    obtain ⟨hreach, hlt⟩ := reach_congr hdir hpasa
      (fun _ hle => (leerHeap_antesDeBuscar hle).symm) hreach
    have hdentro : ∀ desp, Visits (busqueda c s p) 0 desp → c.EnMemoria desp 8 := fun desp hv =>
      hcadena'.enMemoria h.dentro (reflTransGen_of_visits hcadena'.libre hv)
    have hvisits := visits_of_reflTransGen hdentro hreach
    refine loop_of_visits hvisits (rondaPrevio_some_iff.2 ⟨hdentro desp hvisits, ?_, ?_, ?_⟩)
    · rw [TerminaAntes, leerHeap_antesDeBuscar hlt]
      exact hterm
    · rw [leerHeap_antesDeBuscar hlt]
      exact hlibre
    · rw [leerHeap_antesDeBuscar hlt]

/-- A `MEMFREE` that the handler accepts is answered exactly if it gets through. -/
theorem memfree_answered_iff {u : Uninit} (h : Aceptada c s p) :
    (∃ fuel x, atenderMemfree fuel c u s p = some x) ↔ LiberacionSana c s p := by
  have hserved : ∀ fuel, (∃ x, atenderMemfree fuel c u s p = some x) ↔
      LiberaEnMemoria c s.memoria (toI32 p.dir.toNat)
          (leerHeap s.memoria (Acceso.cabecera p)).size ∧
        ∃ previo, loop (busqueda c s p) fuel 0 = some previo ∧
          borrarPrevio c (antesDeBuscar s p).1 (antesDeBuscar s p).2 previo ≠ none := by
    intro fuel
    rw [atenderMemfree_usado h.registrado h.dentro h.usado]
    constructor
    · rintro ⟨x, hx⟩
      obtain ⟨m, hunir, -⟩ := Option.map_eq_some_iff.1 hx
      obtain ⟨hlibera, previo, hprevio, hborra⟩ := unirPrevio_eq_some.1 hunir
      exact ⟨hlibera, previo, hprevio, Option.ne_none_iff_exists'.2 ⟨m, hborra⟩⟩
    · rintro ⟨hlibera, previo, hprevio, hborra⟩
      obtain ⟨m, hborra⟩ := Option.ne_none_iff_exists'.1 hborra
      have hunir := unirPrevio_eq_some.2 ⟨hlibera, previo, hprevio, hborra⟩
      exact ⟨_, Option.map_eq_some_iff.2 ⟨m, hunir, rfl⟩⟩
  simp only [hserved]
  constructor
  · rintro ⟨fuel, hlibera, previo, hprevio, hborra⟩
    have hcadena := (ends_iff_cadenaSana h).1 ⟨fuel, previo, hprevio⟩
    refine ⟨hlibera, hcadena, fun desp hreach hterm hlibre => ?_⟩
    obtain ⟨fuel', hfuel'⟩ := (busqueda_some_iff h hcadena).2 ⟨hreach, hterm, hlibre, rfl⟩
    obtain rfl := loop_unique hprevio hfuel'
    by_contra hfuera
    rw [borrarPrevio] at hborra
    simp only [if_neg hfuera, ne_eq, not_true] at hborra
  · rintro ⟨hlibera, hcadena, hdelante⟩
    obtain ⟨fuel, previo, hprevio⟩ := (ends_iff_cadenaSana h).2 hcadena
    refine ⟨fuel, hlibera, previo, hprevio, ?_⟩
    cases previo with
    | none => exact Option.some_ne_none _
    | some previo =>
        obtain ⟨desp, heap⟩ := previo
        obtain ⟨hreach, hterm, hlibre, rfl⟩ := (busqueda_some_iff h hcadena).1 ⟨fuel, hprevio⟩
        rw [borrarPrevio, if_pos (hdelante desp hreach hterm hlibre)]
        exact Option.some_ne_none _

end Request

/-- The search of a `MEMFREE` that the handler accepts ends, reading headers in `memoria` only,
exactly if the chain of headers from 0 stays there, comes to none twice and to no used block in
the place of the previous one. -/
theorem previous_search_iff {c : Config} {s : Globals} {p : TFree} (h : Aceptada c s p) :
    BusquedaTermina c s p ↔ CadenaSana c s.memoria (toI32 p.dir.toNat) := by
  constructor
  · rintro ⟨hends, -⟩
    exact (ends_iff_cadenaSana h).1 hends
  · intro hcadena
    have hcadena' := (cadenaSana_iff h).2 hcadena
    exact ⟨(ends_iff_cadenaSana h).2 hcadena, fun desp hvisits =>
      hcadena'.dentro desp (reflTransGen_of_visits hcadena'.libre hvisits)⟩

/-- In front of the first block of `memoria` the search ends at once. -/
theorem previous_search_iff_cinco : ∃ s,
    Aceptada ⟨96, 32, 0, 4294967296⟩ s ⟨5, 1⟩ ∧
    BusquedaTermina ⟨96, 32, 0, 4294967296⟩ s ⟨5, 1⟩ := by
  let c : Config := ⟨96, 32, 0, 4294967296⟩
  have hserved : (atenderMalloc 200 c ⟨0, 0⟩ (museInit c fun _ => 0) ⟨5, 1⟩).map
      (fun r => ((existeProcesoEnLista r.2 1).isSome, leerHeap r.2.memoria 0))
        = some (true, ⟨5, false⟩) := by
    decide +kernel
  obtain ⟨⟨r, s⟩, -, hvalues⟩ := Option.map_eq_some_iff.1 hserved
  obtain ⟨hid, h0⟩ := Prod.mk.inj hvalues
  have hcabecera : Acceso.cabecera ⟨5, 1⟩ = 0 := by decide
  have hacepta : Aceptada c s ⟨5, 1⟩ :=
    ⟨Option.isSome_iff_ne_none.1 hid, by decide, by rw [hcabecera, h0]⟩
  -- the size of the first block leads behind the header of dir
  have hprimero : ∀ desp, ¬ Sigue c s.memoria (toI32 (UInt32.toNat 5)) 0 desp := by
    rintro desp ⟨-, hdesp, hlt⟩
    rw [h0] at hdesp
    subst hdesp
    exact absurd hlt (by decide)
  have hsolo : ∀ desp, Relation.ReflTransGen (Sigue c s.memoria (toI32 (UInt32.toNat 5))) 0 desp →
      desp = 0 := by
    intro desp hreach
    rcases Relation.ReflTransGen.cases_head hreach with h | ⟨desp', hsigue, -⟩
    · exact h.symm
    · exact absurd hsigue (hprimero desp')
  refine ⟨s, hacepta, (previous_search_iff hacepta).2 ⟨fun desp hreach => ?_, fun desp hreach => ?_,
    fun desp hreach hterm hlt => ?_⟩⟩
  · rw [hsolo desp hreach]
    exact ⟨by decide, by decide⟩
  · rw [hsolo desp hreach]
    intro hagain
    obtain ⟨desp', hsigue, -⟩ := Relation.TransGen.head'_iff.1 hagain
    exact hprimero desp' hsigue
  · rw [hsolo desp hreach] at hlt
    exact absurd hlt (by decide)

/-- A process stores four bytes in its block, and the search takes them for a header whose size
leads back to it: the `MEMFREE` of the block behind is never answered. -/
theorem search_stalls : ∃ s : Globals,
    Run (Atiende ⟨96, 32, 0, 4294967296⟩) (museInit ⟨96, 32, 0, 4294967296⟩ fun _ => 0)
      [.malloc ⟨20, 1⟩, .malloc ⟨5, 2⟩,
        .copy ⟨5, 1, 20, List.replicate 16 0 ++ List.replicate 4 255⟩] s ∧
    Aceptada ⟨96, 32, 0, 4294967296⟩ s ⟨37, 2⟩ ∧
    ¬ Ends (busqueda ⟨96, 32, 0, 4294967296⟩ s ⟨37, 2⟩) 0 ∧
    ¬ BusquedaTermina ⟨96, 32, 0, 4294967296⟩ s ⟨37, 2⟩ := by
  let c : Config := ⟨96, 32, 0, 4294967296⟩
  let atenderUna (s : Globals) (p : Package) : Option Globals :=
    (atender 200 c ⟨0, fun _ => 0⟩ ⟨0, 0⟩ s p).map Prod.snd
  have hserved : ([.malloc ⟨20, 1⟩, .malloc ⟨5, 2⟩,
      .copy ⟨5, 1, 20, List.replicate 16 0 ++ List.replicate 4 255⟩].foldlM atenderUna
      (museInit c fun _ => 0)).map (fun s =>
        ((existeProcesoEnLista s 2).isSome, (leerHeap s.memoria 32).libre,
          (leerHeap s.memoria 0).size, (leerHeap s.memoria 21).size))
      = some (true, false, 20, 4294967295) := by
    decide +kernel
  obtain ⟨s, hs, hvalues⟩ := Option.map_eq_some_iff.1 hserved
  simp only [Prod.mk.injEq] at hvalues
  obtain ⟨hid, husado, h0, h21⟩ := hvalues
  have hrun : Run (Atiende c) (museInit c fun _ => 0) _ s :=
    .of_foldlM (fun s p t h => by
      obtain ⟨⟨respuesta, s'⟩, hatender, rfl⟩ := Option.map_eq_some_iff.1 h
      exact ⟨200, _, _, respuesta, hatender⟩) hs
  have hcabecera : Acceso.cabecera ⟨37, 2⟩ = 32 := by decide
  have hacepta : Aceptada c s ⟨37, 2⟩ :=
    ⟨Option.isSome_iff_ne_none.1 hid, by decide, by rw [hcabecera]; exact husado⟩
  have hprimero : Sigue c s.memoria (toI32 (UInt32.toNat 37)) 0 21 := by
    refine ⟨?_, ?_, by decide⟩
    · rw [TerminaAntes, h0]
      decide
    · rw [h0]
      decide
  have hvuelve : Sigue c s.memoria (toI32 (UInt32.toNat 37)) 21 21 := by
    refine ⟨?_, ?_, by decide⟩
    · rw [TerminaAntes, h21]
      decide
    · rw [h21]
      decide
  have hstalls : ¬ Ends (busqueda c s ⟨37, 2⟩) 0 := by
    rw [ends_iff_cadenaSana hacepta]
    exact fun h => h.avanza 21 (.single hprimero) (.single hvuelve)
  exact ⟨s, hrun, hacepta, hstalls, fun h => hstalls h.1⟩

end Threaders.Muse
