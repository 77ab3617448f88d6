import Threaders.Muse.Walk

/-!
# The second walk, once the first has cut a block

Where the walk over a segment cuts a block, the walk over `memoria` reads two headers that were
not there: one of the block reserved, in use, and one of what is left, free.  All others are as
they were, if it reads none across these two.  So what it answers is said of `memoria` as it was:
nothing, if no other block is large enough, and neither is what is left; the first other one that
is; and what is left, if the block that is cut was the first one there too.

## Main definitions

* `resto` — the size of what is left.
* `NadaAparte`, `OtroAparte` — no other block is large enough; which one is the first.
* `RestoPrimero` — the block cut is the first one of `memoria` too.
* `buscarMemoria_nadaAparte`, `buscarMemoria_otroAparte`, `buscarMemoria_restoPrimero` — what the
  second walk finds then.
-/

namespace Threaders.Muse

open Lib Common

/-- The size of what is left of a block that is cut. -/
def resto (size memoriaReservar : ℕ) : ℕ := (toU32 (toI32 size - memoriaReservar - 5)).toNat

/-- A header at `x` meets neither of those that are written when the block at `dir` is cut. -/
def LejosDelCorte (dir : ℤ) (memoriaReservar : ℕ) (x : ℤ) : Prop :=
  (x + 5 ≤ dir ∨ dir + 5 ≤ x) ∧
    (x + 5 ≤ dir + 5 + memoriaReservar ∨ dir + 5 + memoriaReservar + 5 ≤ x)

/-- A block that is large enough, other than the one at `dir`. -/
def otroHueco (memoriaReservar : ℕ) (dir : ℤ) (b : Cabecera) : Bool :=
  hueco memoriaReservar b && b.1 ≠ dir

/-- The walk for a block other than `b` gets past the cut of `b`: what would be left is not large
enough, if it comes there, and it reads no header across those of the cut. -/
structure PasaCorte (c : Config) (m : Mem) (segmento : NodoSegmento) (memoriaReservar : ℕ)
    (b : Cabecera) : Prop where
  resto : ComesTo (leerMemoria c m) siguiente (otroHueco memoriaReservar b.1)
    (limiteSegmento c segmento) 0 b.1 → resto b.2.size memoriaReservar ≤ memoriaReservar
  lejos : ∀ x, ComesTo (leerMemoria c m) siguiente (otroHueco memoriaReservar b.1)
    (limiteSegmento c segmento) 0 x → x = b.1 ∨ LejosDelCorte b.1 memoriaReservar x

/-- From the start of `memoria` on no block other than `b` is large enough. -/
structure NadaAparte (c : Config) (m : Mem) (segmento : NodoSegmento) (memoriaReservar : ℕ)
    (b : Cabecera) : Prop extends PasaCorte c m segmento memoriaReservar b where
  ninguno : Misses (leerMemoria c m) siguiente (otroHueco memoriaReservar b.1)
    (limiteSegmento c segmento) 0

/-- From the start of `memoria` on `w` is the first block other than `b` that is large enough. -/
structure OtroAparte (c : Config) (m : Mem) (segmento : NodoSegmento) (memoriaReservar : ℕ)
    (b w : Cabecera) : Prop extends PasaCorte c m segmento memoriaReservar b where
  otro : Finds (leerMemoria c m) siguiente (otroHueco memoriaReservar b.1)
    (limiteSegmento c segmento) 0 w

/-- From the start of `memoria` on `b` is the first block that is large enough; what would be left
of it is large enough too; and the walk reads no header across those of the cut. -/
structure RestoPrimero (c : Config) (m : Mem) (segmento : NodoSegmento) (memoriaReservar : ℕ)
    (b : Cabecera) : Prop where
  primero : Finds (leerMemoria c m) siguiente (hueco memoriaReservar)
    (limiteSegmento c segmento) 0 b
  resto : memoriaReservar < resto b.2.size memoriaReservar
  lejos : ∀ x, ComesTo (leerMemoria c m) siguiente (hueco memoriaReservar)
    (limiteSegmento c segmento) 0 x → x = b.1 ∨ LejosDelCorte b.1 memoriaReservar x

section Cut
variable {c : Config} {m : Mem} {segmento : NodoSegmento} {fuel size memoriaReservar : ℕ}
  {dir x : ℤ} {b : Cabecera} {hallado : Option Cabecera}

/-- The headers of the cut are read as they were written. -/
theorem leerMemoria_cortada (hdir : c.EnMemoria dir 5) (hlt : memoriaReservar < 4294967296) :
    leerMemoria c (partir m dir size memoriaReservar) dir
      = some (dir, ⟨memoriaReservar, false⟩) := by
  have husado : leerHeap (partir m dir size memoriaReservar) dir = ⟨memoriaReservar, false⟩ := by
    rw [partir, leerHeap_escribirHeap_of_ne (by omega), leerHeap_escribirHeap (by dsimp only; omega)]
  exact leerMemoria_eq_some.2 ⟨hdir, by rw [husado]⟩

theorem resto_lt (size memoriaReservar : ℕ) : resto size memoriaReservar < 4294967296 := by
  unfold resto toU32
  omega

theorem leerMemoria_resto (hcorte : c.EnMemoria (dir + 5 + memoriaReservar) 5) :
    leerMemoria c (partir m dir size memoriaReservar) (dir + 5 + memoriaReservar)
      = some (dir + 5 + memoriaReservar, ⟨resto size memoriaReservar, true⟩) := by
  have hlt := resto_lt size memoriaReservar
  have hresto : leerHeap (partir m dir size memoriaReservar) (dir + 5 + memoriaReservar)
      = ⟨resto size memoriaReservar, true⟩ := by
    rw [partir, ← resto, leerHeap_escribirHeap (by dsimp only; omega)]
  exact leerMemoria_eq_some.2 ⟨hcorte, by rw [hresto]⟩

/-- The others are read as they were. -/
theorem leerMemoria_lejos (h : LejosDelCorte dir memoriaReservar x) :
    leerMemoria c (partir m dir size memoriaReservar) x = leerMemoria c m x := by
  unfold LejosDelCorte at h
  have hsame : leerHeap (partir m dir size memoriaReservar) x = leerHeap m x := by
    rw [partir, leerHeap_escribirHeap_of_ne (by omega), leerHeap_escribirHeap_of_ne (by omega)]
  rw [leerMemoria, leerMemoria, leerCabecera, leerCabecera, hsame]

/-- From the block reserved the walk goes on to what is left, and from there to where it went on
to from the block that was cut. -/
theorem siguiente_cortado (hdir : c.EnMemoria dir 5)
    (hcorte : c.EnMemoria (dir + 5 + memoriaReservar) 5) :
    siguiente dir (dir, ⟨memoriaReservar, false⟩) = dir + 5 + memoriaReservar := by
  have hmem := Int32.toInt_lt c.memorySize
  obtain ⟨hlo, -⟩ := (Config.enMemoria_iff (by decide)).1 hdir
  obtain ⟨-, hhi⟩ := (Config.enMemoria_iff (by decide)).1 hcorte
  push_cast at hhi
  rw [siguiente, toI32_of_mem (x := dir + 5) (by omega) (by omega),
    toI32_of_mem (by dsimp only; omega) (by dsimp only; omega)]

theorem siguiente_resto (libre : Bool) :
    siguiente (dir + 5 + memoriaReservar)
        (dir + 5 + memoriaReservar, ⟨resto size memoriaReservar, true⟩)
      = siguiente dir (dir, ⟨size, libre⟩) := by
  unfold siguiente resto toU32 toI32
  dsimp only
  omega

theorem hueco_usado : hueco memoriaReservar (x, ⟨size, false⟩) = false := rfl

theorem hueco_resto : hueco memoriaReservar (x, ⟨size, true⟩) = decide (memoriaReservar < size) :=
  rfl

theorem hueco_of_otroHueco (hne : x ≠ b.1) (w : HeapMetadata) :
    otroHueco memoriaReservar b.1 (x, w) = hueco memoriaReservar (x, w) := by
  simp [otroHueco, hne]

/-- The header of a block that is found in `memoria` lies in it. -/
theorem enMemoria_of_finds {m : Mem} {hit : Cabecera → Bool} {limite : ℤ}
    (h : Finds (leerMemoria c m) siguiente hit limite x b) : c.EnMemoria b.1 5 := by
  obtain ⟨cs, y, -, hleer, -⟩ := h
  obtain ⟨hdir, rfl⟩ := leerMemoria_eq_some.1 hleer
  exact hdir

theorem LejosDelCorte.ne (h : LejosDelCorte dir memoriaReservar x) : x ≠ dir := by
  rintro rfl
  unfold LejosDelCorte at h
  omega

/-- A block cut, of which nothing is answered. -/
theorem NadaAparte.misses (h : NadaAparte c m segmento memoriaReservar b)
    (hb : b.2 = leerHeap m b.1) (hdir : c.EnMemoria b.1 5)
    (hcorte : c.EnMemoria (b.1 + 5 + memoriaReservar) 5) (hlt : memoriaReservar < 4294967296) :
    Misses (leerMemoria c (partir m b.1 b.2.size memoriaReservar)) siguiente (hueco memoriaReservar)
      (limiteSegmento c segmento) 0 := by
  refine h.ninguno.induction fun x w hx hleer hmiss hnext => ?_
  obtain ⟨-, rfl⟩ := leerMemoria_eq_some.1 hleer
  rcases h.lejos x hx with rfl | hlejos
  · -- the block cut: first the header in front, then what is left
    refine .head (leerMemoria_cortada hdir hlt) hueco_usado fun _ => ?_
    rw [siguiente_cortado hdir hcorte]
    refine .head (leerMemoria_resto hcorte) ?_ fun hle => ?_
    · rw [hueco_resto, decide_eq_false_iff_not, not_lt]
      exact h.resto hx
    · rw [siguiente_resto b.2.libre] at hle ⊢
      rw [← hb] at hnext
      exact hnext hle
  · rw [hueco_of_otroHueco hlejos.ne] at hmiss
    exact .head ((leerMemoria_lejos hlejos).trans hleer) hmiss hnext

/-- A block cut, behind or in front of which another one comes. -/
theorem OtroAparte.finds {w : Cabecera} (h : OtroAparte c m segmento memoriaReservar b w)
    (hb : b.2 = leerHeap m b.1) (hdir : c.EnMemoria b.1 5)
    (hcorte : c.EnMemoria (b.1 + 5 + memoriaReservar) 5) (hlt : memoriaReservar < 4294967296) :
    Misses (leerMemoria c (partir m b.1 b.2.size memoriaReservar)) siguiente
        (hueco memoriaReservar) (limiteSegmento c segmento) 0 ∨
      Finds (leerMemoria c (partir m b.1 b.2.size memoriaReservar)) siguiente
        (hueco memoriaReservar) (limiteSegmento c segmento) 0 w := by
  let cortada : Mem := partir m b.1 b.2.size memoriaReservar
  refine h.otro.induction (P := fun x =>
    Misses (leerMemoria c cortada) siguiente (hueco memoriaReservar) (limiteSegmento c segmento) x ∨
      Finds (leerMemoria c cortada) siguiente (hueco memoriaReservar) (limiteSegmento c segmento) x
        w) (fun x hx hleer hhit => ?_) fun x v hx hleer hmiss hle ih => ?_
  · obtain ⟨-, rfl⟩ := leerMemoria_eq_some.1 hleer
    have hne : x ≠ b.1 := by
      rintro rfl
      simp [otroHueco] at hhit
    have hlejos := (h.lejos x hx).resolve_left hne
    rw [hueco_of_otroHueco hne] at hhit
    exact .inr ⟨[], x, rfl, (leerMemoria_lejos hlejos).trans hleer, hhit⟩
  · obtain ⟨-, rfl⟩ := leerMemoria_eq_some.1 hleer
    rcases h.lejos x hx with rfl | hlejos
    · have husado : leerMemoria c cortada b.1 = some (b.1, ⟨memoriaReservar, false⟩) :=
        leerMemoria_cortada hdir hlt
      have hresto : hueco memoriaReservar (b.1 + 5 + memoriaReservar,
          ⟨Muse.resto b.2.size memoriaReservar, true⟩) = false := by
        rw [hueco_resto, decide_eq_false_iff_not, not_lt]
        exact h.resto hx
      have hsiguiente := siguiente_cortado hdir hcorte
      have hdetras : siguiente b.1 (b.1, leerHeap m b.1) = siguiente (b.1 + 5 + memoriaReservar)
          (b.1 + 5 + memoriaReservar, ⟨Muse.resto b.2.size memoriaReservar, true⟩) := by
        rw [← hb, siguiente_resto b.2.libre]
      rw [hdetras] at hle ih
      by_cases hfin : b.1 + 5 + memoriaReservar ≤ limiteSegmento c segmento
      · rcases ih with hmisses | hfinds
        · refine .inl (.head husado hueco_usado fun _ => ?_)
          rw [hsiguiente]
          exact .head (leerMemoria_resto hcorte) hresto fun _ => hmisses
        · refine .inr (.head husado hueco_usado (by rw [hsiguiente]; exact hfin) ?_)
          rw [hsiguiente]
          exact .head (leerMemoria_resto hcorte) hresto hle hfinds
      · exact .inl (.head husado hueco_usado fun hle' => absurd (hsiguiente ▸ hle') hfin)
    · rw [hueco_of_otroHueco hlejos.ne] at hmiss
      rw [← leerMemoria_lejos hlejos] at hleer
      rcases ih with hmisses | hfinds
      · exact .inl (.head hleer hmiss fun _ => hmisses)
      · exact .inr (.head hleer hmiss hle hfinds)

/-- A block cut, and what is left of it comes first then. -/
theorem RestoPrimero.finds (h : RestoPrimero c m segmento memoriaReservar b)
    (hcorte : c.EnMemoria (b.1 + 5 + memoriaReservar) 5) (hlt : memoriaReservar < 4294967296) :
    Misses (leerMemoria c (partir m b.1 b.2.size memoriaReservar)) siguiente
        (hueco memoriaReservar) (limiteSegmento c segmento) 0 ∨
      Finds (leerMemoria c (partir m b.1 b.2.size memoriaReservar)) siguiente
        (hueco memoriaReservar) (limiteSegmento c segmento) 0
        (b.1 + 5 + memoriaReservar, ⟨Muse.resto b.2.size memoriaReservar, true⟩) := by
  let cortada : Mem := partir m b.1 b.2.size memoriaReservar
  refine h.primero.induction (P := fun x =>
    Misses (leerMemoria c cortada) siguiente (hueco memoriaReservar) (limiteSegmento c segmento) x ∨
      Finds (leerMemoria c cortada) siguiente (hueco memoriaReservar) (limiteSegmento c segmento) x
        (b.1 + 5 + memoriaReservar, ⟨Muse.resto b.2.size memoriaReservar, true⟩))
    (fun x hx hleer hhit => ?_) fun x w hx hleer hmiss hle ih => ?_
  · obtain ⟨hdir, hb⟩ := leerMemoria_eq_some.1 hleer
    obtain rfl : b.1 = x := congrArg Prod.fst hb
    have hsiguiente := siguiente_cortado hdir hcorte
    by_cases hle : siguiente b.1 (b.1, ⟨memoriaReservar, false⟩) ≤ limiteSegmento c segmento
    · refine .inr (.head (leerMemoria_cortada hdir hlt) hueco_usado hle ?_)
      rw [hsiguiente]
      exact ⟨[], _, rfl, leerMemoria_resto hcorte, by rw [hueco_resto, decide_eq_true h.resto]⟩
    · exact .inl (.head (leerMemoria_cortada hdir hlt) hueco_usado fun hle' => absurd hle' hle)
  · obtain ⟨-, rfl⟩ := leerMemoria_eq_some.1 hleer
    rcases h.lejos x hx with rfl | hlejos
    · -- the block itself is a hit
      obtain ⟨cs, y, -, hleer', hhit⟩ := h.primero
      obtain ⟨-, hb⟩ := leerMemoria_eq_some.1 hleer'
      obtain rfl : b.1 = y := congrArg Prod.fst hb
      rw [← hb, hhit] at hmiss
      cases hmiss
    · rw [← leerMemoria_lejos hlejos] at hleer
      rcases ih with hmisses | hfinds
      · exact .inl (.head hleer hmiss fun _ => hmisses)
      · exact .inr (.head hleer hmiss hle hfinds)

/-- The second walk answers nothing. -/
theorem buscarMemoria_nadaAparte (h : NadaAparte c m segmento memoriaReservar b)
    (hb : b.2 = leerHeap m b.1) (hdir : c.EnMemoria b.1 5)
    (hcorte : c.EnMemoria (b.1 + 5 + memoriaReservar) 5) (hlt : memoriaReservar < 4294967296)
    (hwalk : buscarMemoria fuel c (partir m b.1 b.2.size memoriaReservar) segmento memoriaReservar
      = some hallado) : hallado = none :=
  (h.misses hb hdir hcorte hlt).eq_none hwalk

/-- The second walk answers nothing, or the other block. -/
theorem buscarMemoria_otroAparte {w : Cabecera} (h : OtroAparte c m segmento memoriaReservar b w)
    (hb : b.2 = leerHeap m b.1) (hdir : c.EnMemoria b.1 5)
    (hcorte : c.EnMemoria (b.1 + 5 + memoriaReservar) 5) (hlt : memoriaReservar < 4294967296)
    (hwalk : buscarMemoria fuel c (partir m b.1 b.2.size memoriaReservar) segmento memoriaReservar
      = some hallado) : hallado = none ∨ hallado = some w := by
  rcases h.finds hb hdir hcorte hlt with hmisses | hfinds
  · exact .inl (hmisses.eq_none hwalk)
  · exact .inr (hfinds.eq_some hwalk)

/-- The second walk answers nothing, or what is left. -/
theorem buscarMemoria_restoPrimero (h : RestoPrimero c m segmento memoriaReservar b)
    (hcorte : c.EnMemoria (b.1 + 5 + memoriaReservar) 5) (hlt : memoriaReservar < 4294967296)
    (hwalk : buscarMemoria fuel c (partir m b.1 b.2.size memoriaReservar) segmento memoriaReservar
      = some hallado) : hallado = none ∨
        hallado = some (b.1 + 5 + memoriaReservar, ⟨resto b.2.size memoriaReservar, true⟩) := by
  rcases h.finds hcorte hlt with hmisses | hfinds
  · exact .inl (hmisses.eq_none hwalk)
  · exact .inr (hfinds.eq_some hwalk)

end Cut

end Threaders.Muse
