import Threaders.Muse.Allocation

/-!
# How many pages a request is given

`memoria_reservar + 5` is stored in an `int`, so from `2 ^ 31` on it is negative, and the
number of pages computed from it is too small, zero or negative.
`existe_memoria_parar_paginas` compares its counter to that number for equality: it refuses a
negative one, and accepts zero unless the very first frame is free.

## Main definitions

* `paginasAsignadas` — the pages a number of rounds of the assignment loop give.
* `PaginasSuficientes` — an accepted request is given a page, and pages for header and block.
* `CuentaRechazada` — when the pre-check refuses a number that has wrapped around.
-/

namespace Threaders.Muse

open Lib Common

/-- The pages `n` rounds of the assignment loop add to an empty segment. -/
def paginasAsignadas (c : Config) (l : Locales) (s : Globals) (n : ℕ) : List ℤ :=
  (asignarPaginas c ⟨s, [], l⟩ n).paginas

/-- A request that is accepted is given at least one page, and room for the header and the
block. -/
def PaginasSuficientes (c : Config) (l : Locales) (s : Globals) (tam : UInt32) : Prop :=
  existeMemoriaPararPaginas c s (cantidadPaginasNecesarias c tam) = true →
    1 ≤ (paginasAsignadas c l s (cantidadPaginasNecesarias c tam).toNat).length ∧
    (tam.toNat : ℤ) + 5 ≤
      (paginasAsignadas c l s (cantidadPaginasNecesarias c tam).toNat).length * c.pagina

/-- The pre-check refuses the number of pages of a request of `2 ^ 32 + resto` bytes with its
header: the number is negative, or zero with the first frame free, or more frames than are
free. -/
def CuentaRechazada (c : Config) (s : Globals) (resto : ℤ) : Prop :=
  resto ≤ -2 * c.pagina ∨
  -2 * c.pagina < resto ∧ resto ≤ -c.pagina ∧ 0 < c.entradas ∧ s.vectorFrames 0 = true ∨
  -c.pagina < resto ∧ libres s.vectorFrames c.entradas 0 < resto.tdiv c.pagina + 1

section PageCount
variable {c : Config} {l : Locales} {s s' : Globals} {tam : UInt32} {resto : ℤ}

@[simp] theorem length_paginasAsignadas (n : ℕ) : (paginasAsignadas c l s n).length = n := by
  unfold paginasAsignadas
  induction n with
  | zero => rfl
  | succ n ih => simp [asignarPaginas, asignarPagina, ih]

/-! ## The pre-check -/

theorem existe_of_neg {cantidad : ℤ} (h : cantidad < 0) :
    existeMemoriaPararPaginas c s cantidad = false := by
  have hlt : cantidad < contarLibres s.vectorFrames cantidad c.entradas 0 0 :=
    contarLibres_of_nonpos (by omega)
  rw [existeMemoriaPararPaginas, decide_eq_false_iff_not]
  omega

/-- No pages are found unless the first frame is free. -/
theorem existe_zero_iff :
    existeMemoriaPararPaginas c s 0 = true ↔ ¬ (0 < c.entradas ∧ s.vectorFrames 0 = true) := by
  rw [existeMemoriaPararPaginas, decide_eq_true_eq]
  cases c.entradas with
  | zero => simp [contarLibres]
  | succ n =>
      rw [contarLibres]
      by_cases hlibre : s.vectorFrames 0 = true
      · have hlt : (0 : ℤ) < contarLibres s.vectorFrames 0 n 1 1 :=
          contarLibres_of_nonpos (by omega)
        simp [hlibre]
        omega
      · simp [hlibre]

theorem existe_pos_iff {cantidad : ℤ} (h : 0 < cantidad) :
    existeMemoriaPararPaginas c s cantidad = true ↔
      cantidad ≤ libres s.vectorFrames c.entradas 0 := by
  rw [existeMemoriaPararPaginas, decide_eq_true_eq, contarLibres_eq_iff (by omega)]
  omega

/-! ## Division toward zero -/

theorem tdiv_of_neg {x p : ℤ} (hx : x < 0) : x.tdiv p = -(-x / p) := by
  rw [← Int.tdiv_eq_ediv_of_nonneg (by omega), Int.neg_tdiv, neg_neg]

theorem tdiv_add_one_neg {x p : ℤ} (hp : 0 < p) (hx : x ≤ -2 * p) : x.tdiv p + 1 < 0 := by
  have hle : 2 ≤ -x / p := (Int.le_ediv_iff_mul_le hp).2 (by omega)
  rw [tdiv_of_neg (by omega)]
  omega

theorem tdiv_add_one_zero {x p : ℤ} (hp : 0 < p) (hlo : -2 * p < x) (hhi : x ≤ -p) :
    x.tdiv p + 1 = 0 := by
  have hle : 1 ≤ -x / p := (Int.le_ediv_iff_mul_le hp).2 (by omega)
  have hlt : -x / p < 2 := (Int.ediv_lt_iff_lt_mul hp).2 (by omega)
  rw [tdiv_of_neg (by omega)]
  omega

/-- Above `-p` the number of pages is positive, and they exceed the bytes by a page at most. -/
theorem tdiv_add_one_pos {x p : ℤ} (hp : 0 < p) (hlo : -p < x) :
    0 < x.tdiv p + 1 ∧ (x.tdiv p + 1) * p ≤ max x 0 + p := by
  rcases le_or_gt 0 x with hx | hx
  · rw [Int.tdiv_eq_ediv_of_nonneg hx]
    have hnonneg : 0 ≤ x / p := Int.ediv_nonneg hx hp.le
    have hle : x / p * p ≤ x := Int.ediv_mul_le x hp.ne'
    rw [add_mul]
    omega
  · have hzero : -x / p = 0 := Int.ediv_eq_zero_of_lt (by omega) (by omega)
    rw [tdiv_of_neg hx, hzero]
    omega

/-! ## Requests that fit an `int`, and those that do not -/

theorem cantidad_of_wrap (h : 2147483648 ≤ tam.toNat + 5) :
    cantidadPaginasNecesarias c tam = ((tam.toNat : ℤ) + 5 - 4294967296).tdiv c.pagina + 1 := by
  have hlt : tam.toNat < 4294967296 := tam.toNat_lt
  have hwrap : toI32 (tam.toNat + 5) = tam.toNat + 5 - 4294967296 := by
    unfold toI32
    omega
  rw [cantidadPaginasNecesarias, hwrap]

/-- A number of pages that has wrapped around is too small whenever it is accepted. -/
theorem paginasSuficientes_of_wrap (hp : 0 < c.pagina) (h : 2147483648 ≤ tam.toNat + 5) :
    PaginasSuficientes c l s tam ↔ CuentaRechazada c s ((tam.toNat : ℤ) + 5 - 4294967296) := by
  have hmax : c.pagina < 2147483648 := Int32.toInt_lt c.pageSize
  have htam : tam.toNat < 4294967296 := tam.toNat_lt
  unfold PaginasSuficientes CuentaRechazada
  rw [length_paginasAsignadas, cantidad_of_wrap h]
  obtain ⟨resto, hresto⟩ : ∃ resto : ℤ, (tam.toNat : ℤ) + 5 - 4294967296 = resto := ⟨_, rfl⟩
  rw [hresto]
  rcases le_or_gt resto (-2 * c.pagina) with hneg | hneg
  · rw [existe_of_neg (tdiv_add_one_neg hp hneg)]
    exact iff_of_true (by simp) (.inl hneg)
  rcases le_or_gt resto (-c.pagina) with hzero | hpos
  · rw [tdiv_add_one_zero hp hneg hzero, existe_zero_iff]
    constructor
    · intro himp
      by_contra hnot
      have hone := (himp fun hfree => hnot (.inr (.inl ⟨hneg, hzero, hfree⟩))).1
      simp at hone
    · rintro (hle | ⟨-, -, hfree⟩ | ⟨hlt, -⟩) hnot
      · omega
      · exact absurd hfree hnot
      · omega
  · obtain ⟨hcantidad, hbytes⟩ := tdiv_add_one_pos hp hpos
    rw [existe_pos_iff hcantidad]
    constructor
    · intro himp
      refine .inr (.inr ⟨hpos, ?_⟩)
      by_contra hle
      have hroom := (himp (by omega)).2
      rw [Int.toNat_of_nonneg hcantidad.le] at hroom
      omega
    · rintro (hle | ⟨-, hle, -⟩ | ⟨-, hlt⟩) hexiste
      · omega
      · omega
      · omega

/-- An accepted request is given enough pages exactly if it fits an `int` with its header, or
the pre-check refuses the number it is taken for. -/
theorem page_count_iff (hp : 0 < c.pagina) :
    PaginasSuficientes c l s tam ↔ tam.toNat + 5 < 2147483648 ∨
      CuentaRechazada c s ((tam.toNat : ℤ) + 5 - 4294967296) := by
  by_cases htam : tam.toNat + 5 < 2147483648
  · simp only [htam, true_or, iff_true]
    intro _
    have hroom := lt_cantidadPaginasNecesarias hp htam
    have hcantidad : 0 < cantidadPaginasNecesarias c tam := by
      by_contra hle
      have hneg := mul_nonpos_of_nonpos_of_nonneg (not_lt.1 hle) hp.le
      omega
    rw [length_paginasAsignadas, Int.toNat_of_nonneg hcantidad.le]
    omega
  · rw [paginasSuficientes_of_wrap hp (by omega)]
    simp [htam]

end PageCount

/-- A request of a hundred bytes with three free frames. -/
theorem page_count_cien : PaginasSuficientes ⟨96, 32, 0, 0⟩ ⟨0, 0⟩
    (museInit ⟨96, 32, 0, 0⟩ fun _ => 0) 100 :=
  (page_count_iff (by decide)).2 (.inl (by decide))

/-- The largest request there is gets one page, and an address. -/
theorem largest_request_one_page :
    (asignarDirMemoria 10 ⟨96, 32, 0, 0⟩ ⟨0, 0⟩ (museInit ⟨96, 32, 0, 0⟩ fun _ => 0)
      4294967295).map (fun r => (r.1, r.2.1)) = some (5, ⟨0, 31, [0]⟩) ∧
    existeMemoriaPararPaginas ⟨96, 32, 0, 0⟩ (museInit ⟨96, 32, 0, 0⟩ fun _ => 0)
      (cantidadPaginasNecesarias ⟨96, 32, 0, 0⟩ 4294967295) = true ∧
    (paginasAsignadas ⟨96, 32, 0, 0⟩ ⟨0, 0⟩ (museInit ⟨96, 32, 0, 0⟩ fun _ => 0)
      (cantidadPaginasNecesarias ⟨96, 32, 0, 0⟩ 4294967295).toNat).length = 1 ∧
    ¬ PaginasSuficientes ⟨96, 32, 0, 0⟩ ⟨0, 0⟩ (museInit ⟨96, 32, 0, 0⟩ fun _ => 0)
      4294967295 := by
  have hcantidad : cantidadPaginasNecesarias ⟨96, 32, 0, 0⟩ 4294967295 = 1 := by decide
  have hexiste : existeMemoriaPararPaginas ⟨96, 32, 0, 0⟩ (museInit ⟨96, 32, 0, 0⟩ fun _ => 0)
      (cantidadPaginasNecesarias ⟨96, 32, 0, 0⟩ 4294967295) = true := by
    rw [hcantidad]
    decide
  have hlength : (paginasAsignadas ⟨96, 32, 0, 0⟩ ⟨0, 0⟩ (museInit ⟨96, 32, 0, 0⟩ fun _ => 0)
      (cantidadPaginasNecesarias ⟨96, 32, 0, 0⟩ 4294967295).toNat).length = 1 := by
    rw [length_paginasAsignadas, hcantidad]
    rfl
  refine ⟨by decide +kernel, hexiste, hlength, fun hsuficientes => ?_⟩
  have hroom := (hsuficientes hexiste).2
  rw [hlength] at hroom
  exact absurd hroom (by decide)

end Threaders.Muse
