import Threaders.Muse.Heap
import Threaders.Muse.Isolation

/-!
# What a `MEMFREE` leaves

The header is read into a local copy, and the copy is what is joined to its neighbours: all
that happens to `memoria` is that ranges of it are set to zero.  So the byte in which a used
header differs from a free one is zero before and after, and the block is used as before.

## Main definitions

* `Borrada` — a memory of which bytes were set to zero.
* `LiberaBien` — what a `MEMFREE` of a used block should come to.
* `memfree_never_frees` — it never does.
-/

namespace Threaders.Muse

open Lib Common

/-! ## Bytes set to zero -/

/-- Every byte is as it was, or zero. -/
def Borrada (m m' : Mem) : Prop := ∀ i, m' i = m i ∨ m' i = 0

section Borrada
variable {m m' m'' : Mem} {c : Config} {dir : ℤ} {size fuel : ℕ}

theorem Borrada.trans (h : Borrada m m') (h' : Borrada m' m'') : Borrada m m'' := by
  intro i
  rcases h' i with h' | h'
  · rw [h']
    exact h i
  · exact .inr h'

theorem borrada_clear (m : Mem) (dir : ℤ) (n : ℕ) : Borrada m (m.clear dir n) := by
  intro i
  unfold Mem.clear
  split
  · exact .inr rfl
  · exact .inl rfl

/-- A header whose block is used stays one. -/
theorem Borrada.usado (h : Borrada m m') (hm : (leerHeap m dir).libre = false) :
    (leerHeap m' dir).libre = false := by
  rw [libre_eq_false_iff] at hm ⊢
  rcases h (dir + 4) with h | h
  · rw [h, hm]
  · exact h

theorem borrada_liberar (m : Mem) (dir : ℤ) (size : ℕ) : Borrada m (liberar m dir size).1 := by
  unfold liberar
  simp only
  split
  · exact (borrada_clear m _ _).trans (borrada_clear _ _ _)
  · exact borrada_clear m _ _

/-- Whatever block in front the search finds, bytes of it are set to zero. -/
theorem borrada_previo {previo : Option (ℤ × HeapMetadata)}
    (h : borrarPrevio c m size previo = some m') : Borrada m m' := by
  cases previo with
  | none =>
      obtain rfl := Option.some.inj h
      exact fun i => .inl rfl
  | some previo =>
      simp only [borrarPrevio, Option.ite_none_right_eq_some, Option.some.injEq] at h
      rw [← h.2]
      exact borrada_clear m _ _

theorem borrada_unirPrevio (h : unirPrevio fuel c m dir size = some m') : Borrada m m' := by
  obtain ⟨-, previo, -, hborra⟩ := unirPrevio_eq_some.1 h
  exact (borrada_liberar m dir size).trans (borrada_previo hborra)

end Borrada

/-! ## `MEMFREE` -/

/-- What a `MEMFREE` of a used block should come to: it is answered `FREE_RESPONSE`; the heap
covers the bytes it covered, and the block is part of a free one; no other used block has
changed; and the same request is refused from then on. -/
structure LiberaBien (c : Config) (s : Globals) (p : TFree) (a e : ℤ) (bs : List HeapMetadata)
    (s' : Globals) : Prop where
  respuesta : Responde c s (.memfree p) (Message.freeResponse ⟨1⟩).frame s'
  libre : ∃ bs' x b, Cadena s'.memoria a bs' e ∧ EsBloque s'.memoria a bs' x b ∧ b.libre = true ∧
    x ≤ Acceso.cabecera p ∧
      Acceso.cabecera p + 5 + (leerHeap s.memoria (Acceso.cabecera p)).size ≤ x + 5 + b.size
  usados : ∀ x b, EsBloque s.memoria a bs x b → b.libre = false → x ≠ Acceso.cabecera p →
    ∀ i, x ≤ i → i < x + 5 + b.size → s'.memoria i = s.memoria i
  segunda : Responde c s' (.memfree p) (codigo .segFault) s'

section
variable {c : Config} {s s' : Globals} {p : TFree} {a e : ℤ} {bs : List HeapMetadata}
  {b : HeapMetadata}

/-- The header of a block that was freed is still that of a used block. -/
theorem usado_of_memfree {respuesta : Bytes} (hid : existeProcesoEnLista s p.selfId ≠ none)
    (husado : (leerHeap s.memoria (Acceso.cabecera p)).libre = false)
    (h : Responde c s (.memfree p) respuesta s') :
    existeProcesoEnLista s' p.selfId ≠ none ∧
      (leerHeap s'.memoria (Acceso.cabecera p)).libre = false := by
  obtain ⟨fuel, h⟩ := h ⟨0, fun _ => 0⟩ ⟨0, 0⟩
  rw [atender] at h
  rw [atenderMemfree_usado hid (enMemoria_of_memfree hid h) husado, Option.map_eq_some_iff] at h
  obtain ⟨m, hunir, hs'⟩ := h
  obtain rfl := congrArg Prod.snd hs'
  exact ⟨hid, (borrada_unirPrevio hunir).usado husado⟩

/-- A `MEMFREE` of a used block is answered as soon as the search in front of it ends. -/
theorem responde_of_unirPrevio {fuel : ℕ} {m : Mem} (hid : existeProcesoEnLista s p.selfId ≠ none)
    (hdir : c.EnMemoria (Acceso.cabecera p) 8)
    (husado : (leerHeap s.memoria (Acceso.cabecera p)).libre = false)
    (h : unirPrevio fuel c s.memoria (toI32 p.dir.toNat)
      (leerHeap s.memoria (Acceso.cabecera p)).size = some m) :
    Responde c s (.memfree p) (Message.freeResponse ⟨1⟩).frame { s with memoria := m } := by
  intro u l
  refine ⟨fuel, ?_⟩
  rw [atender, atenderMemfree_usado hid hdir husado]
  exact Option.map_eq_some_iff.2 ⟨m, h, rfl⟩

/-- No `MEMFREE` of a used block of a heap frees it: the second one is not refused. -/
theorem memfree_never_frees (hid : existeProcesoEnLista s p.selfId ≠ none)
    (hheap : Cadena s.memoria a bs e) (hb : EsBloque s.memoria a bs (Acceso.cabecera p) b)
    (husado : b.libre = false) : ¬ LiberaBien c s p a e bs s' := by
  intro h
  rw [← hb.leerHeap_eq hheap] at husado
  obtain ⟨hid', husado'⟩ := usado_of_memfree hid husado h.respuesta
  obtain ⟨-, hrefused⟩ := (responde_memfree_iff p).1 h.segunda
  rw [CabeceraLibre, husado'] at hrefused
  simp [hid'] at hrefused

end

/-- A block of five bytes is not freed. -/
theorem memfree_never_frees_cinco : ∃ s, Cadena s.memoria 0 [⟨5, false⟩, ⟨16, true⟩] 31 ∧
    ∀ s', ¬ LiberaBien ⟨96, 32, 0, 0⟩ s ⟨5, 1⟩ 0 31 [⟨5, false⟩, ⟨16, true⟩] s' := by
  obtain ⟨s, -, hheap, hid⟩ := malloc_cinco
  have hcabecera : Acceso.cabecera ⟨5, 1⟩ = 0 := by decide
  have hb : EsBloque s.memoria 0 [⟨5, false⟩, ⟨16, true⟩] (Acceso.cabecera ⟨5, 1⟩) ⟨5, false⟩ :=
    ⟨[], _, rfl, hcabecera.symm⟩
  exact ⟨s, hheap, fun s' => memfree_never_frees hid hheap hb rfl⟩

/-- It is answered `FREE_RESPONSE` a second time. -/
theorem block_freed_twice : ∃ s s' s'', atenderMalloc 200 ⟨96, 32, 0, 0⟩ ⟨0, 0⟩
      (museInit ⟨96, 32, 0, 0⟩ fun _ => 0) ⟨5, 1⟩ = some (⟨5⟩, s) ∧
    Cadena s.memoria 0 [⟨5, false⟩, ⟨16, true⟩] 31 ∧
    Responde ⟨96, 32, 0, 0⟩ s (.memfree ⟨5, 1⟩) (Message.freeResponse ⟨1⟩).frame s' ∧
    Responde ⟨96, 32, 0, 0⟩ s' (.memfree ⟨5, 1⟩) (Message.freeResponse ⟨1⟩).frame s'' ∧
    ¬ LiberaBien ⟨96, 32, 0, 0⟩ s ⟨5, 1⟩ 0 31 [⟨5, false⟩, ⟨16, true⟩] s' := by
  have hserved : ((atenderMalloc 200 ⟨96, 32, 0, 0⟩ ⟨0, 0⟩ (museInit ⟨96, 32, 0, 0⟩ fun _ => 0)
      ⟨5, 1⟩).bind fun r => (unirPrevio 1 ⟨96, 32, 0, 0⟩ r.2.memoria 5 5).bind fun m =>
        (unirPrevio 1 ⟨96, 32, 0, 0⟩ m 5 5).map fun m' =>
          (leerHeap r.2.memoria 0, leerHeap m 0)) = some (⟨5, false⟩, ⟨5, false⟩) := by
    decide +kernel
  obtain ⟨s, hmalloc, hheap, hid⟩ := malloc_cinco
  rw [hmalloc, Option.bind_some, Option.bind_eq_some_iff] at hserved
  obtain ⟨m, hfree, hserved⟩ := hserved
  obtain ⟨m', hfree', hvalues⟩ := Option.map_eq_some_iff.1 hserved
  obtain ⟨h0, h0'⟩ := Prod.mk.inj hvalues
  have hcabecera : Acceso.cabecera ⟨5, 1⟩ = 0 := by decide
  have hdir : toI32 (UInt32.toNat 5) = 5 := by decide
  have hb : EsBloque s.memoria 0 [⟨5, false⟩, ⟨16, true⟩] (Acceso.cabecera ⟨5, 1⟩) ⟨5, false⟩ :=
    ⟨[], _, rfl, hcabecera.symm⟩
  have husado : (leerHeap s.memoria (Acceso.cabecera ⟨5, 1⟩)).libre = false := by
    rw [hcabecera, h0]
  have husado' : (leerHeap m (Acceso.cabecera ⟨5, 1⟩)).libre = false := by
    rw [hcabecera, h0']
  rw [← hdir] at hfree hfree'
  have hsize : (leerHeap s.memoria (Acceso.cabecera ⟨5, 1⟩)).size = 5 := by rw [hcabecera, h0]
  have hsize' : (leerHeap m (Acceso.cabecera ⟨5, 1⟩)).size = 5 := by rw [hcabecera, h0']
  rw [← hsize] at hfree
  rw [← hsize'] at hfree'
  exact ⟨s, { s with memoria := m }, { s with memoria := m' }, hmalloc, hheap,
    responde_of_unirPrevio hid (by decide) husado hfree,
    responde_of_unirPrevio (s := { s with memoria := m }) hid (by decide) husado' hfree',
    memfree_never_frees hid hheap hb rfl⟩

end Threaders.Muse
