import Threaders.Lib.Blocks
import Threaders.Muse.Server

/-!
# The heap of a segment, and what a `COPY` does to it

The frames of a segment are consecutive, so its heap is a range of `memoria`: headers of five
bytes, each in front of as many bytes as its size says.  A `COPY` writes its own size into the
five bytes in front of its destination, whatever they are, and then its content.

## Main definitions

* `Cadena` — a range of memory is such a heap.
* `EsBloque`, `EnBloque` — one of its blocks, and a range in the payload of a used one.
* `copy_keeps_heap_iff` — the `COPY`s that leave the heap as it is.
-/

namespace Threaders.Muse

open Lib Common

/-! ## Headers in memory -/

section Headers
variable {m m' : Mem} {a x : ℤ} {heap : HeapMetadata}

theorem leerHeap_congr (h : ∀ i, x ≤ i → i < x + 5 → m i = m' i) :
    leerHeap m x = leerHeap m' x := by
  rw [leerHeap, leerHeap, Mem.readLe_congr fun i hi hi' => h i hi (by omega),
    h (x + 4) (by omega) (by omega)]

/-- A write that does not meet a header leaves it. -/
theorem leerHeap_write {dir : ℤ} {bs : Bytes} (h : x + 5 ≤ dir ∨ dir + bs.length ≤ x) :
    leerHeap (m.write dir bs) x = leerHeap m x :=
  leerHeap_congr fun _ _ _ => Mem.write_of_not_mem (by omega)

/-- A header that another one does not meet. -/
theorem leerHeap_escribirHeap_of_ne {dir : ℤ} (h : x + 5 ≤ dir ∨ dir + 5 ≤ x) :
    leerHeap (escribirHeap m dir heap) x = leerHeap m x :=
  leerHeap_write (by simpa using h)

theorem escribirHeap_of_not_mem {i : ℤ} (h : i < x ∨ x + 5 ≤ i) :
    escribirHeap m x heap i = m i := Mem.write_of_not_mem (by simpa using h)

theorem escribirHeap_eq (m : Mem) (x : ℤ) (heap : HeapMetadata) :
    escribirHeap m x heap
      = (m.writeLe x 4 heap.size).write (x + 4) [if heap.libre then 1 else 0] := by
  rw [escribirHeap, HeapMetadata.bytes, Mem.write_append, length_leBytes]
  rfl

/-- A header is read back. -/
theorem leerHeap_escribirHeap (h : heap.size < 4294967296) :
    leerHeap (escribirHeap m x heap) x = heap := by
  have hkeep : (escribirHeap m x heap).readLe x 4 = (m.writeLe x 4 heap.size).readLe x 4 := by
    rw [escribirHeap_eq]
    exact Mem.readLe_congr fun i _ hi => Mem.write_of_not_mem (.inl hi)
  have hsize : (escribirHeap m x heap).readLe x 4 = heap.size := by
    rw [hkeep, Mem.readLe_writeLe_self]
    exact Nat.mod_eq_of_lt h
  have hlibre : escribirHeap m x heap (x + 4) = if heap.libre then 1 else 0 := by
    rw [escribirHeap_eq, Mem.write, Mem.write, Function.update_self]
  rw [leerHeap, hsize, hlibre]
  cases heap with
  | mk size libre => cases libre <;> rfl

/-- Behind the four bytes of a size and the byte behind them, a copy leaves what was there. -/
theorem copiar_of_not_mem {i dst : ℤ} {n : ℕ} {content : Bytes}
    (hsize : i < dst - 5 ∨ dst - 1 ≤ i) (hcontent : i < dst ∨ dst + content.length ≤ i) :
    copiar m dst n content i = m i := by
  rw [copiar, Mem.write_of_not_mem hcontent, Mem.writeLe_of_not_mem (by omega)]

/-- The header in front of a copy has the size of the copy then, and the same byte `libre`. -/
theorem leerHeap_copiar {dst : ℤ} {n : ℕ} (content : Bytes) (h : n < 4294967296) :
    leerHeap (copiar m dst n content) (dst - 5) = ⟨n, (leerHeap m (dst - 5)).libre⟩ := by
  have hsize : (copiar m dst n content).readLe (dst - 5) 4 = n := by
    rw [copiar, Mem.readLe_congr fun i _ hi => Mem.write_of_not_mem (.inl (by omega)),
      Mem.readLe_writeLe_self]
    exact Nat.mod_eq_of_lt h
  have hlibre : copiar m dst n content (dst - 5 + 4) = m (dst - 5 + 4) :=
    copiar_of_not_mem (.inr (by omega)) (.inl (by omega))
  rw [leerHeap, hsize, hlibre, leerHeap]

/-- A copy of as many bytes as the header in front says is just these bytes. -/
theorem copiar_eq_write {dst : ℤ} {n : ℕ} (content : Bytes) (h : (leerHeap m (dst - 5)).size = n) :
    copiar m dst n content = m.write dst content := by
  have hsame : m.writeLe (dst - 5) 4 n = m := h ▸ Mem.writeLe_readLe
  rw [copiar, hsame]

end Headers

/-- A `COPY` to a used block passes. -/
theorem pasaCopy_of_usado {m : Mem} {dst : ℤ} (h : (leerHeap m (dst - 5)).libre = false) :
    PasaCopy m dst := by
  rw [libre_eq_false_iff, show dst - 5 + 4 = dst - 1 by omega] at h
  rw [PasaCopy, h]
  decide

/-! ## The heap -/

/-- The range of memory from `a` up to `e` is a chain of headers, each followed by as many
bytes as its size says. -/
def Cadena (m : Mem) : ℤ → List HeapMetadata → ℤ → Prop :=
  Blocks (fun x => some (leerHeap m x)) fun x heap => x + 5 + heap.size

/-- One of the blocks of the heap, and where its header is. -/
def EsBloque (m : Mem) (a : ℤ) (bs : List HeapMetadata) (x : ℤ) (b : HeapMetadata) : Prop :=
  ∃ pre post, bs = pre ++ b :: post ∧ Cadena m a pre x

/-- The `n` bytes from `dst` on lie in the payload of one used block of the heap. -/
def EnBloque (m : Mem) (a : ℤ) (bs : List HeapMetadata) (dst : ℤ) (n : ℕ) : Prop :=
  ∃ x b, EsBloque m a bs x b ∧ b.libre = false ∧ x + 5 ≤ dst ∧ dst + n ≤ x + 5 + b.size

section Cadena
variable {m m' : Mem} {a e x dst : ℤ} {bs : List HeapMetadata} {b : HeapMetadata} {n : ℕ}

/-- The header of a block is the one at its address. -/
theorem EsBloque.leerHeap_eq (h : Cadena m a bs e) (hb : EsBloque m a bs x b) : leerHeap m x = b := by
  obtain ⟨pre, post, rfl, hpre⟩ := hb
  obtain ⟨y, hpre', hb, -⟩ := blocks_append.1 h
  obtain rfl : x = y := (blocks_unique hpre hpre' rfl).2
  exact Option.some.inj hb

/-- What keeps the bytes outside the payload of one block keeps the heap. -/
theorem Cadena.of_payload (h : Cadena m a bs e) (hblock : EnBloque m a bs dst n)
    (hout : ∀ i, i < dst ∨ dst + n ≤ i → m' i = m i) : Cadena m' a bs e := by
  obtain ⟨x, b, ⟨pre, post, rfl, hpre⟩, -, hlo, hhi⟩ := hblock
  have hnext : ∀ (y : ℤ) (b : HeapMetadata), y ≤ y + 5 + b.size := fun y b => by omega
  obtain ⟨x', hpre', hb, hpost⟩ := blocks_append.1 h
  obtain rfl : x = x' := (blocks_unique hpre hpre' rfl).2
  refine blocks_append.2 ⟨x, ?_, ?_, ?_⟩
  · refine blocks_congr hnext (fun y b _ hle hy => ?_) hpre
    have hsame : leerHeap m' y = leerHeap m y :=
      leerHeap_congr fun i _ hi => hout i (.inl (by omega))
    exact (congrArg some hsame).trans hy
  · have hsame : leerHeap m' x = leerHeap m x :=
      leerHeap_congr fun i _ hi => hout i (.inl (by omega))
    exact (congrArg some hsame).trans hb
  · refine blocks_congr hnext (fun y b (hle : _ + 5 + _ ≤ y) _ hy => ?_) hpost
    have hsame : leerHeap m' y = leerHeap m y :=
      leerHeap_congr fun i hi _ => hout i (.inr (by omega))
    exact (congrArg some hsame).trans hy

end Cadena

/-! ## `COPY` -/

/-- A `COPY` of `n` bytes to `dst` that keeps the heap: nothing else changes, the bytes lie in
one used block, and all headers are as they were. -/
def RespetaHeap (m m' : Mem) (a e : ℤ) (bs : List HeapMetadata) (dst : ℤ) (n : ℕ) : Prop :=
  (∀ i, m' i ≠ m i → dst ≤ i ∧ i < dst + n) ∧ EnBloque m a bs dst n ∧ Cadena m' a bs e

/-- The memory after a `COPY` that is answered with success. -/
theorem memoria_of_copy {c : Config} {u : Uninit} {s s' : Globals} {p : TCopy}
    (h : atenderCopy c u s p = some ((Message.getOk (comoGetOk u ⟨1⟩)).frame, s')) :
    PasaCopy s.memoria p.dst.toNat ∧
      ∃ content : Bytes, content.length = p.size.toUInt32.toNat ∧
        s'.memoria = copiar s.memoria p.dst.toNat p.size.toUInt32.toNat content := by
  obtain ⟨-, ⟨-, hnada, -⟩ | ⟨hpasa, -, content, hcontent, -, rfl⟩⟩ := atenderCopy_eq_some h
  · have := congrArg List.length hnada
    simp only [Message.frame, List.length_append, length_leBytes, List.length_nil] at this
    omega
  · have hlen := length_of_memcpyFrom hcontent
    refine ⟨hpasa, content, ?_, rfl⟩
    rw [← toI32_toUInt32] at hlen
    have hlt := p.size.toUInt32.toNat_lt
    unfold toI32 at hlen
    omega

/-- A `COPY` answered with success keeps the heap if and only if its bytes lie in one used
block and the four bytes it takes for the size of its block hold its own size already. -/
theorem copy_keeps_heap_iff {c : Config} {u : Uninit} {s s' : Globals} {p : TCopy} {a e : ℤ}
    {bs : List HeapMetadata} (hheap : Cadena s.memoria a bs e)
    (h : atenderCopy c u s p = some ((Message.getOk (comoGetOk u ⟨1⟩)).frame, s')) :
    RespetaHeap s.memoria s'.memoria a e bs p.dst.toNat p.size.toUInt32.toNat ↔
      (leerHeap s.memoria (p.dst.toNat - 5)).size = p.size.toUInt32.toNat ∧
        EnBloque s.memoria a bs p.dst.toNat p.size.toUInt32.toNat := by
  obtain ⟨-, content, hlen, hs'⟩ := memoria_of_copy h
  generalize hn : p.size.toUInt32.toNat = n at *
  generalize hdst : (p.dst.toNat : ℤ) = dst at *
  have hlt : n < 4294967296 := hn ▸ p.size.toUInt32.toNat_lt
  constructor
  · rintro ⟨hframe, hblock, -⟩
    refine ⟨?_, hblock⟩
    have hsame : leerHeap s'.memoria (dst - 5) = leerHeap s.memoria (dst - 5) := by
      refine leerHeap_congr fun i _ hi => ?_
      by_contra hne
      have := hframe i hne
      omega
    have hwritten : (leerHeap s'.memoria (dst - 5)).size = n := by
      rw [hs', leerHeap_copiar content hlt]
    rw [← hsame, hwritten]
  · rintro ⟨hsize, hblock⟩
    rw [copiar_eq_write content hsize] at hs'
    have hout : ∀ i, i < dst ∨ dst + n ≤ i → s'.memoria i = s.memoria i := by
      intro i hi
      rw [hs', Mem.write_of_not_mem (by omega)]
    refine ⟨fun i hne => ?_, hblock, hheap.of_payload hblock hout⟩
    by_contra hcon
    exact hne (hout i (by omega))

/-- The blocks of the first page of 32 bytes after a request for five. -/
theorem malloc_cinco : ∃ s, atenderMalloc 200 ⟨96, 32, 0, 0⟩ ⟨0, 0⟩
      (museInit ⟨96, 32, 0, 0⟩ fun _ => 0) ⟨5, 1⟩ = some (⟨5⟩, s) ∧
    Cadena s.memoria 0 [⟨5, false⟩, ⟨16, true⟩] 31 ∧ existeProcesoEnLista s 1 ≠ none := by
  have hserved : (atenderMalloc 200 ⟨96, 32, 0, 0⟩ ⟨0, 0⟩ (museInit ⟨96, 32, 0, 0⟩ fun _ => 0)
      ⟨5, 1⟩).map (fun r => (r.1, leerHeap r.2.memoria 0, leerHeap r.2.memoria 10,
        (existeProcesoEnLista r.2 1).isSome)) = some (⟨5⟩, ⟨5, false⟩, ⟨16, true⟩, true) := by
    decide +kernel
  obtain ⟨⟨r, s⟩, hmalloc, hvalues⟩ := Option.map_eq_some_iff.mp hserved
  simp only [Prod.mk.injEq] at hvalues
  obtain ⟨rfl, h0, h10, hid⟩ := hvalues
  exact ⟨s, hmalloc, ⟨congrArg some h0, congrArg some h10, rfl⟩, Option.isSome_iff_ne_none.1 hid⟩

/-- A `COPY` as long as its block keeps the heap. -/
theorem copy_keeps_heap_iff_cinco : ∃ s s' : Globals,
    Cadena s.memoria 0 [⟨5, false⟩, ⟨16, true⟩] 31 ∧
    atenderCopy ⟨96, 32, 0, 0⟩ ⟨0, fun _ => 0⟩ s ⟨5, 1, 5, [1, 2, 3, 4, 5]⟩
      = some ((Message.getOk (comoGetOk ⟨0, fun _ => 0⟩ ⟨1⟩)).frame, s') ∧
    RespetaHeap s.memoria s'.memoria 0 31 [⟨5, false⟩, ⟨16, true⟩] 5 5 := by
  obtain ⟨s, -, hheap, -⟩ := malloc_cinco
  have hcabeza : leerHeap s.memoria 0 = ⟨5, false⟩ := Option.some.inj hheap.1
  have hcopy := atenderCopy_usado (c := ⟨96, 32, 0, 0⟩) (u := ⟨0, fun _ => 0⟩)
    (p := ⟨5, 1, 5, [1, 2, 3, 4, 5]⟩) (by decide) (by decide)
    (pasaCopy_of_usado (congrArg HeapMetadata.libre hcabeza)) (by decide)
  refine ⟨s, _, hheap, hcopy, (copy_keeps_heap_iff hheap hcopy).2 ⟨?_, ?_⟩⟩
  · exact congrArg HeapMetadata.size hcabeza
  · exact ⟨0, ⟨5, false⟩, ⟨[], _, rfl, rfl⟩, rfl, by decide, by decide⟩

/-- A `COPY` of four bytes to a block of five makes it a block of four. -/
theorem copy_shrinks_block : ∃ s s' : Globals,
    atenderMalloc 200 ⟨96, 32, 0, 0⟩ ⟨0, 0⟩ (museInit ⟨96, 32, 0, 0⟩ fun _ => 0) ⟨5, 1⟩
      = some (⟨5⟩, s) ∧
    Cadena s.memoria 0 [⟨5, false⟩, ⟨16, true⟩] 31 ∧
    atenderCopy ⟨96, 32, 0, 0⟩ ⟨0, fun _ => 0⟩ s ⟨5, 1, 4, [1, 2, 3, 4]⟩
      = some ((Message.getOk (comoGetOk ⟨0, fun _ => 0⟩ ⟨1⟩)).frame, s') ∧
    leerHeap s'.memoria 0 = ⟨4, false⟩ ∧
    ¬ RespetaHeap s.memoria s'.memoria 0 31 [⟨5, false⟩, ⟨16, true⟩] 5 4 := by
  obtain ⟨s, hmalloc, hheap, -⟩ := malloc_cinco
  have hcabeza : leerHeap s.memoria 0 = ⟨5, false⟩ := Option.some.inj hheap.1
  have hcopy := atenderCopy_usado (c := ⟨96, 32, 0, 0⟩) (u := ⟨0, fun _ => 0⟩)
    (p := ⟨5, 1, 4, [1, 2, 3, 4]⟩) (by decide) (by decide)
    (pasaCopy_of_usado (congrArg HeapMetadata.libre hcabeza)) (by decide)
  have hshrunk : leerHeap (copiar s.memoria (UInt32.toNat 5) (Int32.toUInt32 4).toNat [1, 2, 3, 4]) 0
      = ⟨4, false⟩ := by
    have hlibre : (leerHeap s.memoria ((UInt32.toNat 5 : ℕ) - 5)).libre = false :=
      congrArg HeapMetadata.libre hcabeza
    have hcopia : leerHeap (copiar s.memoria (UInt32.toNat 5) _ _) _ = _ :=
      leerHeap_copiar (n := (Int32.toUInt32 4).toNat) [1, 2, 3, 4] (by decide)
    rw [hlibre] at hcopia
    exact hcopia
  refine ⟨s, _, hmalloc, hheap, hcopy, hshrunk, fun hrespeta => ?_⟩
  have hchanged := Option.some.inj hrespeta.2.2.1
  rw [show leerHeap _ 0 = _ from hshrunk] at hchanged
  exact absurd hchanged (by decide)

end Threaders.Muse
