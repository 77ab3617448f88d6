import Threaders.Muse.Session

/-!
# Reading back what was written

`COPY` stores all the bytes it is given.  `GET` answers eight of them and says that they
are as many as an `int` has, so `muse_get` copies four, whatever number it was asked for.

## Main definitions

* `read_after_write` — when a `muse_get` gives back what a `muse_cpy` before it stored.
* `read_after_write_short` — a session in which it does not.
-/

namespace Threaders.Muse

open Lib Common

/-! ## What a call does from a session at rest -/

section
variable {c : Config} {σ σ' : Sesion} {pid : Int32} {ll : Llamada} {r : Resultado}

/-- A call and its reply are one case of the server. -/
theorem atender_of_run (h : σ.EnReposo)
    (hrun : Run (SesionStep c) σ [.llama pid ll, .atiende, .recibe r] σ') :
    (∃ u bytes, ll.peticion u pid = some bytes) ∧ ∃ fuel v l respuesta w resto,
      atender fuel c v l σ.servidor (ll.paquete pid) = some (respuesta, σ'.servidor) ∧
      4 ≤ respuesta.length ∧ recibir w ll respuesta = some (r, resto) ∧
      σ' = ⟨σ'.servidor, [], resto, none⟩ := by
  obtain ⟨hpendiente, hservidor, hcliente⟩ := h
  simp only [Run.cons_iff, Run.nil_iff] at hrun
  obtain ⟨σ₁, hllama, σ₂, hatiende, σ₃, hrecibe, rfl⟩ := hrun
  obtain ⟨-, u, bytes, hpeticion, rfl⟩ := hllama.llama_inv
  obtain ⟨-, fuel, v, l, resto₁, s, enviado, hronda, rfl⟩ := hatiende.atiende_inv
  obtain ⟨hcodigo, w, pid', ll', resto, hpend, hrecibir, rfl⟩ := hrecibe.recibe_inv
  simp only [Option.some.injEq, Prod.mk.injEq] at hpend
  obtain ⟨rfl, rfl⟩ := hpend
  simp only [hservidor, List.nil_append] at hronda
  rw [rondaServidor_peticion hpeticion] at hronda
  obtain ⟨⟨respuesta, s'⟩, hatender, heq⟩ := Option.map_eq_some_iff.mp hronda
  simp only [Prod.mk.injEq] at heq
  obtain ⟨rfl, rfl, rfl⟩ := heq
  simp only [hcliente, List.nil_append] at hrecibir hcodigo
  exact ⟨⟨u, bytes, hpeticion⟩, fuel, v, l, _, w, resto, hatender, hcodigo, hrecibir, rfl⟩

/-- A `muse_cpy` that returns went to a used block: what it leaves behind. -/
theorem cpy_of_run {dst : UInt32} {src : Mem} {n : Int32} (h : σ.EnReposo)
    (hrun : Run (SesionStep c) σ [.llama pid (.cpy dst src n), .atiende, .recibe r] σ') :
    0 ≤ n.toInt ∧ σ'.EnReposo ∧ σ'.servidor.memoria = copiar σ.servidor.memoria dst.toNat
      n.toUInt32.toNat (src.read 0 n.toInt.toNat) := by
  obtain ⟨⟨u, bytes, hpeticion⟩, fuel, v, l, respuesta, w, resto, hatender, hcodigo, hrecibir, hσ'⟩ :=
    atender_of_run h hrun
  have hn := (cabe_of_peticion hpeticion).1
  have hsize : n.toInt = (src.read 0 n.toInt.toNat).length := toInt_eq_length_read hn
  rw [Llamada.paquete, atender] at hatender
  obtain ⟨-, ⟨-, rfl, -⟩ | ⟨-, rfl, content, hcontent, -, hs'⟩⟩ := atenderCopy_eq_some hatender
  · exact absurd hcodigo (by decide)
  · rw [memcpyFrom_self hsize] at hcontent
    obtain rfl := Option.some.inj hcontent
    rw [recibir_cpy_getOk, Option.some.injEq, Prod.mk.injEq] at hrecibir
    obtain ⟨-, rfl⟩ := hrecibir
    rw [hσ', hs']
    exact ⟨hn, ⟨rfl, rfl, rfl⟩, rfl⟩

/-- The low bytes of the word a `GET` answers are the bytes in memory. -/
theorem take_word (m : Mem) (a : ℤ) :
    (leBytes 8 (UInt64.ofNat (m.readLe a 8)).toNat).take 4 = m.read a 4 := by
  have hlt : m.readLe a 8 < 2 ^ 64 := by simpa using Mem.readLe_lt (m := m) (a := a) (k := 8)
  rw [UInt64.toNat_ofNat_of_lt' hlt, Mem.readLe, leBytes_ofLeBytes Mem.length_read,
    Mem.read_append 4 4, List.take_left' Mem.length_read]

/-- What a `muse_get` copies, and that the server had eight bytes to read. -/
theorem get_of_run {src : UInt32} {n : UInt64} (h : σ.EnReposo)
    (hrun : Run (SesionStep c) σ [.llama pid (.get src n), .atiende, .recibe r] σ') :
    c.EnMemoria src.toNat 8 ∧ r = .vuelve (.get 0 (σ.servidor.memoria.read src.toNat 4)) := by
  obtain ⟨-, fuel, v, l, respuesta, w, resto, hatender, -, hrecibir, -⟩ := atender_of_run h hrun
  rw [Llamada.paquete, atender, atenderGet_eq, Option.ite_none_right_eq_some, Option.some.injEq,
    Prod.mk.injEq] at hatender
  obtain ⟨hsrc, hrespuesta, -⟩ := hatender
  rw [← hrespuesta, recibir_getOk, Option.some.injEq, Prod.mk.injEq] at hrecibir
  rw [← hrecibir.1, take_word]
  exact ⟨hsrc, rfl⟩

/-- A `muse_get` of bytes of `memoria` returns. -/
theorem exists_get (pid : Int32) (src : UInt32) (n : UInt64) (h : σ.EnReposo)
    (hsrc : c.EnMemoria src.toNat 8) :
    ∃ σ', Run (SesionStep c) σ [.llama pid (.get src n), .atiende,
      .recibe (.vuelve (.get 0 (σ.servidor.memoria.read src.toNat 4)))] σ' := by
  obtain ⟨bytes, hpeticion⟩ := exists_peticion ⟨0, fun _ => 0⟩ pid (.get src n) trivial
  have hatender : atender 0 c ⟨0, fun _ => 0⟩ ⟨0, 0⟩ σ.servidor ((Llamada.get src n).paquete pid)
      = some (_, _) := (atenderGet_eq _ _ _ _).trans (if_pos hsrc)
  have hrecibir := recibir_getOk (u := ⟨0, fun _ => 0⟩) src n
    (UInt64.ofNat (σ.servidor.memoria.readLe src.toNat 8))
  rw [take_word] at hrecibir
  exact ⟨_, run_llamada h hpeticion hatender (four_le_length_frame _) hrecibir⟩

end

/-! ## What comes back -/

/-- The first four bytes at the destination of a `COPY` of four or more are its content. -/
theorem read_copiar {m : Mem} {dst : ℤ} {size : ℕ} {content : Bytes} (h : 4 ≤ content.length) :
    (copiar m dst size content).read dst 4 = content.take 4 := by
  have hwhole : (copiar m dst size content).read dst content.length = content :=
    Mem.read_write_self
  obtain ⟨k, hk⟩ := Nat.exists_eq_add_of_le h
  rw [hk, Mem.read_append] at hwhole
  have htake := congrArg (List.take 4) hwhole
  rwa [List.take_left' Mem.length_read] at htake

/-- A `muse_cpy` to a used block succeeds, if the block and what it writes are in `memoria`. -/
theorem run_cpy {c : Config} {s : Globals} (pid n : Int32) (dst : UInt32) (src : Mem) (hcabe : Cabe n)
    (hdst : c.EnMemoria (dst.toNat - 5) 5) (hpasa : PasaCopy s.memoria dst.toNat)
    (hcontent : c.EnMemoria dst.toNat n.toInt.toNat) : ∃ s',
    Run (SesionStep c) ⟨s, [], [], none⟩
      [.llama pid (.cpy dst src n), .atiende, .recibe (.vuelve (.cpy 0))] ⟨s', [], [], none⟩ := by
  obtain ⟨bytes, hpeticion⟩ := exists_peticion ⟨0, fun _ => 0⟩ pid (.cpy dst src n) hcabe
  have hescrito : c.EnMemoria dst.toNat (src.read 0 n.toInt.toNat).length := by
    rwa [Mem.length_read]
  have hatender : atender 0 c ⟨0, fun _ => 0⟩ ⟨0, 0⟩ s ((Llamada.cpy dst src n).paquete pid)
      = some (_, _) := atenderCopy_usado (p := ⟨dst, pid, n, src.read 0 n.toInt.toNat⟩)
    (toInt_eq_length_read hcabe.1) hdst hpasa hescrito
  have hrecibir := recibir_cpy_getOk (u := ⟨0, fun _ => 0⟩) dst src n
    (comoGetOk ⟨0, fun _ => 0⟩ ⟨1⟩)
  rw [toI32_comoGetOk, if_pos (show (1 : Int32).toInt = 1 from rfl)] at hrecibir
  exact ⟨_, run_llamada ⟨rfl, rfl, rfl⟩ hpeticion hatender (four_le_length_frame _) hrecibir⟩

/-- A `muse_get` after a `muse_cpy` of the same `n` bytes returns exactly if the eight bytes that
the server reads are in `memoria`; and it gives the `n` bytes back, and writes no others, exactly
if `n` is four, or more and the buffer holds the rest already.  `src` and `buf` are the client's
memory from the two pointers on. -/
theorem read_after_write {c : Config} {σ σ₁ : Sesion} {pid : Int32} {dst : UInt32} {src : Mem}
    {n : Int32} (buf : Mem) (hreposo : σ.EnReposo)
    (hcpy : Run (SesionStep c) σ
      [.llama pid (.cpy dst src n), .atiende, .recibe (.vuelve (.cpy 0))] σ₁) :
    ((∃ r σ₂, Run (SesionStep c) σ₁ [.llama pid (.get dst (UInt64.ofNat n.toInt.toNat)), .atiende,
      .recibe r] σ₂) ↔ c.EnMemoria dst.toNat 8) ∧
    ∀ r σ₂, Run (SesionStep c) σ₁ [.llama pid (.get dst (UInt64.ofNat n.toInt.toNat)), .atiende,
        .recibe r] σ₂ →
      ∃ copiado, r = .vuelve (.get 0 copiado) ∧
        ((buf.write 0 copiado).read 0 n.toInt.toNat = src.read 0 n.toInt.toNat ∧
            copiado.length ≤ n.toInt.toNat ↔
          n.toInt = 4 ∨ 4 < n.toInt ∧ ∀ i : ℤ, 4 ≤ i → i < n.toInt → buf i = src i) := by
  obtain ⟨hn, hreposo₁, hmemoria⟩ := cpy_of_run hreposo hcpy
  refine ⟨⟨fun ⟨r, σ₂, hget⟩ => (get_of_run hreposo₁ hget).1, fun hdst => ?_⟩,
    fun r σ₂ hrun => ⟨_, (get_of_run hreposo₁ hrun).2, ?_⟩⟩
  · obtain ⟨σ₂, hget⟩ := exists_get pid dst (UInt64.ofNat n.toInt.toNat) hreposo₁ hdst
    exact ⟨_, σ₂, hget⟩
  obtain ⟨k, hk⟩ := Int.eq_ofNat_of_zero_le hn
  have hlen : ∀ a : ℤ, ((σ₁.servidor.memoria).read a 4).length = 4 := fun a => Mem.length_read
  rw [hk, Int.toNat_natCast, hlen]
  by_cases hfour : 4 ≤ k
  · have hread : σ₁.servidor.memoria.read dst.toNat 4 = src.read 0 4 := by
      have hlen' : 4 ≤ (src.read 0 n.toInt.toNat).length := by
        rw [Mem.length_read, hk]
        exact hfour
      rw [hmemoria, read_copiar hlen', hk, Int.toNat_natCast]
      obtain ⟨j, rfl⟩ := Nat.exists_eq_add_of_le hfour
      simp only [Mem.read_append, List.take_left' Mem.length_read]
    have hlow : ∀ i < 4, buf.write 0 (src.read 0 4) (0 + (i : ℕ)) = src (0 + (i : ℕ)) := by
      have hself : (buf.write 0 (src.read 0 4)).read 0 (src.read 0 4).length = src.read 0 4 :=
        Mem.read_write_self
      rw [Mem.length_read] at hself
      exact Mem.read_eq_read_iff.mp hself
    rw [hread, Mem.read_eq_read_iff]
    constructor
    · rintro ⟨h, -⟩
      rcases eq_or_lt_of_le hfour with hfour | hlt
      · exact .inl (by omega)
      refine .inr ⟨by omega, fun i hi hik => ?_⟩
      obtain ⟨j, rfl⟩ := Int.eq_ofNat_of_zero_le (by omega : 0 ≤ i)
      have hj := h j (by omega)
      rw [Mem.write_of_not_mem (by simp; omega)] at hj
      simpa using hj
    · intro h
      refine ⟨fun i hi => ?_, hfour⟩
      by_cases hi4 : i < 4
      · exact hlow i hi4
      rcases h with h | ⟨-, h⟩
      · omega
      · rw [Mem.write_of_not_mem (by simp; omega)]
        exact h _ (by omega) (by omega)
  · constructor
    · rintro ⟨-, h⟩
      exact absurd h hfour
    · rintro (h | ⟨h, -⟩) <;> omega

/-- The first block of eight bytes, behind a used header. -/
theorem malloc_ocho : ∃ s₁, atenderMalloc 200 ⟨96, 32, 0, 0⟩ ⟨0, 0⟩
      (museInit ⟨96, 32, 0, 0⟩ fun _ => 0) ⟨8, 1⟩ = some (⟨5⟩, s₁) ∧
    PasaCopy s₁.memoria (UInt32.toNat 5) := by
  have hserved : (atenderMalloc 200 ⟨96, 32, 0, 0⟩ ⟨0, 0⟩ (museInit ⟨96, 32, 0, 0⟩ fun _ => 0)
      ⟨8, 1⟩).map (fun r => (r.1, r.2.memoria 4)) = some (⟨5⟩, 0) := by
    decide +kernel
  obtain ⟨⟨r, s₁⟩, hmalloc, hvalues⟩ := Option.map_eq_some_iff.mp hserved
  obtain ⟨rfl, hlibre⟩ : r = ⟨5⟩ ∧ s₁.memoria 4 = 0 := by
    simpa using hvalues
  refine ⟨s₁, hmalloc, fun h => ?_⟩
  exact absurd (hlibre.symm.trans h) (by decide)

/-- Four bytes stored in a block of eight come back. -/
theorem read_after_write_four : ∃ (s₁ s₂ : Globals) (copiado : Bytes) (σ₂ : Sesion),
    Run (SesionStep ⟨96, 32, 0, 0⟩) (sesionInicial ⟨96, 32, 0, 0⟩ fun _ => 0)
      [.llama 1 (.alloc 8), .atiende, .recibe (.vuelve (.alloc 5))] ⟨s₁, [], [], none⟩ ∧
    Run (SesionStep ⟨96, 32, 0, 0⟩) ⟨s₁, [], [], none⟩
      [.llama 1 (.cpy 5 (fun _ => 42) 4), .atiende, .recibe (.vuelve (.cpy 0))] ⟨s₂, [], [], none⟩ ∧
    Run (SesionStep ⟨96, 32, 0, 0⟩) ⟨s₂, [], [], none⟩
      [.llama 1 (.get 5 4), .atiende, .recibe (.vuelve (.get 0 copiado))] σ₂ ∧
    (Mem.write (fun _ => 0) 0 copiado).read 0 4 = Mem.read (fun _ => 42) 0 4 := by
  obtain ⟨s₁, hmalloc, hpasa⟩ := malloc_ocho
  obtain ⟨s₂, hcpy⟩ := run_cpy (c := ⟨96, 32, 0, 0⟩) 1 4 5 (fun _ => 42) (by decide) (by decide) hpasa (by decide)
  obtain ⟨hreturns, hback⟩ := read_after_write (fun _ => 0) ⟨rfl, rfl, rfl⟩ hcpy
  obtain ⟨r, σ₂, hget⟩ := hreturns.mpr (by decide)
  obtain ⟨copiado, rfl, hiff⟩ := hback r σ₂ hget
  exact ⟨s₁, s₂, copiado, σ₂, run_alloc hmalloc, hcpy, hget, (hiff.mpr (.inl rfl)).1⟩

/-- Of eight bytes stored in a block of eight, the last four do not come back. -/
theorem read_after_write_short : ∃ c σ copiado, ∃ src buf : Mem,
    Run (SesionStep c) (sesionInicial c fun _ => 0)
      [.llama 1 (.alloc 8), .atiende, .recibe (.vuelve (.alloc 5)),
        .llama 1 (.cpy 5 src 8), .atiende, .recibe (.vuelve (.cpy 0)),
        .llama 1 (.get 5 8), .atiende, .recibe (.vuelve (.get 0 copiado))] σ ∧
    (buf.write 0 copiado).read 0 8 ≠ src.read 0 8 := by
  obtain ⟨s₁, hmalloc, hpasa⟩ := malloc_ocho
  obtain ⟨s₂, hcpy⟩ := run_cpy (c := ⟨96, 32, 0, 0⟩) 1 8 5 (fun _ => 42) (by decide) (by decide) hpasa (by decide)
  obtain ⟨σ, hget⟩ := exists_get (c := ⟨96, 32, 0, 0⟩) 1 5 8
    (show (⟨s₂, [], [], none⟩ : Sesion).EnReposo from ⟨rfl, rfl, rfl⟩) (by decide)
  refine ⟨_, σ, _, _, fun _ => 0, (run_alloc hmalloc).append (hcpy.append hget), fun h => ?_⟩
  -- the fifth byte of the buffer was not written
  have hfifth := Mem.read_eq_read_iff.mp h 4 (by decide)
  rw [Mem.write_of_not_mem (by simp)] at hfifth
  exact absurd hfifth (by decide)

end Threaders.Muse
