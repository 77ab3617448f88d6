import Threaders.Muse.LocalCalls
import Threaders.Muse.Montones

/-!
# What a client keeps

The calls of a session reach the heaps of the server as the requests that the client library makes
of them. So what a first `muse_alloc` returned, if it did, is kept for its process through all of
them: a `muse_cpy` of as many bytes goes there, and a `muse_get` brings back the start of what was
copied there last, whatever calls are made in between.

## Main definitions

* `SesionCuidada` — the sessions whose server takes careful requests.
* `trasLlamadas` — what the calls of a session leave in a block.
* `calls_keep_first_block` — what comes back.
-/

namespace Threaders.Muse

open Lib Common

/-- A step of a session, in which the server takes a careful request. -/
def SesionCuidada (c : Config) (σ : Sesion) (e : Evento) (σ' : Sesion) : Prop :=
  SesionStep c σ e σ' ∧ ∀ pid ll, e = .atiende → σ.pendiente = some (pid, ll) →
    Cuidada c σ.servidor (ll.paquete pid)

/-- The request of the call that an event makes. -/
def Evento.paquete (e : Evento) : Option Package :=
  e.llamada.map fun llamada => llamada.2.paquete llamada.1

/-- The bytes of the block at `ptr`, behind the calls of a session. -/
def trasLlamadas (ptr : UInt32) (v : Bytes) (es : List Evento) : Bytes :=
  Heaps.lastStored (ptr.toNat : ℤ) v ((es.filterMap Evento.paquete).map orden)

section
variable {c : Config} {σ σ' : Sesion} {s s' : Globals} {e : Evento} {es : List Evento}
  {as : List (Int32 × Llamada)} {bs : List Resultado} {pid : Int32} {ll : Llamada} {r : Resultado}

/-! ## Sessions and requests -/

theorem SesionCuidada.run (h : Run (SesionCuidada c) σ es σ') : Run (SesionStep c) σ es σ' := by
  induction h with
  | nil σ => exact .nil σ
  | cons hstep _ ih => exact .cons hstep.1 ih

/-- A request is careful when the server takes it. -/
theorem EnCamino.step_cuidada (h : EnCamino σ s as bs) (hstep : SesionCuidada c σ e σ') :
    ∃ ps s' as' bs', Run (AtiendeCuidada c) s ps s' ∧
      (as.map fun llamada => llamada.2.paquete llamada.1) ++ e.paquete.toList =
        ps ++ as'.map (fun llamada => llamada.2.paquete llamada.1) ∧
      EnCamino σ' s' as' bs' := by
  obtain ⟨hstep, hcuidada⟩ := hstep
  rcases h.step_cases hstep with ⟨pid, ll, rfl, rfl, rfl, hnext⟩ |
    ⟨pid, ll, r, t, rfl, rfl, rfl, rfl, hpendiente, hlocal, hnext⟩ | ⟨r, rfl, rfl, rfl, hnext⟩
  · exact ⟨[], s, _, _, .nil s, rfl, hnext⟩
  · exact ⟨_, t, _, _, .single ⟨hcuidada pid ll rfl hpendiente, hlocal.atiende⟩, rfl, hnext⟩
  · exact ⟨[], s, _, _, .nil s, rfl, hnext⟩

/-- Between two moments of rest the calls of a session are a run of requests. -/
theorem run_atiendeCuidada (h : Run (SesionCuidada c) σ es σ') (hreposo : σ.EnReposo)
    (hreposo' : σ'.EnReposo) :
    Run (AtiendeCuidada c) σ.servidor (es.filterMap Evento.paquete) σ'.servidor := by
  suffices hrun : ∀ {as : List (Int32 × Llamada)} {bs : List Resultado} {s : Globals},
      EnCamino σ s as bs → ∃ ps, Run (AtiendeCuidada c) s ps σ'.servidor ∧
        (as.map fun llamada => llamada.2.paquete llamada.1) ++ es.filterMap Evento.paquete = ps by
    obtain ⟨ps, hps, rfl⟩ := hrun (.of_reposo hreposo)
    exact hps
  clear hreposo
  induction h with
  | nil σ =>
      intro as bs s hcamino
      obtain ⟨-, rfl, rfl, -⟩ := hcamino.reposo_inv hreposo'.1
      exact ⟨[], .nil _, rfl⟩
  | @cons σ₁ σ₂ σ₃ e es hstep _ ih =>
      intro as bs s hcamino
      obtain ⟨ps, t, as', bs', hfirst, hasked, hnext⟩ := hcamino.step_cuidada hstep
      obtain ⟨qs, hrest, rfl⟩ := ih hreposo' hnext
      refine ⟨_, hfirst.append hrest, ?_⟩
      rw [Run.filterMap_cons_eq, ← List.append_assoc, hasked, List.append_assoc]

/-- A call, its request and its reply. -/
theorem cuidada_of_run
    (h : Run (SesionCuidada c) σ [.llama pid ll, .atiende, .recibe r] σ') :
    Cuidada c σ.servidor (ll.paquete pid) := by
  obtain ⟨σ₁, ⟨hllama, -⟩, h⟩ := Run.cons_iff.mp h
  obtain ⟨-, u, bytes, -, rfl⟩ := hllama.llama_inv
  obtain ⟨σ₂, ⟨-, hcuidada⟩, -⟩ := Run.cons_iff.mp h
  exact hcuidada pid ll rfl rfl

theorem run_cuidada (h : Run (SesionStep c) σ [.llama pid ll, .atiende, .recibe r] σ')
    (hcuidada : Cuidada c σ.servidor (ll.paquete pid)) :
    Run (SesionCuidada c) σ [.llama pid ll, .atiende, .recibe r] σ' := by
  obtain ⟨σ₁, hllama, hrest⟩ := Run.cons_iff.mp h
  obtain ⟨σ₂, hatiende, hreply⟩ := Run.cons_iff.mp hrest
  obtain ⟨σ₃, hrecibe, hend⟩ := Run.cons_iff.mp hreply
  obtain ⟨-, u, bytes, -, rfl⟩ := hllama.llama_inv
  refine .cons ⟨hllama, nofun⟩ (.cons ⟨hatiende, ?_⟩ (.cons ⟨hrecibe, nofun⟩ ?_))
  · rintro pid' ll' - heq
    obtain ⟨rfl, rfl⟩ := Prod.mk.inj (Option.some.inj heq)
    exact hcuidada
  · exact Run.nil_iff.mp hend ▸ .nil _

end

/-! ## What comes back -/

/-- **What a client keeps.**  At rest anywhere in a session of careful requests, suppose that a
process's first `muse_alloc` leaves room and returns.  At rest anywhere later, whatever calls any of the
processes has made, a `muse_get` from the address that was returned returns, and copies the first
four bytes of what was copied there last; and a `muse_cpy` of as many bytes as were asked for to
there returns 0, and is careful. -/
theorem calls_keep_first_block {c : Config} {m : Mem} {es es' : List Evento} {σ σ₁ σ₂ : Sesion}
    {pid : Int32} {tam ptr : UInt32}
    (h : Run (SesionCuidada c) (sesionInicial c m) es σ) (hreposo : σ.EnReposo)
    (hnuevo : segmentos σ.servidor pid = []) (hlibre : ¬ NoHayMemoria c σ.servidor ⟨tam, pid⟩)
    (halloc : Run (SesionCuidada c) σ
      [.llama pid (.alloc tam), .atiende, .recibe (.vuelve (.alloc ptr))] σ₁)
    (h' : Run (SesionCuidada c) σ₁ es' σ₂) (hreposo' : σ₂.EnReposo) :
    (4 ≤ tam.toNat → ∀ pid' n,
      (∃ r σ₃, Run (SesionStep c) σ₂ [.llama pid' (.get ptr n), .atiende, .recibe r] σ₃) ∧
      ∀ r σ₃, Run (SesionStep c) σ₂ [.llama pid' (.get ptr n), .atiende, .recibe r] σ₃ →
        r = .vuelve (.get 0 ((trasLlamadas ptr
          (σ₁.servidor.memoria.read ptr.toNat tam.toNat) es').take 4))) ∧
    ∀ pid' src n, Cabe n → n.toInt = tam.toNat → ∃ σ₃, Run (SesionCuidada c) σ₂
      [.llama pid' (.cpy ptr src n), .atiende, .recibe (.vuelve (.cpy 0))] σ₃ := by
  have hcuidada := cuidada_of_run halloc
  obtain ⟨hmalloc, hreposo₁⟩ := malloc_of_run hreposo (SesionCuidada.run halloc)
  have hbefore := run_atiendeCuidada h ⟨rfl, rfl, rfl⟩ hreposo
  have hafter := run_atiendeCuidada h' hreposo₁ hreposo'
  obtain ⟨H, -, hs⟩ := (montado_museInit c m).run hbefore
  obtain ⟨hocho, H₁, v, ht, hlength, hmem⟩ := hs.primero hnuevo hcuidada hlibre hmalloc
  obtain ⟨H₂, hs₂, hlater, hkept, hread, hheader⟩ := ht.keeps hmem hafter
  have hfirst := (ht.1.used hmem).1
  dsimp only at hmem hlater hkept hread hheader hfirst hlength
  rw [hlength] at hfirst hread hheader
  constructor
  · intro hcuatro pid' n
    obtain ⟨σ₃, hget⟩ := exists_get pid' ptr n hreposo' hocho
    refine ⟨⟨_, σ₃, hget⟩, fun r σ₃ hrun => ?_⟩
    rw [(get_of_run hreposo' hrun).2, trasLlamadas, hfirst, ← hread, Mem.take_read hcuatro]
  · intro pid' src n hcabe hn
    obtain ⟨s, hacia, desde, pendiente⟩ := σ₂
    obtain ⟨rfl, rfl, rfl⟩ := hreposo'
    obtain ⟨hdst, hdentro⟩ := hs₂.1.used_dentro hlater
    have hbytes : n.toInt.toNat = (Heaps.lastStored (ptr.toNat : ℤ) v _).length :=
      (hn ▸ Int.toNat_natCast _).trans (hkept.trans hlength).symm
    obtain ⟨s', hcpy⟩ := run_cpy pid' n ptr src hcabe hdst
      (pasaCopy_of_usado (congrArg HeapMetadata.libre hheader)) (hbytes ▸ hdentro)
    refine ⟨_, run_cuidada hcpy (hs₂.1.cuidada_copy hlater (toInt_eq_length_read hcabe.1) ?_)⟩
    rw [Mem.length_read, hn, Int.toNat_natCast, hkept, hlength]

/-- Five bytes for the first process, filled by it, and read by the second one. -/
theorem calls_keep_first_block_cinco : ∃ σ₁ σ₂ σ₃,
    Run (SesionCuidada ⟨96, 32, 0, 0⟩) (sesionInicial ⟨96, 32, 0, 0⟩ fun _ => 0)
      [.llama 1 (.alloc 5), .atiende, .recibe (.vuelve (.alloc 5))] σ₁ ∧
    Run (SesionCuidada ⟨96, 32, 0, 0⟩) σ₁
      [.llama 1 (.cpy 5 (fun _ => 42) 5), .atiende, .recibe (.vuelve (.cpy 0))] σ₂ ∧
    Run (SesionStep ⟨96, 32, 0, 0⟩) σ₂
      [.llama 2 (.get 5 4), .atiende, .recibe (.vuelve (.get 0 [42, 42, 42, 42]))] σ₃ := by
  obtain ⟨s, -, -, hserved, hmalloc, -⟩ := copia_cinco
  have halloc : Run (SesionCuidada ⟨96, 32, 0, 0⟩) (sesionInicial ⟨96, 32, 0, 0⟩ fun _ => 0)
      [.llama 1 (.alloc 5), .atiende, .recibe (.vuelve (.alloc 5))] ⟨s, [], [], none⟩ :=
    run_cuidada (run_alloc hserved) hmalloc.1
  have hinicio : (sesionInicial ⟨96, 32, 0, 0⟩ fun _ => 0).EnReposo := ⟨rfl, rfl, rfl⟩
  have hreposo : (⟨s, [], [], none⟩ : Sesion).EnReposo := ⟨rfl, rfl, rfl⟩
  have hafter := fun es σ (h : Run (SesionCuidada _) _ es σ) h' =>
    calls_keep_first_block (.nil _) hinicio rfl (by decide) halloc h h'
  obtain ⟨σ₂, hcpy⟩ := (hafter [] _ (.nil _) hreposo).2 1 (fun _ => 42) 5 (by decide) (by decide)
  have hreposo₂ := (cpy_of_run hreposo (SesionCuidada.run hcpy)).2.1
  obtain ⟨⟨r, σ₃, hget⟩, hback⟩ := (hafter _ σ₂ hcpy hreposo₂).1 (by decide) 2 4
  obtain rfl : r = .vuelve (.get 0 [42, 42, 42, 42]) := hback r σ₃ hget
  exact ⟨_, σ₂, σ₃, halloc, hcpy, hget⟩

end Threaders.Muse
