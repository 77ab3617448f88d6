import Threaders.Lib.Run
import Threaders.Muse.Client
import Threaders.Muse.Server

/-!
# The connection between the library and the server

One connection carries the requests one way and the replies the other.  A step of the
session is a call putting its request on it, an iteration of the server's loop, or a call
taking its reply off it.

## Main definitions

* `Sesion`, `SesionStep` — the state of the connection and its steps.
* `Enviada` — the calls whose request is sent.
* `rondaServidor_peticion` — what the server does with a request.
* `run_llamada` — a call that is answered, from a session at rest.
-/

namespace Threaders.Muse

open Lib Common

/-! ## Sessions -/

/-- The server, the unread bytes of each direction, and the call that waits for a reply. -/
structure Sesion where
  servidor : Globals
  haciaServidor : Bytes
  haciaCliente : Bytes
  pendiente : Option (Int32 × Llamada)

/-- The session right after the connection is made. -/
def sesionInicial (c : Config) (m : Mem) : Sesion := ⟨museInit c m, [], [], none⟩

/-- No call is under way and nothing is unread. -/
def Sesion.EnReposo (σ : Sesion) : Prop :=
  σ.pendiente = none ∧ σ.haciaServidor = [] ∧ σ.haciaCliente = []

/-- What happens in a session. -/
inductive Evento
  | llama (pid : Int32) (ll : Llamada)
  | atiende
  | recibe (r : Resultado)

/-- The steps of a session.  A `recv` of an operation code waits until one has come; a call
that uses `NULL` takes no step. -/
inductive SesionStep (c : Config) : Sesion → Evento → Sesion → Prop
  | llama {σ : Sesion} {u : Uninit} {pid : Int32} {ll : Llamada} {bytes : Bytes}
      (hlibre : σ.pendiente = none) (h : ll.peticion u pid = some bytes) :
      SesionStep c σ (.llama pid ll)
        { σ with haciaServidor := σ.haciaServidor ++ bytes, pendiente := some (pid, ll) }
  | atiende {σ : Sesion} {fuel : ℕ} {u : Uninit} {l : Locales} {resto enviado : Bytes}
      {s : Globals} (hcodigo : 4 ≤ σ.haciaServidor.length)
      (h : rondaServidor fuel c u l σ.servidor σ.haciaServidor = some (resto, s, enviado)) :
      SesionStep c σ .atiende
        { σ with
          servidor := s
          haciaServidor := resto
          haciaCliente := σ.haciaCliente ++ enviado }
  | recibe {σ : Sesion} {u : Uninit} {pid : Int32} {ll : Llamada} {r : Resultado} {resto : Bytes}
      (hpendiente : σ.pendiente = some (pid, ll)) (hcodigo : 4 ≤ σ.haciaCliente.length)
      (h : recibir u ll σ.haciaCliente = some (r, resto)) (hnulo : r ≠ .nulo) :
      SesionStep c σ (.recibe r) { σ with haciaCliente := resto, pendiente := none }

namespace SesionStep

variable {c : Config} {σ σ' : Sesion} {pid : Int32} {ll : Llamada} {r : Resultado}

theorem llama_inv (h : SesionStep c σ (.llama pid ll) σ') : σ.pendiente = none ∧
    ∃ u bytes, ll.peticion u pid = some bytes ∧ σ' =
      { σ with haciaServidor := σ.haciaServidor ++ bytes, pendiente := some (pid, ll) } := by
  cases h with
  | llama hlibre h => exact ⟨hlibre, _, _, h, rfl⟩

theorem atiende_inv (h : SesionStep c σ .atiende σ') : 4 ≤ σ.haciaServidor.length ∧
    ∃ fuel u l resto s enviado,
      rondaServidor fuel c u l σ.servidor σ.haciaServidor = some (resto, s, enviado) ∧
      σ' = ⟨s, resto, σ.haciaCliente ++ enviado, σ.pendiente⟩ := by
  cases h with
  | atiende hcodigo h => exact ⟨hcodigo, _, _, _, _, _, _, h, rfl⟩

theorem recibe_inv (h : SesionStep c σ (.recibe r) σ') : 4 ≤ σ.haciaCliente.length ∧
    ∃ u pid ll resto, σ.pendiente = some (pid, ll) ∧
      recibir u ll σ.haciaCliente = some (r, resto) ∧
      σ' = ⟨σ.servidor, σ.haciaServidor, resto, none⟩ := by
  cases h with
  | recibe hpendiente hcodigo h hnulo => exact ⟨hcodigo, _, _, _, _, hpendiente, h, rfl⟩

end SesionStep

/-! ## Requests as messages -/

/-- The request of a `muse_cpy` fits an `int`. -/
def Cabe (n : Int32) : Prop := 0 ≤ n.toInt ∧ n.toInt + 36 < 2147483648

instance (n : Int32) : Decidable (Cabe n) := inferInstanceAs (Decidable (_ ∧ _))

/-- The calls whose request is sent. -/
def Enviada : Llamada → Prop
  | .cpy _ _ n => Cabe n
  | _ => True

section
variable {c : Config} {s s' : Globals} {pid : Int32} {u : Uninit} {ll : Llamada} {bytes : Bytes}
  {fuel : ℕ} {l : Locales}

theorem toInt_eq_length_read {src : Mem} {n : Int32} (h : 0 ≤ n.toInt) :
    n.toInt = (src.read 0 n.toInt.toNat).length := by
  rw [Mem.length_read, Int.toNat_of_nonneg h]

/-- A `muse_cpy` whose request does not fit sends none. -/
theorem cabe_of_peticion {dst : UInt32} {src : Mem} {n : Int32}
    (h : (Llamada.cpy dst src n).peticion u pid = some bytes) : Cabe n :=
  copy_fits_of_send h

/-- A request that is sent is the frame of a message. -/
theorem peticion_eq (h : ll.peticion u pid = some bytes) : ∃ m : Message,
    m.protocol = ll.protocolo ∧ m.package = ll.paquete pid ∧ bytes = m.frame ∧
      m.body.length + 8 < 2147483648 := by
  have of_message : ∀ m : Message, m.protocol = ll.protocolo → m.package = ll.paquete pid →
      m.body.length + 8 < 2147483648 → ∃ m : Message, m.protocol = ll.protocolo ∧
        m.package = ll.paquete pid ∧ bytes = m.frame ∧ m.body.length + 8 < 2147483648 := by
    intro m hprotocol hpackage hfits
    have hsend := send_of_fits u m hfits
    rw [send, hprotocol, hpackage] at hsend
    exact ⟨m, hprotocol, hpackage, Option.some.inj (h.symm.trans hsend), hfits⟩
  cases ll with
  | alloc tam => exact of_message (.malloc ⟨tam, pid⟩) rfl rfl (by simp [Message.body, Message.parts])
  | free dir => exact of_message (.memfree ⟨dir, pid⟩) rfl rfl (by simp [Message.body, Message.parts])
  | get src n =>
      exact of_message (.get ⟨src, pid, n.toUInt32.toInt32⟩) rfl rfl
        (by simp [Message.body, Message.parts])
  | cpy dst src n =>
      obtain ⟨hn, hcabe⟩ := cabe_of_peticion h
      refine of_message (.copy ⟨dst, pid, n, src.read 0 n.toInt.toNat⟩ (toInt_eq_length_read hn))
        rfl rfl ?_
      simp only [Message.body, Message.parts, encodeParts_cons, encodeParts_nil, List.length_append,
        length_lengthBytes, length_uint32Bytes, length_intBytes, Mem.length_read, List.length_nil]
      omega

theorem protocolo_caso (ll : Llamada) : ll.protocolo = .malloc ∨ ll.protocolo = .memfree ∨
    ll.protocolo = .get ∨ ll.protocolo = .copy := by
  cases ll <;> simp [Llamada.protocolo]

/-- The server takes a request whole and hands it to its case. -/
theorem rondaServidor_peticion (h : ll.peticion u pid = some bytes) (v : Uninit) :
    rondaServidor fuel c v l s bytes
      = (atender fuel c v l s (ll.paquete pid)).map fun r => ([], r.2, r.1) := by
  obtain ⟨m, hprotocol, hpackage, rfl, hfits⟩ := peticion_eq h
  have hcaso := protocolo_caso ll
  rw [← hprotocol] at hcaso
  have hronda : rondaServidor fuel c v l s (m.frame ++ []) = _ :=
    rondaServidor_frame (by omega) hcaso
  rwa [List.append_nil, hpackage] at hronda

/-- Every request is sent, save that of a `muse_cpy` that does not fit. -/
theorem exists_peticion (u : Uninit) (pid : Int32) (ll : Llamada) (h : Enviada ll) :
    ∃ bytes, ll.peticion u pid = some bytes := by
  cases ll with
  | alloc tam => exact ⟨_, send_of_fits u (.malloc ⟨tam, pid⟩) (by simp [Message.body, Message.parts])⟩
  | free dir => exact ⟨_, send_of_fits u (.memfree ⟨dir, pid⟩) (by simp [Message.body, Message.parts])⟩
  | get src n =>
      exact ⟨_, send_of_fits u (.get ⟨src, pid, n.toUInt32.toInt32⟩)
        (by simp [Message.body, Message.parts])⟩
  | cpy dst src n =>
      obtain ⟨hn, hcabe⟩ := h
      refine ⟨_, send_of_fits u
        (.copy ⟨dst, pid, n, src.read 0 n.toInt.toNat⟩ (toInt_eq_length_read hn)) ?_⟩
      simp only [Message.body, Message.parts, encodeParts_cons, encodeParts_nil, List.length_append,
        length_lengthBytes, length_uint32Bytes, length_intBytes, Mem.length_read, List.length_nil]
      omega

theorem four_le_length_frame (m : Message) : 4 ≤ m.frame.length := by
  rw [length_frame]
  omega

theorem atender_malloc (v : Uninit) (p : TMalloc) : atender fuel c v l s (.malloc p)
    = (atenderMalloc fuel c l s p).map fun r => ((Message.mallocOk r.1).frame, r.2) := by
  simp only [atender, send_mallocOk, Option.bind_eq_bind, Option.bind_some]
  cases atenderMalloc fuel c l s p <;> rfl

end

/-! ## Calls from a session at rest -/

/-- A call that is answered and returns, from a session at rest. -/
theorem run_llamada {c : Config} {σ : Sesion} {u v w : Uninit} {l : Locales} {fuel : ℕ} {pid : Int32}
    {ll : Llamada} {bytes respuesta : Bytes} {s' : Globals} {valor : Valor} (h : σ.EnReposo)
    (hpeticion : ll.peticion u pid = some bytes)
    (hatender : atender fuel c v l σ.servidor (ll.paquete pid) = some (respuesta, s'))
    (hcodigo : 4 ≤ respuesta.length) (hrecibir : recibir w ll respuesta = some (.vuelve valor, [])) :
    Run (SesionStep c) σ [.llama pid ll, .atiende, .recibe (.vuelve valor)] ⟨s', [], [], none⟩ := by
  obtain ⟨hpendiente, hservidor, hcliente⟩ := h
  have hronda : rondaServidor fuel c v l σ.servidor (σ.haciaServidor ++ bytes)
      = some ([], s', respuesta) := by
    rw [hservidor, List.nil_append, rondaServidor_peticion hpeticion, hatender]
    rfl
  have hbytes : 4 ≤ (σ.haciaServidor ++ bytes).length := by
    obtain ⟨m, -, -, rfl, -⟩ := peticion_eq hpeticion
    have := four_le_length_frame m
    rw [List.length_append]
    omega
  refine .cons (.llama hpendiente hpeticion) (.cons (.atiende hbytes hronda) ?_)
  have hrecibe : SesionStep c ⟨s', [], σ.haciaCliente ++ respuesta, some (pid, ll)⟩
      (.recibe (.vuelve valor)) ⟨s', [], [], none⟩ := by
    rw [hcliente, List.nil_append]
    exact .recibe rfl hcodigo hrecibir nofun
  exact .single hrecibe

/-- A `muse_alloc` that the server serves returns the address. -/
theorem run_alloc {fuel : ℕ} {c : Config} {l : Locales} {s s' : Globals} {pid : Int32} {tam : UInt32}
    {r : TMallocOk} (hmalloc : atenderMalloc fuel c l s ⟨tam, pid⟩ = some (r, s')) :
    Run (SesionStep c) ⟨s, [], [], none⟩
      [.llama pid (.alloc tam), .atiende, .recibe (.vuelve (.alloc r.ptr))] ⟨s', [], [], none⟩ := by
  obtain ⟨bytes, hpeticion⟩ := exists_peticion ⟨0, fun _ => 0⟩ pid (.alloc tam) trivial
  have hatender : atender fuel c ⟨0, fun _ => 0⟩ l s ((Llamada.alloc tam).paquete pid)
      = some ((Message.mallocOk r).frame, s') := by
    rw [Llamada.paquete, atender_malloc, hmalloc]
    rfl
  have hrecibir : recibir ⟨0, fun _ => 0⟩ (.alloc tam) (Message.mallocOk r).frame
      = some (.vuelve (.alloc r.ptr), []) := recibir_mallocOk tam r
  exact run_llamada ⟨rfl, rfl, rfl⟩ hpeticion hatender (four_le_length_frame _) hrecibir

/-- A call with nothing on the connection waits for ever. -/
theorem not_step_of_nil {c : Config} {σ : Sesion} (hpendiente : σ.pendiente ≠ none)
    (hservidor : σ.haciaServidor = []) (hcliente : σ.haciaCliente = []) (e : Evento) (σ' : Sesion) :
    ¬ SesionStep c σ e σ' := by
  intro hstep
  cases hstep with
  | llama hlibre => exact hpendiente hlibre
  | atiende hcodigo => simp [hservidor] at hcodigo
  | recibe _ hcodigo => simp [hcliente] at hcodigo

end Threaders.Muse
