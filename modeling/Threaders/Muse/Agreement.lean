import Threaders.Muse.AnsweredMallocs
import Threaders.Muse.PreviousBlock
import Threaders.Muse.Reparto
import Threaders.Muse.Session

/-!
# The agreement of the library and the server

A call and the server agree where the server takes the request, sends one reply, and the call
takes it whole.  What spoils it are the refusals, of which `COPY` sends nothing and `MEMFREE` a
code that `muse_free` has no case for; the loops that do not end; and the addresses and sizes
that lead out of `memoria`, which the server does not survive.

## Main definitions

* `Acuerdo` — a call and the server agree on one reply.
* `Cumple` — the calls that they agree on.
* `session_agreement` — agreement, of calls and of runs.
-/

namespace Threaders.Muse

open Lib Common

/-! ## Agreement on a call -/

/-- One reply with an operation code, which the call returns from and takes whole. -/
def Respondida (ll : Llamada) (respuesta : Bytes) : Prop :=
  4 ≤ respuesta.length ∧ ∀ u, ∃ valor, recibir u ll respuesta = some (.vuelve valor, [])

/-- Once its request is sent, the server takes it whole and sends one reply, which the
call handles and takes whole. -/
def Acuerdo (c : Config) (s : Globals) (pid : Int32) (ll : Llamada) : Prop :=
  ∀ u bytes, ll.peticion u pid = some bytes → ∀ v l,
    (∃ fuel x, rondaServidor fuel c v l s bytes = some x) ∧
    ∀ fuel resto s' respuesta, rondaServidor fuel c v l s bytes = some (resto, s', respuesta) →
      resto = [] ∧ Respondida ll respuesta

/-- The calls the two sides agree on.  A `MALLOC` and a `MEMFREE` get through; what a `GET` and a
`COPY` read and write is in `memoria`; the `MEMFREE` and the `COPY` are not refused. -/
def Cumple (c : Config) (s : Globals) (pid : Int32) : Llamada → Prop
  | .alloc tam => MallocSano c s ⟨tam, pid⟩
  | .free dir => Aceptada c s ⟨dir, pid⟩ ∧ LiberacionSana c s ⟨dir, pid⟩
  | .get src _ => c.EnMemoria src.toNat 8
  | .cpy dst _ n => Cabe n → c.EnMemoria (dst.toNat - 5) 5 ∧ PasaCopy s.memoria dst.toNat ∧
      c.EnMemoria dst.toNat n.toInt.toNat

/-- The states that requests lead to. -/
theorem lockstep_of_reachable {c : Config} {m : Mem} {s : Globals}
    (h : Reachable (Atiende c) (museInit c m) s) : (∃ k, Lockstep c s k) ∧ BaseCero s := by
  have hinv : (∃ r, Refleja c s r) ∧ BaseCero s :=
    h.invariant (P := fun s => (∃ r, Refleja c s r) ∧ BaseCero s)
      (fun s peticion s' ⟨⟨r, hr⟩, hbase⟩ hstep => ⟨⟨_, hr.step hstep⟩, hbase.atiende hstep⟩)
      ⟨⟨_, refleja_museInit c m⟩, fun nodo hnodo => absurd hnodo List.not_mem_nil⟩
  obtain ⟨⟨r, hr⟩, hbase⟩ := hinv
  exact ⟨⟨_, hr.lockstep⟩, hbase⟩

/-! ## When a call and the server agree -/

section
variable {c : Config} {s s' : Globals} {pid : Int32} {u : Uninit} {ll : Llamada} {bytes : Bytes}
  {fuel : ℕ} {l : Locales}

/-- Agreement in terms of the server's cases. -/
theorem acuerdo_iff : Acuerdo c s pid ll ↔ (∃ u bytes, ll.peticion u pid = some bytes) → ∀ v l,
    (∃ fuel x, atender fuel c v l s (ll.paquete pid) = some x) ∧
    ∀ fuel s' respuesta, atender fuel c v l s (ll.paquete pid) = some (respuesta, s') →
      Respondida ll respuesta := by
  constructor
  · rintro h ⟨u, bytes, hbytes⟩ v l
    obtain ⟨⟨fuel, x, hx⟩, hreply⟩ := h u bytes hbytes v l
    simp only [rondaServidor_peticion hbytes] at hx hreply
    obtain ⟨y, hy, -⟩ := Option.map_eq_some_iff.mp hx
    refine ⟨⟨fuel, y, hy⟩, fun fuel s' respuesta hserved => ?_⟩
    exact (hreply fuel [] s' respuesta (by rw [hserved]; rfl)).2
  · intro h u bytes hbytes v l
    obtain ⟨⟨fuel, x, hx⟩, hreply⟩ := h ⟨u, bytes, hbytes⟩ v l
    simp only [rondaServidor_peticion hbytes]
    refine ⟨⟨fuel, _, by rw [hx]; rfl⟩, fun fuel resto s' respuesta hserved => ?_⟩
    obtain ⟨⟨respuesta', s''⟩, hserved', heq⟩ := Option.map_eq_some_iff.mp hserved
    simp only [Prod.mk.injEq] at heq
    obtain ⟨rfl, rfl, rfl⟩ := heq
    exact ⟨rfl, hreply fuel _ _ hserved'⟩

theorem respondida_alloc (tam : UInt32) (res : TMallocOk) :
    Respondida (.alloc tam) (Message.mallocOk res).frame :=
  ⟨four_le_length_frame _, fun _ => ⟨_, recibir_mallocOk tam res⟩⟩

theorem respondida_free (dir : UInt32) (res : TFreeResponse) :
    Respondida (.free dir) (Message.freeResponse res).frame :=
  ⟨four_le_length_frame _, fun _ => ⟨_, recibir_freeResponse dir res⟩⟩

theorem respondida_get (src : UInt32) (n res : UInt64) :
    Respondida (.get src n) (Message.getOk ⟨res, 4⟩).frame :=
  ⟨four_le_length_frame _, fun _ => ⟨_, recibir_getOk src n res⟩⟩

theorem respondida_cpy (dst : UInt32) (src : Mem) (n : Int32) (p : TGetOk) :
    Respondida (.cpy dst src n) (Message.getOk p).frame :=
  ⟨four_le_length_frame _, fun _ => ⟨_, recibir_cpy_getOk dst src n p⟩⟩

theorem not_respondida_nil : ¬ Respondida ll [] := fun h => absurd h.1 (by decide)

theorem not_respondida_segFault (dir : UInt32) : ¬ Respondida (.free dir) (codigo .segFault) := by
  intro h
  obtain ⟨valor, hvalor⟩ := h.2 ⟨0, fun _ => 0⟩
  rw [codigo, recibir_free_segFault] at hvalor
  cases hvalor

/-- A call that is always sent agrees with the server where its case is answered so. -/
theorem acuerdo_of_enviada (h : Enviada ll) : Acuerdo c s pid ll ↔ ∀ v l,
    (∃ fuel x, atender fuel c v l s (ll.paquete pid) = some x) ∧
    ∀ fuel s' respuesta, atender fuel c v l s (ll.paquete pid) = some (respuesta, s') →
      Respondida ll respuesta := by
  rw [acuerdo_iff]
  exact ⟨fun h' => h' ⟨⟨0, fun _ => 0⟩, exists_peticion _ _ _ h⟩, fun h' _ => h'⟩

theorem acuerdo_alloc_iff {tam : UInt32} (hlock : ∃ k, Lockstep c s k) (hbase : BaseCero s) :
    Acuerdo c s pid (.alloc tam) ↔ MallocSano c s ⟨tam, pid⟩ := by
  obtain ⟨k, hlock⟩ := hlock
  rw [acuerdo_of_enviada (show Enviada (.alloc tam) from trivial)]
  simp only [Llamada.paquete, atender_malloc]
  constructor
  · intro h
    obtain ⟨⟨fuel, x, hx⟩, -⟩ := h ⟨0, fun _ => 0⟩ ⟨0, 0⟩
    obtain ⟨y, hy, -⟩ := Option.map_eq_some_iff.mp hx
    exact (malloc_answered_iff hlock hbase).1 ⟨fuel, y, hy⟩
  · intro h v l
    obtain ⟨fuel, x, hx⟩ := (malloc_answered_iff (l := l) hlock hbase).2 h
    refine ⟨⟨fuel, _, by rw [hx]; rfl⟩, fun fuel s' respuesta hserved => ?_⟩
    obtain ⟨y, -, heq⟩ := Option.map_eq_some_iff.mp hserved
    rw [← (Prod.mk.inj heq).1]
    exact respondida_alloc tam y.1

theorem acuerdo_free_iff {dir : UInt32} : Acuerdo c s pid (.free dir) ↔
    Aceptada c s ⟨dir, pid⟩ ∧ LiberacionSana c s ⟨dir, pid⟩ := by
  rw [acuerdo_of_enviada (show Enviada (.free dir) from trivial)]
  simp only [Llamada.paquete, atender]
  constructor
  · intro h
    obtain ⟨⟨fuel, ⟨respuesta, s'⟩, hserved⟩, hrespondida⟩ := h ⟨0, fun _ => 0⟩ ⟨0, 0⟩
    have hrespondida := hrespondida fuel s' respuesta hserved
    have hid : existeProcesoEnLista s pid ≠ none := by
      intro hid
      rw [atenderMemfree_none (p := ⟨dir, pid⟩) hid] at hserved
      obtain rfl := (Prod.mk.inj (Option.some.inj hserved)).1
      exact not_respondida_segFault dir hrespondida
    have hdir : c.EnMemoria (Acceso.cabecera ⟨dir, pid⟩) 8 := enMemoria_of_memfree hid hserved
    have husado : (leerHeap s.memoria (Acceso.cabecera ⟨dir, pid⟩)).libre = false := by
      by_contra hlibre
      rw [atenderMemfree_libre (p := ⟨dir, pid⟩) hdir (Bool.eq_true_of_not_eq_false hlibre)]
        at hserved
      obtain rfl := (Prod.mk.inj (Option.some.inj hserved)).1
      exact not_respondida_segFault dir hrespondida
    exact ⟨⟨hid, hdir, husado⟩, (memfree_answered_iff ⟨hid, hdir, husado⟩).1 ⟨fuel, _, hserved⟩⟩
  · rintro ⟨hacepta, hsana⟩ v l
    obtain ⟨fuel, x, hx⟩ := (memfree_answered_iff hacepta).2 hsana
    refine ⟨⟨fuel, x, hx⟩, fun fuel s' respuesta hserved => ?_⟩
    rw [atenderMemfree_usado hacepta.registrado hacepta.dentro hacepta.usado] at hserved
    obtain ⟨y, -, heq⟩ := Option.map_eq_some_iff.mp hserved
    rw [← (Prod.mk.inj heq).1]
    exact respondida_free dir _

theorem acuerdo_get_iff {src : UInt32} {n : UInt64} :
    Acuerdo c s pid (.get src n) ↔ c.EnMemoria src.toNat 8 := by
  rw [acuerdo_of_enviada (show Enviada (.get src n) from trivial)]
  simp only [Llamada.paquete, atender, atenderGet_eq]
  constructor
  · intro h
    obtain ⟨⟨fuel, x, hx⟩, -⟩ := h ⟨0, fun _ => 0⟩ ⟨0, 0⟩
    exact (Option.ite_none_right_eq_some.1 hx).1
  · intro h v l
    simp only [if_pos h]
    refine ⟨⟨0, _, rfl⟩, fun fuel s' respuesta hserved => ?_⟩
    rw [← (Prod.mk.inj (Option.some.inj hserved)).1]
    exact respondida_get src n _

theorem acuerdo_cpy_iff {dst : UInt32} {src : Mem} {n : Int32} (hcabe : Cabe n) :
    Acuerdo c s pid (.cpy dst src n) ↔ c.EnMemoria (dst.toNat - 5) 5 ∧
      PasaCopy s.memoria dst.toNat ∧ c.EnMemoria dst.toNat n.toInt.toNat := by
  have hsize : n.toInt = (src.read 0 n.toInt.toNat).length := toInt_eq_length_read hcabe.1
  rw [acuerdo_of_enviada (show Enviada (.cpy dst src n) from hcabe)]
  simp only [Llamada.paquete, atender]
  constructor
  · intro h
    obtain ⟨⟨fuel, ⟨respuesta, s'⟩, hserved⟩, hrespondida⟩ := h ⟨0, fun _ => 0⟩ ⟨0, 0⟩
    have hrespondida := hrespondida fuel s' respuesta hserved
    obtain ⟨hdst, ⟨-, rfl, -⟩ | ⟨hpasa, -, content, hcontent, hdentro, -⟩⟩ :=
      atenderCopy_eq_some hserved
    · exact absurd hrespondida not_respondida_nil
    · rw [memcpyFrom_self hsize] at hcontent
      obtain rfl := Option.some.inj hcontent
      rw [Mem.length_read] at hdentro
      exact ⟨hdst, hpasa, hdentro⟩
  · rintro ⟨hdst, hpasa, hdentro⟩ v l
    have hcontent : c.EnMemoria dst.toNat (src.read 0 n.toInt.toNat).length := by
      rwa [Mem.length_read]
    rw [atenderCopy_usado (p := ⟨dst, pid, n, src.read 0 n.toInt.toNat⟩) hsize hdst hpasa hcontent]
    refine ⟨⟨0, _, rfl⟩, fun fuel s' respuesta hserved => ?_⟩
    rw [← (Prod.mk.inj (Option.some.inj hserved)).1]
    exact respondida_cpy dst src n _

/-- A call and the server agree exactly if the call meets the condition. -/
theorem acuerdo_iff_cumple {m : Mem} (h : Reachable (Atiende c) (museInit c m) s) :
    Acuerdo c s pid ll ↔ Cumple c s pid ll := by
  obtain ⟨hlock, hbase⟩ := lockstep_of_reachable h
  cases ll with
  | alloc tam => exact acuerdo_alloc_iff hlock hbase
  | free dir => exact acuerdo_free_iff
  | get src n => exact acuerdo_get_iff
  | cpy dst src n =>
      by_cases hcabe : Cabe n
      · simp only [Cumple, hcabe, true_imp_iff]
        exact acuerdo_cpy_iff hcabe
      · simp only [acuerdo_iff, Cumple, hcabe, false_imp_iff, iff_true]
        rintro ⟨u, bytes, hbytes⟩
        exact absurd (cabe_of_peticion hbytes) hcabe

end

/-! ## Runs -/

/-- A step of a session in which the calls made meet the condition. -/
def PasoQueCumple (c : Config) (σ : Sesion) (e : Evento) (σ' : Sesion) : Prop :=
  SesionStep c σ e σ' ∧ ∀ pid ll, e = .llama pid ll → Cumple c σ.servidor pid ll

/-- With no call under way nothing is unread.  With one under way, either its request is
all that is unread and they agree on it, or its reply is. -/
def EnSincronia (c : Config) (σ : Sesion) : Prop :=
  match σ.pendiente with
  | none => σ.haciaServidor = [] ∧ σ.haciaCliente = []
  | some (pid, ll) =>
      (∃ u, ll.peticion u pid = some σ.haciaServidor ∧ σ.haciaCliente = [] ∧
        Acuerdo c σ.servidor pid ll) ∨
      (σ.haciaServidor = [] ∧ Respondida ll σ.haciaCliente)

section
variable {c : Config} {m : Mem} {σ σ' : Sesion} {e : Evento}

/-- In step, the server takes a request only. -/
theorem EnSincronia.atiende (h : EnSincronia c σ) {fuel : ℕ} {u : Uninit} {l : Locales}
    {resto enviado : Bytes} {s : Globals} (hcodigo : 4 ≤ σ.haciaServidor.length)
    (hronda : rondaServidor fuel c u l σ.servidor σ.haciaServidor = some (resto, s, enviado)) :
    EnSincronia c ⟨s, resto, σ.haciaCliente ++ enviado, σ.pendiente⟩ ∧
      ∃ peticion, Atiende c σ.servidor peticion s := by
  unfold EnSincronia at h
  split at h
  · rw [h.1] at hcodigo
    exact absurd hcodigo (by decide)
  · next pid ll hpendiente =>
      rcases h with ⟨v, hpeticion, hcliente, hacuerdo⟩ | ⟨hservidor, -⟩
      · obtain ⟨hresto, hrespondida⟩ := (hacuerdo v _ hpeticion u l).2 fuel resto s enviado hronda
        rw [rondaServidor_peticion hpeticion] at hronda
        obtain ⟨⟨respuesta, s'⟩, hatender, heq⟩ := Option.map_eq_some_iff.1 hronda
        obtain ⟨-, heq⟩ := Prod.mk.inj heq
        obtain ⟨rfl, rfl⟩ := Prod.mk.inj heq
        refine ⟨?_, ll.paquete pid, fuel, u, l, _, hatender⟩
        simp only [EnSincronia, hpendiente, hcliente, List.nil_append]
        exact .inr ⟨hresto, hrespondida⟩
      · rw [hservidor] at hcodigo
        exact absurd hcodigo (by decide)

/-- A step of such a session keeps the two sides in step and the server in a state that requests
lead to. -/
theorem EnSincronia.step (h : EnSincronia c σ)
    (hreach : Reachable (Atiende c) (museInit c m) σ.servidor) (hstep : PasoQueCumple c σ e σ') :
    EnSincronia c σ' ∧ Reachable (Atiende c) (museInit c m) σ'.servidor ∧
      ∀ r, e = .recibe r → ∃ valor, r = .vuelve valor := by
  obtain ⟨hstep, hcumple⟩ := hstep
  cases hstep with
  | @llama u pid ll bytes hlibre hpeticion =>
      simp only [EnSincronia, hlibre] at h
      refine ⟨.inl ⟨u, ?_, h.2, (acuerdo_iff_cumple hreach).mpr (hcumple pid ll rfl)⟩, hreach, nofun⟩
      simpa [h.1] using hpeticion
  | @atiende fuel u l resto enviado s hcodigo hronda =>
      obtain ⟨hsync, peticion, hatiende⟩ := h.atiende hcodigo hronda
      exact ⟨hsync, hreach.step_right hatiende, nofun⟩
  | @recibe u pid ll r resto hpendiente hcodigo hrecibir hnulo =>
      simp only [EnSincronia, hpendiente] at h
      rcases h with ⟨v, -, hcliente, -⟩ | ⟨hservidor, hrespondida⟩
      · rw [hcliente] at hcodigo
        exact absurd hcodigo (by decide)
      · obtain ⟨valor, hvalor⟩ := hrespondida.2 u
        rw [hvalor, Option.some.injEq, Prod.mk.injEq] at hrecibir
        obtain ⟨rfl, rfl⟩ := hrecibir
        refine ⟨⟨hservidor, rfl⟩, hreach, fun r hr => ⟨valor, ?_⟩⟩
        cases hr
        rfl

/-- A call under way is served and returns. -/
theorem EnSincronia.vuelve (h : EnSincronia c σ) :
    ∃ es σ', Run (SesionStep c) σ es σ' ∧ σ'.EnReposo := by
  have recibe : ∀ (σ : Sesion) {pid ll}, σ.pendiente = some (pid, ll) → σ.haciaServidor = [] →
      Respondida ll σ.haciaCliente → ∃ es σ', Run (SesionStep c) σ es σ' ∧ σ'.EnReposo := by
    intro σ pid ll hpendiente hservidor hrespondida
    obtain ⟨valor, hvalor⟩ := hrespondida.2 ⟨0, fun _ => 0⟩
    exact ⟨_, _, .single (.recibe hpendiente hrespondida.1 hvalor nofun), rfl, hservidor, rfl⟩
  unfold EnSincronia at h
  split at h
  · next hpendiente => exact ⟨[], σ, .nil σ, hpendiente, h⟩
  · next pid ll hpendiente =>
      rcases h with ⟨u, hpeticion, hcliente, hacuerdo⟩ | ⟨hservidor, hrespondida⟩
      · obtain ⟨⟨fuel, ⟨resto, s, enviado⟩, hronda⟩, hreply⟩ :=
          hacuerdo u _ hpeticion ⟨0, fun _ => 0⟩ ⟨0, 0⟩
        obtain ⟨rfl, hrespondida⟩ := hreply _ _ _ _ hronda
        have hcodigo : 4 ≤ σ.haciaServidor.length := by
          obtain ⟨m, -, -, hframe, -⟩ := peticion_eq hpeticion
          rw [hframe]
          exact four_le_length_frame m
        obtain ⟨es, σ', hrun, hreposo⟩ := recibe
          { σ with servidor := s, haciaServidor := [], haciaCliente := σ.haciaCliente ++ enviado }
          hpendiente rfl (by simpa [hcliente] using hrespondida)
        exact ⟨_, σ', .cons (.atiende hcodigo hronda) hrun, hreposo⟩
      · exact recibe σ hpendiente hservidor hrespondida

/-- In a session whose calls meet the condition the two sides stay in step. -/
theorem EnSincronia.run {es : List Evento} (h : EnSincronia c σ)
    (hreach : Reachable (Atiende c) (museInit c m) σ.servidor)
    (hrun : Run (PasoQueCumple c) σ es σ') :
    EnSincronia c σ' ∧ ∀ r, .recibe r ∈ es → ∃ valor, r = .vuelve valor := by
  induction hrun with
  | nil σ => exact ⟨h, nofun⟩
  | @cons σ₀ σ₁ σ₂ e es hstep hrun ih =>
      obtain ⟨h₁, hreach₁, he⟩ := h.step hreach hstep
      obtain ⟨h₂, hes⟩ := ih h₁ hreach₁
      refine ⟨h₂, fun r hr => ?_⟩
      rcases List.mem_cons.mp hr with heq | hr
      · exact he r heq.symm
      · exact hes r hr

end

/-- In every state that requests lead to, a call and the server agree on one reply exactly if
the call meets the condition.  In a session whose calls meet it, both sides have read all there
is between two calls, every call returns from a case of its `switch`, and one that is under way
can always return. -/
theorem session_agreement (c : Config) (m : Mem) :
    (∀ s, Reachable (Atiende c) (museInit c m) s → ∀ pid ll,
      Acuerdo c s pid ll ↔ Cumple c s pid ll) ∧
    ∀ es σ, Run (PasoQueCumple c) (sesionInicial c m) es σ →
      EnSincronia c σ ∧ (∀ r, .recibe r ∈ es → ∃ valor, r = .vuelve valor) ∧
      ∃ es' σ', Run (SesionStep c) σ es' σ' ∧ σ'.EnReposo := by
  refine ⟨fun s hs pid ll => acuerdo_iff_cumple hs, fun es σ hrun => ?_⟩
  have hinicio : EnSincronia c (sesionInicial c m) := ⟨rfl, rfl⟩
  obtain ⟨hsync, hresults⟩ := hinicio.run (m := m) (.refl _) hrun
  exact ⟨hsync, hresults, hsync.vuelve⟩

/-- A `muse_get` of four bytes at 5 in a fresh memory. -/
theorem session_agreement_get :
    Acuerdo ⟨96, 32, 0, 0⟩ (museInit ⟨96, 32, 0, 0⟩ fun _ => 0) 1 (.get 5 4) ∧ ∃ r σ,
      Run (PasoQueCumple ⟨96, 32, 0, 0⟩) (sesionInicial ⟨96, 32, 0, 0⟩ fun _ => 0)
        [.llama 1 (.get 5 4), .atiende, .recibe r] σ ∧
      EnSincronia ⟨96, 32, 0, 0⟩ σ ∧ ∃ valor, r = .vuelve valor := by
  let c : Config := ⟨96, 32, 0, 0⟩
  let u : Uninit := ⟨0, fun _ => 0⟩
  obtain ⟨hacuerdo, hruns⟩ := session_agreement c fun _ => 0
  have hcumple : Cumple c (museInit c fun _ => 0) 1 (.get 5 4) :=
    show Config.EnMemoria ⟨96, 32, 0, 0⟩ (UInt32.toNat 5) 8 by decide
  have hcall := (hacuerdo _ (.refl _) 1 (.get 5 4)).2 hcumple
  obtain ⟨bytes, hpeticion⟩ := exists_peticion u 1 (.get 5 4) trivial
  obtain ⟨⟨fuel, ⟨resto, s, enviado⟩, hronda⟩, hreply⟩ := hcall u bytes hpeticion u ⟨0, 0⟩
  obtain ⟨rfl, hcodigo, hrecibe⟩ := hreply _ _ _ _ hronda
  obtain ⟨valor, hvalor⟩ := hrecibe u
  have hbytes : 4 ≤ bytes.length := by
    obtain ⟨m, -, -, rfl, -⟩ := peticion_eq hpeticion
    exact four_le_length_frame m
  have hrun : Run (PasoQueCumple c) (sesionInicial c fun _ => 0)
      [.llama 1 (.get 5 4), .atiende, .recibe (.vuelve valor)] _ :=
    .cons ⟨.llama rfl hpeticion, fun pid ll heq => by cases heq; exact hcumple⟩
      (.cons ⟨.atiende hbytes hronda, nofun⟩
        (.single ⟨.recibe rfl hcodigo hvalor nofun, nofun⟩))
  obtain ⟨hsync, hresults, -⟩ := hruns _ _ hrun
  exact ⟨hcall, _, _, hrun, hsync, hresults _ (by simp)⟩

/-- The second block that a process is answered is still marked free, so the `COPY` to it
is refused without a reply and `muse_cpy` waits for ever. -/
theorem session_stuck : ∃ c es σ, Run (SesionStep c) (sesionInicial c fun _ => 0)
      (.llama 1 (.alloc 5) :: .atiende :: .recibe (.vuelve (.alloc 5)) ::
        .llama 1 (.alloc 5) :: .atiende :: .recibe (.vuelve (.alloc 25)) :: es) σ ∧
    es = [.llama 1 (.cpy 25 (fun _ => 0) 4), .atiende] ∧ ∀ e σ', ¬ SesionStep c σ e σ' := by
  let c : Config := ⟨96, 32, 0, 0⟩
  let u : Uninit := ⟨0, fun _ => 0⟩
  have hserved : ((atenderMalloc 200 c ⟨0, 0⟩ (museInit c fun _ => 0) ⟨5, 1⟩).bind fun a =>
      (atenderMalloc 200 c ⟨0, 0⟩ a.2 ⟨5, 1⟩).map fun b =>
        (a.1, b.1, b.2.memoria 24)) = some (⟨5⟩, ⟨25⟩, 1) := by
    decide +kernel
  simp only [Option.bind_eq_some_iff, Option.map_eq_some_iff, Prod.mk.injEq,
    Prod.exists] at hserved
  obtain ⟨_, s₁, hmalloc₁, _, s₂, hmalloc₂, rfl, rfl, hlibre⟩ := hserved
  obtain ⟨bytes, hpeticion⟩ := exists_peticion u 1 (.cpy 25 (fun _ => 0) 4) (show Cabe 4 by decide)
  have hronda : rondaServidor 0 c u ⟨0, 0⟩ s₂ bytes = some ([], (procesarId s₂ 1).2, []) := by
    rw [rondaServidor_peticion hpeticion, Llamada.paquete, atender,
      atenderCopy_libre (by decide) (not_not_intro hlibre)]
    rfl
  have hbytes : 4 ≤ bytes.length := by
    obtain ⟨m, -, -, rfl, -⟩ := peticion_eq hpeticion
    exact four_le_length_frame m
  refine ⟨c, _, _, (run_alloc hmalloc₁).append ((run_alloc hmalloc₂).append
    (.cons (.llama rfl hpeticion) (.single (.atiende hbytes hronda)))), rfl, ?_⟩
  exact not_step_of_nil (by simp) rfl rfl

end Threaders.Muse
