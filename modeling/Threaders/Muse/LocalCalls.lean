import Threaders.Muse.ReadAfterWrite

/-!
# The connection, as the client sees it

The calls of the library come out as if they were made in the server's own process.  The bytes,
the operation codes and the uninitialised memory in between decide nothing: a call takes effect
once, when the server takes its request, and a session is a run of such calls with at most one
of them on its way.

## Main definitions

* `llamadaLocal`, `LocalStep` — a call made in the server's own process.
* `Contesta` — the bytes that a call comes out of.
* `EnCamino` — the call on its way: not yet served, or served and not yet returned.
* `calls_are_local` — sessions and runs of local calls, both ways.
-/

namespace Threaders.Muse

open Lib Common

/-! ## Local calls -/

/-- A call made in the server's own process: how it comes out, if it ever does, and the globals
that it leaves. -/
def llamadaLocal (fuel : ℕ) (c : Config) (l : Locales) (s : Globals) (pid : Int32) :
    Llamada → Option (Option Resultado × Globals)
  | .alloc tam => (atenderMalloc fuel c l s ⟨tam, pid⟩).map fun r =>
      (some (.vuelve (.alloc r.1.ptr)), r.2)
  | .free dir =>
      if existeProcesoEnLista s pid = none then some (some .sinCaso, s)
      else do
        let header ← leerCabecera c s.memoria (toI32 dir.toNat - 5) 8
        if header.libre then some (some .sinCaso, s)
        else
          let m ← unirPrevio fuel c s.memoria (toI32 dir.toNat) header.size
          some (some (.vuelve .free), { s with memoria := m })
  | .get src _ =>
      if c.EnMemoria src.toNat 8 then
        some (some (.vuelve (.get 0 (s.memoria.read src.toNat 4))), (procesarId s pid).2)
      else none
  | .cpy dst src n =>
      if c.EnMemoria (dst.toNat - 5) 5 then
        if PasaCopy s.memoria dst.toNat then
          if c.EnMemoria dst.toNat n.toInt.toNat then
            some (some (.vuelve (.cpy 0)),
              { (procesarId s pid).2 with
                memoria := copiar s.memoria dst.toNat n.toUInt32.toNat
                  (src.read 0 n.toInt.toNat) })
          else none
        else some (none, (procesarId s pid).2)
      else none

/-- A call with how it comes out. -/
def LocalStep (c : Config) (s : Globals) (e : (Int32 × Llamada) × Option Resultado)
    (s' : Globals) : Prop :=
  Enviada e.1.2 ∧ ∃ fuel l, llamadaLocal fuel c l s e.1.1 e.1.2 = some (e.2, s')

/-- The bytes that a call comes out of so, whatever uninitialised memory holds: a whole reply, or
none at all. -/
def Contesta (ll : Llamada) (enviado : Bytes) : Option Resultado → Prop
  | some r => 4 ≤ enviado.length ∧ r ≠ .nulo ∧ ∀ u, recibir u ll enviado = some (r, [])
  | none => enviado = []

section
variable {c : Config} {s s' : Globals} {pid : Int32} {u v : Uninit} {ll : Llamada}
  {enviado : Bytes} {fuel : ℕ} {l : Locales} {r : Option Resultado}

theorem contesta_alloc (tam : UInt32) (res : TMallocOk) :
    Contesta (.alloc tam) (Message.mallocOk res).frame (some (.vuelve (.alloc res.ptr))) :=
  ⟨four_le_length_frame _, nofun, fun _ => recibir_mallocOk tam res⟩

theorem contesta_free (dir : UInt32) (res : TFreeResponse) :
    Contesta (.free dir) (Message.freeResponse res).frame (some (.vuelve .free)) :=
  ⟨four_le_length_frame _, nofun, fun _ => recibir_freeResponse dir res⟩

theorem contesta_free_segFault (dir : UInt32) :
    Contesta (.free dir) (codigo .segFault) (some .sinCaso) :=
  ⟨(length_codigo _).ge, nofun, fun _ => recibir_free_segFault dir⟩

theorem contesta_get (src : UInt32) (n : UInt64) (m : Mem) (a : ℤ) :
    Contesta (.get src n) (Message.getOk ⟨UInt64.ofNat (m.readLe a 8), 4⟩).frame
      (some (.vuelve (.get 0 (m.read a 4)))) :=
  ⟨four_le_length_frame _, nofun, fun _ => by rw [recibir_getOk, take_word]⟩

theorem contesta_cpy (dst : UInt32) (src : Mem) (n : Int32) :
    Contesta (.cpy dst src n) (Message.getOk (comoGetOk v ⟨1⟩)).frame
      (some (.vuelve (.cpy 0))) := by
  refine ⟨four_le_length_frame _, nofun, fun u => ?_⟩
  rw [recibir_cpy_getOk, toI32_comoGetOk, if_pos (show (1 : Int32).toInt = 1 from rfl)]

variable (fuel c v l s pid) in
/-- The server's case of a call that is sent does what the local call does, and answers it so. -/
theorem atender_local (h : Enviada ll) : Option.Rel (fun x y => Contesta ll x.1 y.1 ∧ x.2 = y.2)
    (atender fuel c v l s (ll.paquete pid)) (llamadaLocal fuel c l s pid ll) := by
  cases ll with
  | alloc tam =>
      rw [Llamada.paquete, atender_malloc, llamadaLocal]
      cases atenderMalloc fuel c l s ⟨tam, pid⟩ with
      | none => exact .none
      | some r => exact .some ⟨contesta_alloc tam r.1, rfl⟩
  | free dir =>
      rw [Llamada.paquete, atender, llamadaLocal]
      by_cases hid : existeProcesoEnLista s pid = none
      · rw [atenderMemfree_none (p := ⟨dir, pid⟩) hid, if_pos hid]
        exact .some ⟨contesta_free_segFault dir, rfl⟩
      rw [if_neg hid]
      by_cases hdir : c.EnMemoria (toI32 dir.toNat - 5) 8
      · have hleer : leerCabecera c s.memoria (toI32 dir.toNat - 5) 8 = some _ := if_pos hdir
        simp only [hleer, Option.bind_eq_bind, Option.bind_some]
        cases hlibre : (leerHeap s.memoria (toI32 dir.toNat - 5)).libre with
        | true =>
            rw [atenderMemfree_libre (p := ⟨dir, pid⟩) hdir hlibre, if_pos rfl]
            exact .some ⟨contesta_free_segFault dir, rfl⟩
        | false =>
            rw [atenderMemfree_usado (p := ⟨dir, pid⟩) hid hdir hlibre, if_neg Bool.false_ne_true]
            cases unirPrevio fuel c s.memoria (toI32 dir.toNat)
                (leerHeap s.memoria (toI32 dir.toNat - 5)).size with
            | none => exact .none
            | some m => exact .some ⟨contesta_free dir _, rfl⟩
      · have hleer : leerCabecera c s.memoria (toI32 dir.toNat - 5) 8 = none := if_neg hdir
        cases hserved : atenderMemfree fuel c v s ⟨dir, pid⟩ with
        | some r => exact absurd (enMemoria_of_memfree hid hserved) hdir
        | none =>
            rw [hleer]
            exact .none
  | get src n =>
      rw [Llamada.paquete, atender, atenderGet_eq, llamadaLocal]
      by_cases hsrc : c.EnMemoria src.toNat 8
      · rw [if_pos hsrc, if_pos hsrc]
        exact .some ⟨contesta_get src n _ _, rfl⟩
      · rw [if_neg hsrc, if_neg hsrc]
        exact .none
  | cpy dst src n =>
      have hsize : n.toInt = (src.read 0 n.toInt.toNat).length := toInt_eq_length_read h.1
      rw [Llamada.paquete, atender, llamadaLocal]
      rw [atenderCopy_eq (p := ⟨dst, pid, n, src.read 0 n.toInt.toNat⟩) hsize]
      simp only [Mem.length_read]
      split_ifs with hdst hpasa hdentro
      · exact .some ⟨contesta_cpy dst src n, rfl⟩
      · exact .none
      · exact .some ⟨rfl, rfl⟩
      · exact .none

theorem enviada_of_peticion (h : ll.peticion u pid = some enviado) : Enviada ll := by
  cases ll with
  | cpy dst src n => exact cabe_of_peticion h
  | _ => trivial

/-- An iteration of the server's loop on a request is the local call. -/
theorem localStep_of_ronda (hpeticion : ll.peticion u pid = some enviado) {resto respuesta : Bytes}
    (h : rondaServidor fuel c v l s enviado = some (resto, s', respuesta)) :
    resto = [] ∧ ∃ r, LocalStep c s ((pid, ll), r) s' ∧ Contesta ll respuesta r := by
  have hsent := enviada_of_peticion hpeticion
  have hrel := atender_local c s pid v fuel l hsent
  rw [rondaServidor_peticion hpeticion] at h
  obtain ⟨⟨bytes, t⟩, hserved, heq⟩ := Option.map_eq_some_iff.mp h
  simp only [Prod.mk.injEq] at heq
  obtain ⟨rfl, rfl, rfl⟩ := heq
  rw [hserved] at hrel
  cases hlocal : llamadaLocal fuel c l s pid ll with
  | none =>
      rw [hlocal] at hrel
      cases hrel
  | some x =>
      rw [hlocal] at hrel
      obtain ⟨hcontesta, rfl⟩ := Option.rel_some_some.mp hrel
      exact ⟨rfl, x.1, ⟨hsent, fuel, l, hlocal⟩, hcontesta⟩

/-- Whatever uninitialised memory holds, the server can make the local call. -/
theorem ronda_of_localStep (hpeticion : ll.peticion u pid = some enviado) (v : Uninit)
    (h : LocalStep c s ((pid, ll), r) s') : ∃ fuel l respuesta,
      rondaServidor fuel c v l s enviado = some ([], s', respuesta) ∧ Contesta ll respuesta r := by
  obtain ⟨hsent, fuel, l, hlocal⟩ := h
  have hrel := atender_local c s pid v fuel l hsent
  rw [hlocal] at hrel
  cases hserved : atender fuel c v l s (ll.paquete pid) with
  | none =>
      rw [hserved] at hrel
      cases hrel
  | some x =>
      rw [hserved] at hrel
      obtain ⟨hcontesta, rfl⟩ := Option.rel_some_some.mp hrel
      exact ⟨fuel, l, x.1, by rw [rondaServidor_peticion hpeticion, hserved]; rfl, hcontesta⟩

/-- The server takes its request. -/
theorem LocalStep.atiende (h : LocalStep c s ((pid, ll), r) s') :
    Atiende c s (ll.paquete pid) s' := by
  obtain ⟨hsent, fuel, l, hlocal⟩ := h
  have hrel := atender_local c s pid ⟨0, fun _ => 0⟩ fuel l hsent
  rw [hlocal] at hrel
  cases hserved : atender fuel c ⟨0, fun _ => 0⟩ l s (ll.paquete pid) with
  | none =>
      rw [hserved] at hrel
      cases hrel
  | some x =>
      rw [hserved] at hrel
      obtain ⟨-, rfl⟩ := Option.rel_some_some.mp hrel
      exact ⟨fuel, _, l, x.1, hserved⟩

end

/-! ## Sessions -/

/-- The call that an event of the session makes. -/
def Evento.llamada : Evento → Option (Int32 × Llamada)
  | .llama pid ll => some (pid, ll)
  | _ => none

/-- How a call comes out in an event of the session. -/
def Evento.resultado : Evento → Option Resultado
  | .recibe r => some r
  | _ => none

/-- The globals of the server, the call that it has not served, and the outcome that has not
returned. -/
inductive EnCamino : Sesion → Globals → List (Int32 × Llamada) → List Resultado → Prop
  | reposo (s : Globals) : EnCamino ⟨s, [], [], none⟩ s [] []
  | pedida {s : Globals} {u : Uninit} {pid : Int32} {ll : Llamada} {bytes : Bytes}
      (h : ll.peticion u pid = some bytes) :
      EnCamino ⟨s, bytes, [], some (pid, ll)⟩ s [(pid, ll)] []
  | servida {s : Globals} {pid : Int32} {ll : Llamada} {enviado : Bytes} {r : Option Resultado}
      (h : Contesta ll enviado r) : EnCamino ⟨s, [], enviado, some (pid, ll)⟩ s [] r.toList

section
variable {c : Config} {σ σ' : Sesion} {s s' : Globals} {e : Evento}
  {as : List (Int32 × Llamada)} {bs : List Resultado}

/-- A call is made, it is served, or it comes out. -/
theorem EnCamino.step_cases (h : EnCamino σ s as bs) (hstep : SesionStep c σ e σ') :
    (∃ pid ll, e = .llama pid ll ∧ as = [] ∧ bs = [] ∧ EnCamino σ' s [(pid, ll)] []) ∨
    (∃ pid ll r t, e = .atiende ∧ as = [(pid, ll)] ∧ bs = [] ∧ σ.servidor = s ∧
      σ.pendiente = some (pid, ll) ∧ LocalStep c s ((pid, ll), r) t ∧
      EnCamino σ' t [] r.toList) ∨
    ∃ r, e = .recibe r ∧ as = [] ∧ bs = [r] ∧ EnCamino σ' s [] [] := by
  cases hstep with
  | @llama u pid ll bytes hlibre hpeticion =>
      cases h with
      | reposo s => exact .inl ⟨pid, ll, rfl, rfl, rfl, .pedida hpeticion⟩
      | pedida h => cases hlibre
      | servida h => cases hlibre
  | @atiende fuel u l resto enviado t hcodigo hronda =>
      cases h with
      | reposo s => exact absurd hcodigo (Nat.not_succ_le_zero 3)
      | @pedida s u pid ll bytes h =>
          obtain ⟨rfl, r, hlocal, hcontesta⟩ := localStep_of_ronda h hronda
          exact .inr (.inl ⟨pid, ll, r, t, rfl, rfl, rfl, rfl, rfl, hlocal, .servida hcontesta⟩)
      | servida h => exact absurd hcodigo (Nat.not_succ_le_zero 3)
  | @recibe u pid ll r resto hpendiente hcodigo hrecibir hnulo =>
      cases h with
      | reposo s => cases hpendiente
      | pedida h => exact absurd hcodigo (Nat.not_succ_le_zero 3)
      | @servida s _ _ enviado r' h =>
          cases hpendiente
          cases r' with
          | none =>
              rw [show enviado = [] from h] at hcodigo
              exact absurd hcodigo (Nat.not_succ_le_zero 3)
          | some r' =>
              obtain ⟨-, -, hcomes⟩ := h
              rw [hcomes u, Option.some.injEq, Prod.mk.injEq] at hrecibir
              obtain ⟨rfl, rfl⟩ := hrecibir
              exact .inr (.inr ⟨r', rfl, rfl, rfl, .reposo s⟩)

/-- A call takes effect when its request is served. -/
theorem EnCamino.step (h : EnCamino σ s as bs) (hstep : SesionStep c σ e σ') :
    ∃ ds s' as' bs', Run (LocalStep c) s ds s' ∧
      as ++ e.llamada.toList = ds.map Prod.fst ++ as' ∧
      bs ++ ds.filterMap Prod.snd = e.resultado.toList ++ bs' ∧ EnCamino σ' s' as' bs' := by
  rcases h.step_cases hstep with ⟨pid, ll, rfl, rfl, rfl, hnext⟩ |
    ⟨pid, ll, r, t, rfl, rfl, rfl, -, -, hlocal, hnext⟩ | ⟨r, rfl, rfl, rfl, hnext⟩
  · exact ⟨[], s, [(pid, ll)], [], .nil s, rfl, rfl, hnext⟩
  · refine ⟨_, t, [], r.toList, .single hlocal, rfl, ?_, hnext⟩
    cases r <;> rfl
  · exact ⟨[], s, [], [], .nil s, rfl, rfl, hnext⟩

/-- A session stops exactly where the local call does not end, or does not come out. -/
theorem EnCamino.detenida_iff (h : EnCamino σ s as bs) : (∀ e σ', ¬ SesionStep c σ e σ') ↔
    σ.pendiente ≠ none ∧ bs = [] ∧ ∀ llamada ∈ as, ∀ r s', ¬ LocalStep c s (llamada, r) s' := by
  cases h with
  | reposo s =>
      obtain ⟨bytes, hpeticion⟩ := exists_peticion ⟨0, fun _ => 0⟩ 0 (.get 0 0) trivial
      refine ⟨fun hno => absurd (.llama rfl hpeticion) (hno _ _), fun hpendiente => ?_⟩
      exact absurd rfl hpendiente.1
  | @pedida s u pid ll bytes h =>
      constructor
      · intro hno
        refine ⟨Option.some_ne_none _, rfl, fun llamada hmem r s' hlocal => ?_⟩
        obtain rfl : llamada = (pid, ll) := List.mem_singleton.mp hmem
        obtain ⟨fuel, l, respuesta, hronda, -⟩ := ronda_of_localStep h ⟨0, fun _ => 0⟩ hlocal
        have hcodigo : 4 ≤ bytes.length := by
          obtain ⟨m, -, -, hframe, -⟩ := peticion_eq h
          rw [hframe]
          exact four_le_length_frame m
        exact hno _ _ (.atiende hcodigo hronda)
      · rintro ⟨-, -, hlocal⟩ e σ' hstep
        cases hstep with
        | llama hlibre => cases hlibre
        | atiende hcodigo hronda =>
            obtain ⟨-, r, hstep, -⟩ := localStep_of_ronda h hronda
            exact hlocal _ (List.mem_singleton.mpr rfl) r _ hstep
        | recibe _ hcodigo => exact absurd hcodigo (Nat.not_succ_le_zero 3)
  | @servida s pid ll enviado r h =>
      cases r with
      | none =>
          have hnil : enviado = [] := h
          refine ⟨fun _ => ⟨Option.some_ne_none _, rfl, by simp⟩, fun _ => ?_⟩
          exact not_step_of_nil (Option.some_ne_none _) rfl hnil
      | some r =>
          obtain ⟨hcodigo, hnulo, hcomes⟩ := h
          refine ⟨fun hno => absurd (.recibe rfl hcodigo (hcomes ⟨0, fun _ => 0⟩) hnulo) (hno _ _),
            fun hnil => ?_⟩
          cases hnil.2.1

/-- A local call that comes out is made over a connection at rest. -/
theorem run_localStep {pid : Int32} {ll : Llamada} {r : Resultado}
    (h : LocalStep c s ((pid, ll), some r) s') : Run (SesionStep c) ⟨s, [], [], none⟩
      [.llama pid ll, .atiende, .recibe r] ⟨s', [], [], none⟩ := by
  obtain ⟨bytes, hpeticion⟩ := exists_peticion ⟨0, fun _ => 0⟩ pid ll h.1
  obtain ⟨fuel, l, respuesta, hronda, hcodigo, hnulo, hcomes⟩ :=
    ronda_of_localStep hpeticion ⟨0, fun _ => 0⟩ h
  have hbytes : 4 ≤ bytes.length := by
    obtain ⟨m, -, -, hframe, -⟩ := peticion_eq hpeticion
    rw [hframe]
    exact four_le_length_frame m
  exact .cons (.llama rfl hpeticion) (.cons (.atiende hbytes hronda)
    (.single (.recibe rfl hcodigo (hcomes ⟨0, fun _ => 0⟩) hnulo)))

end

/-! ## Sessions at rest -/

section
variable {c : Config} {σ σ' : Sesion} {s : Globals} {es : List Evento}
  {as : List (Int32 × Llamada)} {bs : List Resultado} {pid : Int32} {ll : Llamada} {r : Resultado}

theorem EnCamino.of_reposo (h : σ.EnReposo) : EnCamino σ σ.servidor [] [] := by
  obtain ⟨s, haciaServidor, haciaCliente, pendiente⟩ := σ
  obtain ⟨rfl, rfl, rfl⟩ := h
  exact .reposo s

/-- Nothing is on its way when no call is pending. -/
theorem EnCamino.reposo_inv (h : EnCamino σ s as bs) (hpendiente : σ.pendiente = none) :
    σ.EnReposo ∧ s = σ.servidor ∧ as = [] ∧ bs = [] := by
  cases h with
  | reposo s => exact ⟨⟨rfl, rfl, rfl⟩, rfl, rfl, rfl⟩
  | pedida h => cases hpendiente
  | servida h => cases hpendiente

/-- A call that comes out is a local call. -/
theorem localStep_of_run (h : σ.EnReposo)
    (hrun : Run (SesionStep c) σ [.llama pid ll, .atiende, .recibe r] σ') :
    LocalStep c σ.servidor ((pid, ll), some r) σ'.servidor ∧ σ'.EnReposo := by
  have hpendiente : σ'.pendiente = none := by
    obtain ⟨σ₁, -, hrun⟩ := Run.cons_iff.mp hrun
    obtain ⟨σ₂, -, hrun⟩ := Run.cons_iff.mp hrun
    obtain ⟨σ₃, hrecibe, hend⟩ := Run.cons_iff.mp hrun
    obtain ⟨-, _, _, _, _, -, -, rfl⟩ := hrecibe.recibe_inv
    exact Run.nil_iff.mp hend ▸ rfl
  obtain ⟨ds, s, as, bs, hlocal, hasked, htold, hcamino⟩ :=
    hrun.linearization (fun _ _ _ _ _ _ h hstep => EnCamino.step h hstep) (.of_reposo h)
  obtain ⟨hreposo, rfl, rfl, rfl⟩ := hcamino.reposo_inv hpendiente
  refine ⟨?_, hreposo⟩
  rw [List.nil_append, List.append_nil] at hasked htold
  obtain ⟨⟨llamada, o⟩, rfl, rfl⟩ := List.map_eq_singleton_iff.mp hasked.symm
  obtain ⟨t, hstep, hend⟩ := Run.cons_iff.mp hlocal
  obtain rfl := Run.nil_iff.mp hend
  cases o with
  | none => cases htold
  | some o =>
      obtain rfl : o = r := List.singleton_injective htold
      exact hstep

/-- A `muse_alloc` that returns is a `MALLOC`. -/
theorem malloc_of_run {tam ptr : UInt32} (h : σ.EnReposo) (hrun : Run (SesionStep c) σ
      [.llama pid (.alloc tam), .atiende, .recibe (.vuelve (.alloc ptr))] σ') :
    MallocStep c σ.servidor (⟨tam, pid⟩, ⟨ptr⟩) σ'.servidor ∧ σ'.EnReposo := by
  obtain ⟨⟨-, fuel, l, hlocal⟩, hreposo⟩ := localStep_of_run h hrun
  rw [llamadaLocal, Option.map_eq_some_iff] at hlocal
  obtain ⟨⟨⟨res⟩, s'⟩, hmalloc, heq⟩ := hlocal
  cases heq
  exact ⟨⟨fuel, l, hmalloc⟩, hreposo⟩

end

/-- **Calls are local.**  Whatever calls a session makes, those that the server has taken are, in
their order, a run of calls made in its own process, and they come out in that order as they do
there; one at most is on its way, and the session stops only where the local call would.  Every
run of local calls that come out is a session. -/
theorem calls_are_local (c : Config) (m : Mem) :
    (∀ es σ, Run (SesionStep c) (sesionInicial c m) es σ → ∃ ds s as bs,
      Run (LocalStep c) (museInit c m) ds s ∧ EnCamino σ s as bs ∧
      es.filterMap Evento.llamada = ds.map Prod.fst ++ as ∧
      ds.filterMap Prod.snd = es.filterMap Evento.resultado ++ bs ∧
      ((∀ e σ', ¬ SesionStep c σ e σ') ↔ σ.pendiente ≠ none ∧ bs = [] ∧
        ∀ llamada ∈ as, ∀ r s', ¬ LocalStep c s (llamada, r) s')) ∧
    ∀ ds s, Run (LocalStep c) (museInit c m) ds s → (∀ d ∈ ds, d.2 ≠ none) →
      ∃ es, Run (SesionStep c) (sesionInicial c m) es ⟨s, [], [], none⟩ ∧
        es.filterMap Evento.llamada = ds.map Prod.fst ∧
        es.filterMap Evento.resultado = ds.filterMap Prod.snd := by
  constructor
  · intro es σ hrun
    obtain ⟨ds, s, as, bs, hlocal, hasked, htold, hcamino⟩ :=
      hrun.linearization (fun _ _ _ _ _ _ h hstep => EnCamino.step h hstep)
        (.reposo (museInit c m))
    exact ⟨ds, s, as, bs, hlocal, hcamino, hasked, htold, hcamino.detenida_iff⟩
  · intro ds s hrun
    show _ → ∃ es, Run (SesionStep c) ⟨museInit c m, [], [], none⟩ es ⟨s, [], [], none⟩ ∧ _
    generalize museInit c m = s₀ at hrun ⊢
    induction hrun with
    | nil s => exact fun _ => ⟨[], .nil _, rfl, rfl⟩
    | @cons s t u d ds hstep _ ih =>
        intro houtcomes
        obtain ⟨⟨pid, ll⟩, r⟩ := d
        obtain ⟨es, hrest, hcalls, hresults⟩ := ih fun d hd => houtcomes d (List.mem_cons_of_mem _ hd)
        obtain ⟨r, rfl⟩ := Option.ne_none_iff_exists'.mp (houtcomes _ List.mem_cons_self)
        refine ⟨_, (run_localStep hstep).append hrest, ?_, ?_⟩
        · rw [List.filterMap_append, hcalls]
          rfl
        · rw [List.filterMap_append, hresults]
          rfl

/-- Eight bytes asked for, four written and read back: a run of local calls, and its session. -/
theorem calls_are_local_cuatro : ∃ es s,
    Run (SesionStep ⟨96, 32, 0, 0⟩) (sesionInicial ⟨96, 32, 0, 0⟩ fun _ => 0) es ⟨s, [], [], none⟩ ∧
    es.filterMap Evento.llamada = [(1, .alloc 8), (1, .cpy 5 (fun _ => 42) 4), (1, .get 5 4)] ∧
    es.filterMap Evento.resultado =
      [.vuelve (.alloc 5), .vuelve (.cpy 0), .vuelve (.get 0 [42, 42, 42, 42])] := by
  let c : Config := ⟨96, 32, 0, 0⟩
  obtain ⟨s₁, hmalloc, hpasa⟩ := malloc_ocho
  have halloc : LocalStep c (museInit c fun _ => 0)
      ((1, .alloc 8), some (.vuelve (.alloc 5))) s₁ :=
    ⟨trivial, 200, ⟨0, 0⟩, by rw [llamadaLocal, hmalloc]; rfl⟩
  have hdst : c.EnMemoria (UInt32.toNat 5 - 5) 5 := by decide
  have hdentro : c.EnMemoria (UInt32.toNat 5) (Int32.toInt 4).toNat := by decide
  have hcpy : LocalStep c s₁ ((1, .cpy 5 (fun _ => 42) 4), some (.vuelve (.cpy 0)))
      { (procesarId s₁ 1).2 with memoria := copiar s₁.memoria 5 4 [42, 42, 42, 42] } :=
    ⟨show Cabe 4 by decide, 0, ⟨0, 0⟩, by
      simp only [llamadaLocal, if_pos hdst, if_pos hpasa, if_pos hdentro]
      rfl⟩
  generalize hs₂ : ({ (procesarId s₁ 1).2 with memoria := copiar s₁.memoria 5 4 [42, 42, 42, 42] } :
    Globals) = s₂ at hcpy
  have hsrc : c.EnMemoria (UInt32.toNat 5) 8 := by decide
  have hget : LocalStep c s₂ ((1, .get 5 4), some (.vuelve (.get 0 (s₂.memoria.read 5 4))))
      (procesarId s₂ 1).2 :=
    ⟨trivial, 0, ⟨0, 0⟩, by
      simp only [llamadaLocal, if_pos hsrc]
      rfl⟩
  have hleido : s₂.memoria.read 5 4 = [42, 42, 42, 42] := hs₂ ▸ read_copiar (by decide)
  rw [hleido] at hget
  obtain ⟨es, hrun, hcalls, hresults⟩ := (calls_are_local c fun _ => 0).2 _ _
    (.cons halloc (.cons hcpy (.single hget))) (by simp)
  exact ⟨es, _, hrun, hcalls, hresults⟩

end Threaders.Muse
