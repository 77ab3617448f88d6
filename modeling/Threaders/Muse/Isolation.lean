import Threaders.Muse.Server

/-!
# Isolation of the processes

`GET` and `COPY` look a process up only after they have registered it, so their guard
never fails and no address is ever checked: only `MEMFREE` answers `SEG_FAULT`, to a
process that is not registered or for a block whose header is free.  The second of these
reads the header, which may be another process's, or outside `memoria`.

## Main definitions

* `Propio`, `Ajena` — the bytes of a process, and the requests that are not its own.
* `Rechazada`, `Independiente` — a request is refused, and is so for any bytes of others.
* `isolation_iff` — the requests that are.
* `isolation_broken` — a process reads what another one stored.
-/

namespace Threaders.Muse

open Lib Common

/-! ## Requests and the bytes of a process -/

/-- The byte lies in a frame of one of the process's own segments. -/
def Propio (c : Config) (s : Globals) (id : Int32) (x : ℤ) : Prop :=
  ∃ nodo ∈ s.listaProcesos, nodo.id = id ∧ ∃ segmento ∈ nodo.listSegmento,
    ∃ i ∈ segmento.listPaginas, (s.vectorAtributoPaginas i).frame * c.pagina ≤ x ∧
      x < ((s.vectorAtributoPaginas i).frame + 1) * c.pagina

/-- A `GET`, a `COPY` or a `MEMFREE`. -/
inductive Acceso
  | get (p : TGet)
  | copy (p : TCopy)
  | memfree (p : TFree)

namespace Acceso

def paquete : Acceso → Package
  | get p => .get p
  | copy p => .copy p
  | memfree p => .memfree p

def id : Acceso → Int32
  | get p => p.idLibmuse
  | copy p => p.selfId
  | memfree p => p.selfId

/-- The address of the header in front of the block freed. -/
def cabecera (p : TFree) : ℤ := toI32 p.dir.toNat - 5

/-- The bytes a request is about.  A `MEMFREE` is about a header and the block behind it. -/
def Toca (s : Globals) : Acceso → ℤ → Prop
  | get p, x => (p.src.toNat : ℤ) ≤ x ∧ x < p.src.toNat + p.size.toInt
  | copy p, x => (p.dst.toNat : ℤ) ≤ x ∧ x < p.dst.toNat + p.size.toInt
  | memfree p, x => cabecera p ≤ x ∧ x < cabecera p + 5 + (leerHeap s.memoria (cabecera p)).size

end Acceso

/-- The process is not registered, or the request leaves the frames of its segments. -/
def Ajena (c : Config) (s : Globals) (a : Acceso) : Prop :=
  existeProcesoEnLista s a.id = none ∨ ¬ ∀ x, a.Toca s x → Propio c s a.id x

/-- The request is answered `SEG_FAULT` and changes nothing. -/
def Rechazada (c : Config) (s : Globals) (a : Acceso) : Prop :=
  Responde c s a.paquete (codigo .segFault) s

/-- Whatever the bytes that are not the process's own, the answer is `SEG_FAULT`. -/
def Independiente (c : Config) (s : Globals) (a : Acceso) : Prop :=
  ∀ m, (∀ x, Propio c s a.id x → m x = s.memoria x) →
    ∃ s', Responde c { s with memoria := m } a.paquete (codigo .segFault) s'

/-! ## When a request is refused -/

theorem length_frame_ne_codigo (m : Message) (protocol : TProtocol) : m.frame ≠ codigo protocol := by
  intro h
  have hlen := congrArg List.length h
  rw [length_frame, length_codigo] at hlen
  omega

section
variable {c : Config} {s s' : Globals}

@[simp] theorem existeProcesoEnLista_memoria (m : Mem) (id : Int32) :
    existeProcesoEnLista { s with memoria := m } id = existeProcesoEnLista s id := rfl

theorem not_responde_get (p : TGet) : ¬ Responde c s (.get p) (codigo .segFault) s' := by
  intro h
  obtain ⟨fuel, h⟩ := h ⟨0, fun _ => 0⟩ ⟨0, 0⟩
  rw [atender, atenderGet_eq, Option.ite_none_right_eq_some, Option.some.injEq,
    Prod.mk.injEq] at h
  exact length_frame_ne_codigo _ _ h.2.1

theorem not_responde_copy (p : TCopy) : ¬ Responde c s (.copy p) (codigo .segFault) s' := by
  intro h
  obtain ⟨fuel, h⟩ := h ⟨0, fun _ => 0⟩ ⟨0, 0⟩
  rcases atenderCopy_answer h with hnil | ⟨p, hframe⟩
  · exact absurd (congrArg List.length hnil) (by simp)
  · exact length_frame_ne_codigo _ _ hframe.symm

/-- The eight bytes that a `MEMFREE` reads for its header are in `memoria`, and it is free. -/
def CabeceraLibre (c : Config) (m : Mem) (p : TFree) : Prop :=
  c.EnMemoria (Acceso.cabecera p) 8 ∧ (leerHeap m (Acceso.cabecera p)).libre = true

/-- A `MEMFREE` is refused exactly if its process is not registered or the header free. -/
theorem responde_memfree_iff (p : TFree) :
    Responde c s (.memfree p) (codigo .segFault) s' ↔ s' = s ∧
      (existeProcesoEnLista s p.selfId = none ∨ CabeceraLibre c s.memoria p) := by
  constructor
  · intro h
    obtain ⟨fuel, h⟩ := h ⟨0, fun _ => 0⟩ ⟨0, 0⟩
    rw [atender] at h
    by_cases hid : existeProcesoEnLista s p.selfId = none
    · rw [atenderMemfree_none hid, Option.some.injEq, Prod.mk.injEq] at h
      exact ⟨h.2.symm, .inl hid⟩
    have hdir := enMemoria_of_memfree hid h
    cases hlibre : (leerHeap s.memoria (toI32 p.dir.toNat - 5)).libre with
    | true =>
        rw [atenderMemfree_libre hdir hlibre, Option.some.injEq, Prod.mk.injEq] at h
        exact ⟨h.2.symm, .inr ⟨hdir, hlibre⟩⟩
    | false =>
        rw [atenderMemfree_usado hid hdir hlibre, Option.map_eq_some_iff] at h
        obtain ⟨m, -, h⟩ := h
        exact absurd (congrArg Prod.fst h) (length_frame_ne_codigo _ _)
  · rintro ⟨rfl, hid | ⟨hdir, hlibre⟩⟩ u l
    · exact ⟨0, atenderMemfree_none hid⟩
    · exact ⟨0, atenderMemfree_libre hdir hlibre⟩

end

/-- In every state, exactly the `MEMFREE`s of unregistered processes and of free headers in
`memoria` are refused; and the refusal does not depend on what others stored exactly if, moreover,
the process is not registered or the byte that marks the header free is its own. -/
theorem isolation_iff (c : Config) (s : Globals) (a : Acceso) :
    (Rechazada c s a ↔ ∃ p, a = .memfree p ∧ (existeProcesoEnLista s p.selfId = none ∨
      CabeceraLibre c s.memoria p)) ∧
    (Rechazada c s a ∧ Independiente c s a ↔
      ∃ p, a = .memfree p ∧ (existeProcesoEnLista s p.selfId = none ∨
        CabeceraLibre c s.memoria p ∧ Propio c s p.selfId (Acceso.cabecera p + 4))) := by
  have hrechazada : Rechazada c s a ↔ ∃ p, a = .memfree p ∧
      (existeProcesoEnLista s p.selfId = none ∨ CabeceraLibre c s.memoria p) := by
    cases a with
    | get p => simp [Rechazada, Acceso.paquete, not_responde_get]
    | copy p => simp [Rechazada, Acceso.paquete, not_responde_copy]
    | memfree p => simp [Rechazada, Acceso.paquete, responde_memfree_iff]
  refine ⟨hrechazada, ?_⟩
  rw [hrechazada]
  constructor
  · rintro ⟨⟨p, rfl, hid | hlibre⟩, hind⟩
    · exact ⟨p, rfl, .inl hid⟩
    refine ⟨p, rfl, or_iff_not_imp_left.mpr fun hid => ⟨hlibre, ?_⟩⟩
    by_contra hpropio
    -- another process may store a zero in the byte that marks the header free
    have hpropios : ∀ x, Propio c s p.selfId x →
        Function.update s.memoria (Acceso.cabecera p + 4) 0 x = s.memoria x := by
      intro x hx
      refine Function.update_of_ne (fun heq => hpropio ?_) _ _
      rwa [heq] at hx
    obtain ⟨s', hs'⟩ := hind _ hpropios
    obtain ⟨-, hcond⟩ := (responde_memfree_iff p).mp hs'
    have hcero : (leerHeap (Function.update s.memoria (Acceso.cabecera p + 4) 0)
        (Acceso.cabecera p)).libre = false := libre_eq_false_iff.mpr (Function.update_self ..)
    rw [existeProcesoEnLista_memoria, CabeceraLibre, hcero] at hcond
    simp [hid] at hcond
  · rintro ⟨p, rfl, hcond⟩
    refine ⟨⟨p, rfl, hcond.imp_right And.left⟩, fun m hm => ⟨_, (responde_memfree_iff p).mpr ⟨rfl, ?_⟩⟩⟩
    rw [existeProcesoEnLista_memoria]
    refine hcond.imp_right fun ⟨⟨hdir, hlibre⟩, hpropio⟩ => ⟨hdir, ?_⟩
    have hbyte : m (Acceso.cabecera p + 4) = s.memoria (Acceso.cabecera p + 4) := hm _ hpropio
    rw [← hlibre]
    simp only [leerHeap, hbyte]

/-- A process that was never registered reads the byte that another one stored in its own
block, and is registered by it. -/
theorem isolation_broken : ∃ c s s', Reachable (Atiende c) (museInit c fun _ => 0) s ∧
    Ajena c s (.get ⟨5, 2, 1⟩) ∧ ¬ Rechazada c s (.get ⟨5, 2, 1⟩) ∧
    Propio c s 1 5 ∧ s.memoria 5 = 42 ∧
    Responde c s (.get ⟨5, 2, 1⟩) (Message.getOk ⟨42, 4⟩).frame s' ∧
    existeProcesoEnLista s 2 = none ∧ existeProcesoEnLista s' 2 ≠ none := by
  let c : Config := ⟨96, 32, 0, 0⟩
  let atenderUna (s : Globals) (p : Package) : Option Globals :=
    (atender 200 c ⟨0, fun _ => 0⟩ ⟨0, 0⟩ s p).map Prod.snd
  have hserved : ([.malloc ⟨8, 1⟩, .copy ⟨5, 1, 8, [42, 0, 0, 0, 0, 0, 0, 0]⟩].foldlM atenderUna
      (museInit c fun _ => 0)).map (fun s => (s.memoria 5, s.memoria.readLe 5 8, s.listaProcesos,
        (s.vectorAtributoPaginas 0).frame)) = some (42, 42, [⟨1, [⟨0, 31, [0]⟩]⟩], 0) := by
    decide +kernel
  obtain ⟨s, hs, hvalues⟩ := Option.map_eq_some_iff.mp hserved
  simp only [Prod.mk.injEq] at hvalues
  obtain ⟨hbyte, hread, hlista, hframe⟩ := hvalues
  have hrun : Run (Atiende c) (museInit c fun _ => 0) _ s :=
    .of_foldlM (fun s p t h => by
      obtain ⟨⟨respuesta, s'⟩, hatender, rfl⟩ := Option.map_eq_some_iff.mp h
      exact ⟨200, _, _, respuesta, hatender⟩) hs
  have hid : existeProcesoEnLista s 2 = none := by
    rw [existeProcesoEnLista, hlista]
    rfl
  refine ⟨c, s, (procesarId s 2).2, ⟨_, hrun⟩, .inl hid, not_responde_get _, ?_, hbyte, ?_, hid, ?_⟩
  · rw [Propio, hlista]
    refine ⟨_, List.mem_singleton_self _, rfl, _, List.mem_singleton_self _, 0,
      List.mem_singleton_self _, ?_⟩
    rw [hframe]
    decide
  · exact fun u l => ⟨0, by rw [atender, atenderGet_eq, if_pos (by decide)]; simp [hread]⟩
  · rw [existeProcesoEnLista_procesarId]
    simp

end Threaders.Muse
