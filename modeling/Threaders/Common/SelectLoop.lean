import Mathlib.Data.List.Perm.Basic
import Mathlib.Data.List.Count
import Mathlib.Data.Int.Notation
import Threaders.Lib.Run

/-!
# The select loop of the shared sockets

`socket_start_listening_select` keeps the accepted descriptors in a table of `BACKLOG` slots,
0 for an empty one, and builds the set it hands to `select` anew on every turn.  The helper
that should put the clients in the set and raise the maximum takes both by value, so `select`
only ever watches the master socket.

## Main definitions

* `socketSelectAddChildSocketsToSet`, `selectArgs` — the helper, and what `select` is given.
* `Escucha`, `EscuchaStep` — the loop with the descriptors the kernel has open.
* `TablaExacta`, `SelectCompleto` — what the table and the set should hold.
* `select_loop_complete` — the runs on which they do.
-/

namespace Threaders.Common

open Lib

/-- `BACKLOG`. -/
def BACKLOG : ℕ := 10

/-! ## The helpers -/

/-- The turns of `socket_select_add_child_sockets_to_set`: what its parameters `max_sd` and
`readfds` hold after the loop over the slots. -/
def socketSelectAddChildSocketsToSet (max_sd : ℤ) (readfds : List ℤ) :
    List ℤ → ℤ × List ℤ
  | [] => (max_sd, readfds)
  | sd :: client_socket =>
      socketSelectAddChildSocketsToSet (if max_sd < sd then sd else max_sd)
        (if 0 < sd then sd :: readfds else readfds) client_socket

/-- The first two arguments of `select`.  `readfds` and `max_sd` are passed by value: what the
helper leaves in its parameters is dropped. -/
def selectArgs (master_socket : ℤ) (client_socket : List ℤ) : ℤ × List ℤ :=
  let readfds := [master_socket]
  let max_sd := master_socket
  let _copia := socketSelectAddChildSocketsToSet max_sd readfds client_socket
  (max_sd + 1, readfds)

/-- `socket_select_add_new_client`: the first empty slot takes the descriptor. -/
def socketSelectAddNewClient (new_socket : ℤ) : List ℤ → List ℤ
  | [] => []
  | sd :: client_socket =>
      if sd = 0 then new_socket :: client_socket
      else sd :: socketSelectAddNewClient new_socket client_socket

@[simp] theorem length_addNewClient (fd : ℤ) (cs : List ℤ) :
    (socketSelectAddNewClient fd cs).length = cs.length := by
  induction cs with
  | nil => rfl
  | cons sd cs ih =>
      unfold socketSelectAddNewClient
      by_cases h : sd = 0
      · simp [h]
      · simp [h, ih]

/-- With an empty slot the table gains the descriptor; a full one is left as it is. -/
theorem count_addNewClient (fd : ℤ) (cs : List ℤ) {sd : ℤ} (hsd : sd ≠ 0) :
    (socketSelectAddNewClient fd cs).count sd =
      cs.count sd + if fd = sd ∧ 0 ∈ cs then 1 else 0 := by
  induction cs with
  | nil => simp [socketSelectAddNewClient]
  | cons sd' cs ih =>
      unfold socketSelectAddNewClient
      by_cases h : sd' = 0
      · subst h
        by_cases hfd : fd = sd
        · simp [hfd, hsd.symm]
        · simp [hfd, hsd.symm]
      · have h' : (0 : ℤ) ≠ sd' := Ne.symm h
        rw [if_neg h, List.count_cons, ih, List.count_cons]
        simp only [List.mem_cons, h', false_or]
        omega

/-- The set that the helper builds in its own parameters is the right one. -/
theorem addChildSockets_complete (max_sd : ℤ) (readfds cs : List ℤ) :
    (∀ fd ∈ readfds, fd ∈ (socketSelectAddChildSocketsToSet max_sd readfds cs).2) ∧
      max_sd ≤ (socketSelectAddChildSocketsToSet max_sd readfds cs).1 ∧
      ∀ sd ∈ cs, 0 < sd → sd ∈ (socketSelectAddChildSocketsToSet max_sd readfds cs).2 ∧
        sd ≤ (socketSelectAddChildSocketsToSet max_sd readfds cs).1 := by
  induction cs generalizing max_sd readfds with
  | nil => exact ⟨fun _ h => h, Int.le_refl _, by simp⟩
  | cons sd cs ih =>
      obtain ⟨hset, hmax, hall⟩ := ih (if max_sd < sd then sd else max_sd)
        (if 0 < sd then sd :: readfds else readfds)
      have hle : max_sd ≤ if max_sd < sd then sd else max_sd := by
        split
        · omega
        · omega
      have hle' : sd ≤ if max_sd < sd then sd else max_sd := by
        split
        · omega
        · omega
      refine ⟨fun fd hfd => hset fd ?_, Int.le_trans hle hmax, fun sd' hsd' hpos => ?_⟩
      · by_cases h : 0 < sd
        · rw [if_pos h]
          exact List.mem_cons_of_mem sd hfd
        · rw [if_neg h]
          exact hfd
      · rcases List.mem_cons.1 hsd' with rfl | hmem
        · refine ⟨hset sd' ?_, Int.le_trans hle' hmax⟩
          rw [if_pos hpos]
          exact List.mem_cons_self
        · exact hall sd' hmem hpos

/-! ## The loop -/

/-- Where a turn of the loop is: after `select`, or past the accepting of a new client. -/
inductive Fase
  | recibir | revisar
  deriving DecidableEq, Repr

/-- The locals of `socket_start_listening_select`, and the accepted descriptors that are open. -/
structure Escucha where
  master_socket : ℤ
  client_socket : List ℤ
  readfds : List ℤ
  abiertos : List ℤ
  fase : Fase
  deriving DecidableEq, Repr

/-- The loop on entry: `socket_select_init_clients` has emptied every slot. -/
def Escucha.inicio (master_socket : ℤ) : Escucha where
  master_socket := master_socket
  client_socket := List.replicate BACKLOG 0
  readfds := []
  abiertos := []
  fase := .revisar

/-- What happens on a turn: `select` returns with the ready descriptors, a client is accepted,
`socket_select_close_and_reuse` is called on a slot. -/
inductive Suceso
  | select (listos : List ℤ)
  | accept (new_socket : ℤ)
  | close (i : ℕ)
  deriving DecidableEq, Repr

/-- A step of the loop.  `select` leaves in `readfds` a part of what it was given; a client is
accepted once a turn, when the master socket is ready, and gets a descriptor that is not in
use; the slots are closed in `socket_select_check_operations`, after that. -/
inductive EscuchaStep : Escucha → Suceso → Escucha → Prop
  | select (s : Escucha) (listos : List ℤ)
      (hsub : listos ⊆ (selectArgs s.master_socket s.client_socket).2) :
      EscuchaStep s (.select listos) { s with readfds := listos, fase := .recibir }
  | accept (s : Escucha) (fd : ℤ) (hfase : s.fase = .recibir)
      (hready : s.master_socket ∈ s.readfds) (hfd : 0 ≤ fd) (hmaster : fd ≠ s.master_socket)
      (hfresh : fd ∉ s.abiertos) :
      EscuchaStep s (.accept fd)
        { s with
          client_socket := socketSelectAddNewClient fd s.client_socket
          abiertos := fd :: s.abiertos
          fase := .revisar }
  | close (s : Escucha) (i : ℕ) (sd : ℤ) (hi : s.client_socket[i]? = some sd) :
      EscuchaStep s (.close i)
        { s with
          client_socket := s.client_socket.set i 0
          abiertos := s.abiertos.erase sd
          fase := .revisar }

theorem EscuchaStep.deterministic : Deterministic EscuchaStep := by
  intro s e t t' h h'
  cases h with
  | select listos hsub =>
      cases h'
      rfl
  | accept fd =>
      cases h'
      rfl
  | close i sd hi =>
      cases h' with
      | close _ sd' hi' =>
          obtain rfl : sd = sd' := Option.some.inj (hi.symm.trans hi')
          rfl

/-- The slots in use hold exactly the open descriptors, each once. -/
structure TablaExacta (s : Escucha) : Prop where
  nodup : s.abiertos.Nodup
  slots : (s.client_socket.filter (· ≠ 0)).Perm s.abiertos

/-- `select` is given the master socket and every open descriptor, and a first argument above
them. -/
def SelectCompleto (s : Escucha) : Prop :=
  ∀ sd ∈ s.master_socket :: s.abiertos,
    sd ∈ (selectArgs s.master_socket s.client_socket).2 ∧
      sd < (selectArgs s.master_socket s.client_socket).1

/-- The table is exact, and what `select` was called with just now was complete (the call
changes neither the table nor the descriptors). -/
def Completo (es : List Suceso) (s : Escucha) : Prop :=
  TablaExacta s ∧ ∀ listos, es.getLast? = some (.select listos) → SelectCompleto s

/-- The steps that keep the table exact: a client accepted takes an empty slot, and is not the
descriptor that marks the empty ones. -/
def MantieneTabla (s : Escucha) : Suceso → Prop
  | .accept fd => fd ≠ 0 ∧ s.abiertos.length < BACKLOG
  | _ => True

/-- The steps that keep the whole: moreover `select` is only called without clients. -/
def MantieneSelect (s : Escucha) : Suceso → Prop
  | .select _ => s.abiertos = []
  | .accept fd => fd ≠ 0
  | .close _ => True

/-! ## The table -/

/-- The invariant of the table: as `TablaExacta`, by counting, over `BACKLOG` slots. -/
structure Ocupacion (s : Escucha) : Prop where
  length : s.client_socket.length = BACKLOG
  nodup : s.abiertos.Nodup
  zero : (0 : ℤ) ∉ s.abiertos
  count : ∀ sd, sd ≠ 0 → s.client_socket.count sd = s.abiertos.count sd

theorem TablaExacta.zero {s : Escucha} (h : TablaExacta s) : (0 : ℤ) ∉ s.abiertos := by
  intro hmem
  have := h.slots.symm.subset hmem
  simp at this

theorem TablaExacta.count {s : Escucha} (h : TablaExacta s) {sd : ℤ} (hsd : sd ≠ 0) :
    s.client_socket.count sd = s.abiertos.count sd := by
  rw [← h.slots.count_eq, List.count_filter (by simpa using hsd)]

namespace Ocupacion

variable {s : Escucha} {fd : ℤ}

theorem tablaExacta (h : Ocupacion s) : TablaExacta s := by
  refine ⟨h.nodup, List.perm_iff_count.2 fun sd => ?_⟩
  by_cases hsd : sd = 0
  · subst hsd
    rw [List.count_eq_zero.2 h.zero, List.count_eq_zero]
    simp
  · rw [List.count_filter (by simpa using hsd)]
    exact h.count sd hsd

/-- There is an empty slot exactly when fewer than `BACKLOG` descriptors are open. -/
theorem zero_mem_iff (h : Ocupacion s) :
    0 ∈ s.client_socket ↔ s.abiertos.length < BACKLOG := by
  rw [← h.length, ← h.tablaExacta.slots.length_eq, List.length_filter_lt_length_iff_exists]
  simp

theorem inicio (m : ℤ) : Ocupacion (Escucha.inicio m) where
  length := by simp [Escucha.inicio]
  nodup := List.nodup_nil
  zero := List.not_mem_nil
  count := by
    intro sd hsd
    simp [Escucha.inicio, List.count_replicate, hsd.symm]

/-- Accepting a client into an empty slot. -/
theorem accept (h : Ocupacion s) {s' : Escucha} (hstep : EscuchaStep s (.accept fd) s')
    (hfd : fd ≠ 0) (hlen : s.abiertos.length < BACKLOG) : Ocupacion s' := by
  cases hstep with
  | accept _ hfase hready hpos hmaster hfresh =>
      refine ⟨by simpa using h.length, List.nodup_cons.2 ⟨hfresh, h.nodup⟩, ?_, ?_⟩
      · rw [List.mem_cons, not_or]
        exact ⟨hfd.symm, h.zero⟩
      · intro sd hsd
        change (socketSelectAddNewClient fd s.client_socket).count sd = (fd :: s.abiertos).count sd
        rw [count_addNewClient fd _ hsd, List.count_cons, h.count sd hsd]
        simp [h.zero_mem_iff.2 hlen]

/-- Accepting one that the table cannot take. -/
theorem accept_lost (h : Ocupacion s) {s' : Escucha} (hstep : EscuchaStep s (.accept fd) s')
    (hP : TablaExacta s') : fd ≠ 0 ∧ s.abiertos.length < BACKLOG := by
  cases hstep with
  | accept _ hfase hready hpos hmaster hfresh =>
      have hfd : fd ≠ 0 := by
        rintro rfl
        exact hP.zero List.mem_cons_self
      refine ⟨hfd, h.zero_mem_iff.1 ?_⟩
      have hcount := hP.count hfd
      change (socketSelectAddNewClient fd s.client_socket).count fd =
        (fd :: s.abiertos).count fd at hcount
      rw [count_addNewClient fd _ hfd, h.count fd hfd, List.count_cons_self] at hcount
      by_contra hzero
      simp [hzero] at hcount

/-- Closing a slot takes its descriptor out of the table and of the open ones. -/
theorem close (h : Ocupacion s) {s' : Escucha} {i : ℕ}
    (hstep : EscuchaStep s (.close i) s') : Ocupacion s' := by
  cases hstep with
  | close _ sd hi =>
      obtain ⟨hlt, hget⟩ := List.getElem?_eq_some_iff.1 hi
      refine ⟨by simpa using h.length, h.nodup.erase sd,
        fun hmem => h.zero (List.mem_of_mem_erase hmem), fun sd' hsd' => ?_⟩
      change (s.client_socket.set i 0).count sd' = (s.abiertos.erase sd).count sd'
      rw [List.count_set hlt, hget, h.count sd' hsd', List.count_erase]
      simp [hsd'.symm]

end Ocupacion

/-- The step lemma of the table. -/
theorem ocupacion_step {s s' : Escucha} {e : Suceso} (h : Ocupacion s)
    (hstep : EscuchaStep s e s') :
    (MantieneTabla s e → Ocupacion s') ∧ (TablaExacta s' → MantieneTabla s e) := by
  cases e with
  | select listos =>
      cases hstep
      exact ⟨fun _ => ⟨h.length, h.nodup, h.zero, h.count⟩, fun _ => trivial⟩
  | accept fd => exact ⟨fun hC => h.accept hstep hC.1 hC.2, fun hP => h.accept_lost hstep hP⟩
  | close i => exact ⟨fun _ => h.close hstep, fun _ => trivial⟩

/-! ## The set -/

/-- `select` is complete only without clients, and then it is. -/
theorem selectCompleto_iff {s : Escucha} (hmaster : s.master_socket ∉ s.abiertos) :
    SelectCompleto s ↔ s.abiertos = [] := by
  constructor
  · intro h
    rw [List.eq_nil_iff_forall_not_mem]
    intro sd hsd
    obtain rfl : sd = s.master_socket := by
      simpa [selectArgs] using (h sd (List.mem_cons_of_mem _ hsd)).1
    exact hmaster hsd
  · intro h sd hsd
    obtain rfl : sd = s.master_socket := by simpa [h] using hsd
    simp only [selectArgs, List.mem_singleton, true_and]
    omega

/-- The invariant of the runs that never call `select` with a client: at most one is open, and
none between `select` and the accepting. -/
structure UnCliente (s : Escucha) : Prop where
  ocupacion : Ocupacion s
  master : s.master_socket ∉ s.abiertos
  uno : s.abiertos.length ≤ 1
  recibir : s.fase = .recibir → s.abiertos = []

theorem UnCliente.inicio (m : ℤ) : UnCliente (Escucha.inicio m) where
  ocupacion := .inicio m
  master := List.not_mem_nil
  uno := Nat.zero_le 1
  recibir := by simp [Escucha.inicio]

/-- The step lemma of the whole. -/
theorem unCliente_step {s s' : Escucha} {e : Suceso} {es : List Suceso} (h : UnCliente s)
    (hstep : EscuchaStep s e s') :
    (MantieneSelect s e → UnCliente s' ∧
        ∀ listos, (es ++ [e]).getLast? = some (.select listos) → SelectCompleto s') ∧
      (Completo (es ++ [e]) s' → MantieneSelect s e) := by
  have htabla := ocupacion_step h.ocupacion hstep
  simp only [Completo, List.getLast?_append, List.getLast?_singleton, Option.some_or,
    Option.some.injEq]
  cases e with
  | select listos =>
      cases hstep
      refine ⟨fun hC => ⟨⟨htabla.1 trivial, h.master, h.uno, fun _ => hC⟩, fun _ _ => ?_⟩, ?_⟩
      · exact (selectCompleto_iff h.master).2 hC
      · intro hP
        exact (selectCompleto_iff h.master).1 (hP.2 listos rfl)
  | accept fd =>
      refine ⟨fun hC => ⟨?_, by simp⟩, fun hP => (htabla.2 hP.1).1⟩
      cases hstep with
      | accept _ hfase hready hpos hmaster hfresh =>
          have hnil := h.recibir hfase
          refine ⟨htabla.1 ⟨hC, by simp [hnil, BACKLOG]⟩, ?_, by simp [hnil], by simp⟩
          simpa [hnil] using hmaster.symm
  | close i =>
      refine ⟨fun _ => ⟨?_, by simp⟩, fun _ => trivial⟩
      have hocup := htabla.1 trivial
      cases hstep with
      | close _ sd hi =>
          exact ⟨hocup, fun hmem => h.master (List.mem_of_mem_erase hmem),
            Nat.le_trans List.length_erase_le h.uno, by simp⟩

/-! ## Every run -/

/-- The runs of the loop on which the table always holds the open descriptors and `select` is
always given all of them are those on which every client is gone before the next `select` (and
none got the descriptor 0); the ones that keep the table alone are those that accept a client
only into an empty slot. -/
theorem select_loop_complete (m : ℤ) {es : List Suceso} {s : Escucha}
    (h : Run EscuchaStep (Escucha.inicio m) es s) :
    (Along EscuchaStep Completo (Escucha.inicio m) es ↔
        EachStep EscuchaStep MantieneSelect (Escucha.inicio m) es) ∧
      (Along EscuchaStep (fun _ s => TablaExacta s) (Escucha.inicio m) es ↔
        EachStep EscuchaStep MantieneTabla (Escucha.inicio m) es) := by
  constructor
  · rw [along_iff (I := fun es s => UnCliente s ∧
        ∀ listos, es.getLast? = some (.select listos) → SelectCompleto s)
      (C := MantieneSelect) EscuchaStep.deterministic
      (fun _ _ hI => ⟨hI.1.ocupacion.tablaExacta, hI.2⟩)
      (fun _ => ⟨UnCliente.inicio m, by simp⟩)
      (fun _ _ _ _ hI hstep => unCliente_step hI.1 hstep) h]
    exact and_iff_right ⟨(Ocupacion.inicio m).tablaExacta, by simp⟩
  · rw [along_iff (I := fun _ s => Ocupacion s) (C := MantieneTabla) EscuchaStep.deterministic
      (fun _ _ hI => hI.tablaExacta) (fun _ => Ocupacion.inicio m)
      (fun _ _ _ _ hI hstep => ocupacion_step hI hstep) h]
    exact and_iff_right (Ocupacion.inicio m).tablaExacta

/-- The loop with master socket 3 after `select` and a client on descriptor 4. -/
def escuchaUno : Escucha where
  master_socket := 3
  client_socket := 4 :: List.replicate 9 0
  readfds := [3]
  abiertos := [4]
  fase := .revisar

theorem escuchaUno_run :
    Run EscuchaStep (Escucha.inicio 3) [.select [3], .accept 4] escuchaUno :=
  .cons (.select _ [3] (by decide))
    (.cons (.accept _ 4 rfl (by decide) (by decide) (by decide) (by decide)) (.nil _))

/-- One client accepted: the table holds it. -/
theorem select_loop_complete_uno :
    Along EscuchaStep (fun _ s => TablaExacta s) (Escucha.inicio 3)
      ([.select [3]] ++ [.accept 4]) := by
  have hselect : Run EscuchaStep (Escucha.inicio 3) ([] ++ [.select [3]])
      { Escucha.inicio 3 with readfds := [3], fase := .recibir } :=
    .single (.select _ [3] (by decide))
  have hfirst := (eachStep_snoc (C := MantieneTabla) EscuchaStep.deterministic
    (.nil (Escucha.inicio 3)) (e := .select [3])).2 ⟨eachStep_nil, trivial⟩
  refine (select_loop_complete 3 escuchaUno_run).2.2 ?_
  exact (eachStep_snoc EscuchaStep.deterministic hselect).2 ⟨hfirst, by decide, by decide⟩

/-- The next `select` does not watch it. -/
theorem select_misses_client :
    ∃ s, Run EscuchaStep (Escucha.inicio 3) ([.select [3], .accept 4] ++ [.select [3]]) s ∧
      ¬ Completo ([.select [3], .accept 4] ++ [.select [3]]) s := by
  refine ⟨_, escuchaUno_run.snoc (.select _ [3] (by decide)), fun h => ?_⟩
  have hclient := (h.2 [3] rfl 4 (by decide)).1
  exact absurd hclient (by decide)

end Threaders.Common
