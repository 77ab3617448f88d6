import Threaders.Muse.Server

/-!
# A connection that ends inside a message

Of the three `recv`s that a message takes, the server looks at the result of the first only,
and there only at whether anything has come.  What did not come is what memory held: the last
bytes of the previous operation code, the uninitialised size, the fresh buffer.

## Main definitions

* `Conexion`, `rondaConexion` — the connection in front of the `recv` of an operation code, and
  an iteration of the loop with the request it acts on.
* `Servido` — the run of the loop up to the end of the stream, with the requests acted on.
-/

namespace Threaders.Muse

open Lib Common

/-! ## The loop with its variable -/

/-- The loop over the connection: the bytes of the variable `protocol`, the globals, and what is
left to receive before the stream ends, all of it arrived. -/
structure Conexion where
  protocol : ℕ → UInt8
  servidor : Globals
  entrada : Bytes

/-- The bytes of `protocol` after the `recv` of an operation code.  Without `MSG_WAITALL`, as
with it at the end of the stream, fewer than four bytes leave the others in place. -/
def Conexion.codigo (σ : Conexion) : Bytes := overwrite σ.protocol 4 (recvWaitAll 4 σ.entrada).1

/-- The connection after that `recv`. -/
def Conexion.recibida (σ : Conexion) : Conexion :=
  { σ with protocol := fun i => σ.codigo.getD i 0, entrada := (recvWaitAll 4 σ.entrada).2 }

/-- The operation codes with a case that receives a request. -/
def tieneCaso : TProtocol → Bool
  | .malloc | .memfree | .get | .copy => true
  | _ => false

/-- The case of an operation code: the request it receives and acts on, and the connection. -/
def pedido (fuel : ℕ) (c : Config) (u : Uninit) (l : Locales) (σ : Conexion)
    (protocol : TProtocol) : Option (Option Package × Conexion) := do
  let (recibido, entrada) ← utilsReceiveAndDeserialize u σ.entrada protocol
  let peticion ← recibido
  let (_, s) ← atender fuel c u l σ.servidor peticion
  some (some peticion, { σ with servidor := s, entrada := entrada })

/-- The `switch` on an operation code: the request acted on, if there is a case for it. -/
def casoConexion (fuel : ℕ) (c : Config) (u : Uninit) (l : Locales) (σ : Conexion) :
    Option TProtocol → Option (Option Package × Conexion)
  | none => some (none, σ)
  | some protocol =>
      if tieneCaso protocol then pedido fuel c u l σ protocol else some (none, σ)

/-- An iteration of the loop of `muse_server_init`, after a `recv` that took something. -/
def rondaConexion (fuel : ℕ) (c : Config) (u : Uninit) (l : Locales) (σ : Conexion) :
    Option (Option Package × Conexion) :=
  casoConexion fuel c u l σ.recibida (TProtocol.ofInt (intOfBytes σ.codigo))

/-- The loop from its `n`th iteration to the `exit` at the end of the stream, where `recv` takes
nothing, with the requests it acts on.  `G` is what uninitialised memory holds in each
iteration. -/
inductive Servido (c : Config) (G : ℕ → Uninit × Locales) :
    ℕ → Conexion → List Package → Globals → Prop
  | fin {n : ℕ} {σ : Conexion} (h : σ.entrada = []) : Servido c G n σ [] σ.servidor
  | ronda {n fuel : ℕ} {σ σ' : Conexion} {acto : Option Package} {ps : List Package}
      {s : Globals} (hne : σ.entrada ≠ [])
      (h : rondaConexion fuel c (G n).1 (G n).2 σ = some (acto, σ'))
      (hresto : Servido c G (n + 1) σ' ps s) : Servido c G n σ (acto.toList ++ ps) s

/-- The messages that the client library puts on the connection. -/
def DeCliente (m : Message) : Prop :=
  tieneCaso m.protocol = true ∧ m.body.length + 8 < 2147483648

instance (m : Message) : Decidable (DeCliente m) := inferInstanceAs (Decidable (_ ∧ _))

/-! ## Iterations -/

section Iterations
variable {fuel n : ℕ} {c : Config} {u : Uninit} {l : Locales} {σ σ' : Conexion}
  {acto : Option Package} {G : ℕ → Uninit × Locales} {ps : List Package} {s s' : Globals}
  {m : Message} {ms : List Message} {old : ℕ → UInt8} {resto : Bytes} {k : ℕ}

theorem pedido_caso (protocol : TProtocol) :
    (pedido fuel c u l σ protocol).map (fun r => (r.2.entrada, r.2.servidor))
      = (casoServidor.pedido fuel c u l σ.servidor σ.entrada protocol).map
          fun r => (r.1, r.2.1) := by
  rw [pedido, casoServidor.pedido]
  generalize utilsReceiveAndDeserialize u σ.entrada protocol = recibe
  cases recibe with
  | none => rfl
  | some recibe =>
      obtain ⟨_ | peticion, entrada⟩ := recibe
      · rfl
      · simp only [Option.bind_eq_bind, Option.bind_some]
        cases atender fuel c u l σ.servidor peticion <;> rfl

/-- But for what it sends, the `switch` is that of `casoServidor`. -/
theorem casoConexion_caso (codigo : Option TProtocol) :
    (casoConexion fuel c u l σ codigo).map (fun r => (r.2.entrada, r.2.servidor))
      = (casoServidor fuel c u l σ.servidor σ.entrada codigo).map fun r => (r.1, r.2.1) := by
  cases codigo with
  | none => rfl
  | some protocol =>
      cases protocol with
      | malloc => exact pedido_caso .malloc
      | memfree => exact pedido_caso .memfree
      | get => exact pedido_caso .get
      | copy => exact pedido_caso .copy
      | _ => rfl

/-- A case acts on the request that is received. -/
theorem pedido_inv {protocol : TProtocol} (h : pedido fuel c u l σ protocol = some (acto, σ')) :
    ∃ peticion s', acto = some peticion ∧
      utilsReceiveAndDeserialize u σ.entrada protocol = some (some peticion, σ'.entrada) ∧
      σ' = { σ with servidor := s', entrada := σ'.entrada } := by
  unfold pedido at h
  simp only [Option.bind_eq_bind, Option.bind_eq_some_iff, Option.some.injEq, Prod.mk.injEq] at h
  obtain ⟨⟨recibido, entrada⟩, hrecibido, peticion, hpeticion, r, hatiende, rfl, rfl⟩ := h
  obtain rfl : recibido = some peticion := hpeticion
  exact ⟨peticion, r.2, rfl, hrecibido, rfl⟩

/-- Where the four bytes are an operation code with a case, the loop goes to it. -/
theorem rondaConexion_pedido {protocol : TProtocol}
    (hcodigo : σ.codigo = leBytes 4 protocol.code) (hcaso : tieneCaso protocol = true) :
    rondaConexion fuel c u l σ = pedido fuel c u l σ.recibida protocol := by
  rw [rondaConexion, hcodigo, intOfBytes_code, TProtocol.ofInt_code]
  exact if_pos hcaso

/-- Where they are the code of nothing, the loop goes on behind them. -/
theorem rondaConexion_none (h : TProtocol.ofInt (intOfBytes σ.codigo) = none) :
    rondaConexion fuel c u l σ = some (none, σ.recibida) := by
  rw [rondaConexion, h, casoConexion]

/-- Unless the stream has ended, the loop makes another iteration. -/
theorem Servido.inv (h : Servido c G n σ ps s) (hne : σ.entrada ≠ []) :
    ∃ fuel acto σ' ps', rondaConexion fuel c (G n).1 (G n).2 σ = some (acto, σ') ∧
      Servido c G (n + 1) σ' ps' s ∧ ps = acto.toList ++ ps' := by
  cases h with
  | fin h => exact absurd h hne
  | ronda _ h hresto => exact ⟨_, _, _, _, h, hresto, rfl⟩

/-- A loop that acts on nothing more has no operation code with a case in front of it. -/
theorem Servido.codigo_ne {protocol : TProtocol} (h : Servido c G n σ [] s)
    (hne : σ.entrada ≠ []) (hcaso : tieneCaso protocol = true) :
    σ.codigo ≠ leBytes 4 protocol.code := by
  intro hcodigo
  obtain ⟨fuel, acto, σ', ps', hronda, -, hnil⟩ := h.inv hne
  rw [rondaConexion_pedido hcodigo hcaso] at hronda
  obtain ⟨peticion, s', rfl, -⟩ := pedido_inv hronda
  cases hnil

/-! ## Complete messages -/

theorem codigo_frame : Conexion.codigo ⟨old, s, m.frame ++ resto⟩ = leBytes 4 m.protocol.code := by
  rw [Conexion.codigo, recvWaitAll_frame, overwrite_of_length (length_leBytes _ _)]

theorem recibida_frame : Conexion.recibida ⟨old, s, m.frame ++ resto⟩
    = ⟨fun i => (leBytes 4 m.protocol.code).getD i 0, s,
        lengthBytes m.body.length ++ m.body ++ resto⟩ := by
  rw [Conexion.recibida, codigo_frame, recvWaitAll_frame]

theorem leBytes_code (protocol : TProtocol) :
    leBytes 4 protocol.code = [UInt8.ofNat protocol.code, 0, 0, 0] := by
  cases protocol <;> rfl

/-- A complete message is acted on as itself, and leaves zeros behind the first byte of
`protocol`. -/
theorem rondaConexion_frame (hm : DeCliente m)
    (h : rondaConexion fuel c u l ⟨old, s, m.frame ++ resto⟩ = some (acto, σ')) :
    acto = some m.package ∧ ∃ old' s', σ' = ⟨old', s', resto⟩ ∧
      ∀ j, 1 ≤ j → j < 4 → old' j = 0 := by
  obtain ⟨hcaso, hfits⟩ := hm
  rw [rondaConexion_pedido codigo_frame hcaso, recibida_frame] at h
  obtain ⟨peticion, s', rfl, hrecibe, hσ⟩ := pedido_inv h
  simp only [receive_frame u m resto (by omega), Option.some.injEq, Prod.mk.injEq] at hrecibe
  obtain ⟨hpeticion, hentrada⟩ := hrecibe
  refine ⟨by rw [hpeticion], _, s', by rw [hσ, ← hentrada], ?_⟩
  intro j hj hlt
  have hbytes : (leBytes 4 m.protocol.code).getD j 0 = 0 := by
    rw [leBytes_code]
    obtain rfl | rfl | rfl : j = 1 ∨ j = 2 ∨ j = 3 := by omega
    all_goals rfl
  exact hbytes

/-- The complete messages take the loop to what lies behind them. -/
theorem Servido.frames (hms : ∀ x ∈ ms, DeCliente x)
    (h : Servido c G n ⟨old, s, ms.flatMap Message.frame ++ resto⟩ (ms.map Message.package) s') :
    ∃ n' old' s'', Servido c G n' ⟨old', s'', resto⟩ [] s' ∧
      (ms = [] ∧ old' = old ∨ ∀ j, 1 ≤ j → j < 4 → old' j = 0) := by
  induction ms generalizing n old s with
  | nil => exact ⟨n, old, s, h, Or.inl ⟨rfl, rfl⟩⟩
  | cons m ms ih =>
      rw [List.flatMap_cons, List.append_assoc] at h
      have hne : m.frame ++ (ms.flatMap Message.frame ++ resto) ≠ [] := by
        apply List.ne_nil_of_length_pos
        rw [List.length_append, length_frame]
        omega
      obtain ⟨fuel, acto, σ', ps', hronda, hresto, hps⟩ := h.inv hne
      obtain ⟨rfl, old', s'', rfl, hcero⟩ :=
        rondaConexion_frame (hms m List.mem_cons_self) hronda
      obtain rfl : ms.map Message.package = ps' := (List.cons.inj hps).2
      obtain ⟨n₃, old₃, s₃, h₃, hold₃⟩ := ih (fun x hx => hms x (List.mem_cons_of_mem m hx)) hresto
      refine ⟨n₃, old₃, s₃, h₃, Or.inr ?_⟩
      rcases hold₃ with ⟨-, rfl⟩ | hcero₃
      · exact hcero
      · exact hcero₃

/-! ## A message cut off -/

/-- What a beginning of a message leaves in `protocol`. -/
theorem codigo_take (hk : 0 < k) : Conexion.codigo ⟨old, s, m.frame.take k⟩
    = [UInt8.ofNat m.protocol.code, if 1 < k then 0 else old 1, if 2 < k then 0 else old 2,
        if 3 < k then 0 else old 3] := by
  have htake : (m.frame.take k).take 4 = (leBytes 4 m.protocol.code).take k := by
    rw [List.take_take, Nat.min_comm, ← List.take_take, Message.frame, List.append_assoc,
      List.take_left' (length_leBytes _ _)]
  rw [Conexion.codigo, recvWaitAll, htake, leBytes_code]
  obtain rfl | rfl | rfl | ⟨k, rfl⟩ : k = 1 ∨ k = 2 ∨ k = 3 ∨ ∃ k', k = k' + 4 := by
    by_cases h4 : 4 ≤ k
    · exact Or.inr (Or.inr (Or.inr ⟨k - 4, by omega⟩))
    · omega
  · rfl
  · rfl
  · rfl
  · simp [overwrite]

/-- The four bytes are the operation code of the message where it is there whole or the bytes
left over are zeros. -/
theorem codigo_take_iff (hk : 0 < k) :
    Conexion.codigo ⟨old, s, m.frame.take k⟩ = leBytes 4 m.protocol.code ↔
      ∀ j, k ≤ j → j < 4 → old j = 0 := by
  rw [codigo_take hk, leBytes_code]
  simp only [List.cons.injEq, true_and, and_true, ite_eq_left_iff, not_lt]
  constructor
  · rintro ⟨h₁, h₂, h₃⟩ j hj hlt
    obtain rfl | rfl | rfl : j = 1 ∨ j = 2 ∨ j = 3 := by omega
    · exact h₁ hj
    · exact h₂ hj
    · exact h₃ hj
  · intro h
    exact ⟨fun hj => h 1 hj (by decide), fun hj => h 2 hj (by decide),
      fun hj => h 3 hj (by decide)⟩

/-- Four bytes that select an operation code are its code. -/
theorem eq_leBytes_of_ofInt {bs : Bytes} {protocol : TProtocol} (hlen : bs.length = 4)
    (h : TProtocol.ofInt (intOfBytes bs) = some protocol) : bs = leBytes 4 protocol.code := by
  have hlt := ofLeBytes_lt bs
  rw [hlen] at hlt
  have hcode := TProtocol.code_of_ofInt h
  have hsmall := protocol.code_lt
  rw [intOfBytes] at hcode
  rw [← leBytes_ofLeBytes hlen]
  generalize ofLeBytes bs = x at hlt hcode ⊢
  have hx : x = protocol.code := by
    unfold toI32 at hcode
    omega
  rw [hx]

/-- A beginning that leaves another byte than zero selects nothing. -/
theorem ofInt_codigo_take (hk : 0 < k) {j : ℕ} (hj : k ≤ j) (hlt : j < 4) (hold : old j ≠ 0) :
    TProtocol.ofInt (intOfBytes (Conexion.codigo ⟨old, s, m.frame.take k⟩)) = none := by
  cases hprotocol : TProtocol.ofInt (intOfBytes (Conexion.codigo ⟨old, s, m.frame.take k⟩)) with
  | none => rfl
  | some protocol =>
      have hbytes := eq_leBytes_of_ofInt (by rw [codigo_take hk]; rfl) hprotocol
      rw [codigo_take hk, leBytes_code] at hbytes
      simp only [List.cons.injEq, and_true, ite_eq_left_iff, not_lt] at hbytes
      obtain ⟨-, h₁, h₂, h₃⟩ := hbytes
      obtain rfl | rfl | rfl : j = 1 ∨ j = 2 ∨ j = 3 := by omega
      · exact absurd (h₁ hj) hold
      · exact absurd (h₂ hj) hold
      · exact absurd (h₃ hj) hold

/-- The bytes of an `int` are those of its value as a length. -/
theorem intBytes_eq (x : Int32) : intBytes x = lengthBytes x.toInt := by
  have hlt := x.toUInt32.toNat_lt
  rw [lengthBytes, ← toI32_toUInt32, toU32_toI32, toU32_of_mem (by omega) (by omega),
    Int.toNat_natCast, intBytes]

/-- The uninitialised size and the fresh buffer hold what a sender puts behind the operation
code of a message. -/
structure Completa (u : Uninit) (m : Message) : Prop where
  size : u.size.toInt = m.body.length
  heap : ∀ i (hi : i < m.body.length), u.heap i = m.body[i]

/-- A message cut off behind its operation code is received whole where memory completes it. -/
theorem Completa.receive (h : Completa u m) (k : ℕ) :
    utilsReceiveAndDeserialize u ((lengthBytes m.body.length ++ m.body).take k) m.protocol
      = some (some m.package, []) := by
  have hfits : m.body.length < 2147483648 := by
    have hlt := u.size.toInt_lt
    rw [h.size] at hlt
    omega
  have hint : intOfBytes (lengthBytes m.body.length) = m.body.length :=
    intOfBytes_lengthBytes (by omega) (by omega)
  have htake : ((lengthBytes m.body.length ++ m.body).take k).take 4
      = (lengthBytes m.body.length).take k := by
    rw [List.take_take, Nat.min_comm, ← List.take_take, List.take_left' (length_lengthBytes _)]
  have hdrop : ((lengthBytes m.body.length ++ m.body).take k).drop 4 = m.body.take (k - 4) := by
    rw [List.drop_take, List.drop_left' (length_lengthBytes _)]
  have hsize : overwrite (fun i => (intBytes u.size).getD i 0) 4
      ((lengthBytes m.body.length).take k) = lengthBytes m.body.length := by
    have hbytes : overwrite (fun i => (intBytes u.size).getD i 0)
        (lengthBytes m.body.length).length ((lengthBytes m.body.length).take k) = _ :=
      overwrite_take k fun i hi => by rw [intBytes_eq, h.size, List.getD_eq_getElem?_getD,
        List.getElem?_eq_getElem hi, Option.getD_some]
    rwa [length_lengthBytes] at hbytes
  have hle : (m.body.take (k - 4)).length ≤ m.body.length := by
    rw [List.length_take]
    omega
  have hbuffer : utilsReceiveBuffer u ((lengthBytes m.body.length ++ m.body).take k)
      = ((m.body.length : ℤ), m.body, []) := by
    simp only [utilsReceiveBuffer, recvWaitAll, htake, hdrop, hsize, hint, Int.toNat_natCast,
      List.take_of_length_le hle, List.drop_of_length_le hle, overwrite_take (k - 4) h.heap]
  have hparts := receiveParts_encodeParts [] m.parts hfits
  rw [List.nil_append, List.length_nil, ← Message.body_eq] at hparts
  apply receive_of_parts
  simp only [utilsReceivePackage, hbuffer, hparts, Option.bind_eq_bind, Option.bind_some]

/-- A `GET` of eight bytes of `memoria`, cut off behind its operation code, is performed where
memory completes it, in every state. -/
theorem truncated_get_served {p : TGet} (h : Completa (G n).1 (.get p)) (hk : 4 ≤ k)
    (hsrc : c.EnMemoria p.src.toNat 8) :
    Servido c G n ⟨old, s, (Message.get p).frame.take k⟩ [.get p] (procesarId s p.idLibmuse).2 := by
  have hne : (Message.get p).frame.take k ≠ [] := by
    apply List.ne_nil_of_length_pos
    rw [List.length_take, length_frame]
    omega
  have hentrada : (Conexion.recibida ⟨old, s, (Message.get p).frame.take k⟩).entrada
      = (lengthBytes (Message.get p).body.length ++ (Message.get p).body).take (k - 4) := by
    rw [Conexion.recibida, recvWaitAll, Message.frame, List.append_assoc, List.drop_take,
      List.drop_left' (length_leBytes _ _)]
  have hcodigo : Conexion.codigo ⟨old, s, (Message.get p).frame.take k⟩
      = leBytes 4 (Message.get p).protocol.code :=
    (codigo_take_iff (by omega)).mpr fun j hj hlt => absurd hlt (by omega)
  have hrecibe := h.receive (k - 4)
  rw [← hentrada] at hrecibe
  have hronda : rondaConexion 0 c (G n).1 (G n).2 ⟨old, s, (Message.get p).frame.take k⟩
      = some (some (.get p),
          ⟨(Conexion.recibida ⟨old, s, (Message.get p).frame.take k⟩).protocol,
            (procesarId s p.idLibmuse).2, []⟩) := by
    rw [rondaConexion_pedido hcodigo rfl, pedido, hrecibe]
    simp only [Option.bind_eq_bind, Option.bind_some, Message.package, atender, atenderGet_eq,
      if_pos hsrc, Conexion.recibida]
  exact .ronda hne hronda (.fin rfl)

end Iterations

/-- **A message cut off is taken for a request.**  Whatever uninitialised memory holds, the loop
performs the requests of the complete messages and no other exactly where there are none, the
stream ends inside an operation code, and the uninitialised bytes of `protocol` behind it are not
all zero. -/
theorem truncated_served_iff (c : Config) (G : ℕ → Uninit × Locales) (n : ℕ)
    (old : ℕ → UInt8) (s : Globals) (ms : List Message) (m : Message) (k : ℕ)
    (hms : ∀ x ∈ ms, DeCliente x) (hm : DeCliente m) (hk : 0 < k) (hlt : k < m.frame.length) :
    (∃ s', Servido c G n ⟨old, s, ms.flatMap Message.frame ++ m.frame.take k⟩
        (ms.map Message.package) s') ↔
      ms = [] ∧ k < 4 ∧ ∃ j, k ≤ j ∧ j < 4 ∧ old j ≠ 0 := by
  have hne : m.frame.take k ≠ [] := by
    apply List.ne_nil_of_length_pos
    rw [List.length_take]
    omega
  constructor
  · rintro ⟨s', h⟩
    obtain ⟨n', old', s'', hcola, hold⟩ := h.frames hms
    have hcodigo := hcola.codigo_ne hne hm.1
    rw [Ne, codigo_take_iff hk] at hcodigo
    simp only [not_forall] at hcodigo
    obtain ⟨j, hj, hj4, hne⟩ := hcodigo
    rcases hold with ⟨rfl, rfl⟩ | hcero
    · exact ⟨rfl, by omega, j, hj, hj4, hne⟩
    · exact absurd (hcero j (by omega) hj4) hne
  · rintro ⟨rfl, hk4, j, hj, hj4, hold⟩
    have hronda : rondaConexion 0 c (G n).1 (G n).2 ⟨old, s, m.frame.take k⟩ = _ :=
      rondaConexion_none (ofInt_codigo_take hk hj hj4 hold)
    have hfin : (Conexion.recibida ⟨old, s, m.frame.take k⟩).entrada = [] := by
      rw [Conexion.recibida, recvWaitAll]
      exact List.drop_of_length_le (by rw [List.length_take]; omega)
    exact ⟨_, .ronda hne hronda (.fin hfin)⟩

/-- Two bytes of the operation code of a `GET`, where the other two of `protocol` are not zero. -/
theorem truncated_served_two :
    ∃ s', Servido ⟨96, 32, 0, 0⟩ (fun _ => (⟨0, fun _ => 0⟩, ⟨0, 0⟩)) 0
      ⟨fun _ => 255, museInit ⟨96, 32, 0, 0⟩ fun _ => 0, (Message.get ⟨5, 1, 4⟩).frame.take 2⟩
      [] s' :=
  (truncated_served_iff _ _ 0 (fun _ => 255) _ [] (.get ⟨5, 1, 4⟩) 2 (by decide) (by decide)
    (by decide) (by decide)).2 ⟨rfl, by decide, 2, by decide, by decide, by decide⟩

/-- A `GET` without its last byte, a zero, is performed where the fresh buffer holds a zero. -/
theorem truncated_get_acted_on :
    ¬ ∀ (c : Config) (G : ℕ → Uninit × Locales) (n : ℕ) (old : ℕ → UInt8) (s : Globals)
      (ms : List Message) (m : Message) (k : ℕ), (∀ x ∈ ms, DeCliente x) → DeCliente m → 0 < k →
      k < m.frame.length → ∃ s', Servido c G n
        ⟨old, s, ms.flatMap Message.frame ++ m.frame.take k⟩ (ms.map Message.package) s' := by
  intro hall
  have hk : 31 < (Message.get ⟨5, 1, 4⟩).frame.length := by decide
  obtain ⟨s', h⟩ := hall ⟨96, 32, 0, 0⟩ (fun _ => (⟨0, fun _ => 0⟩, ⟨0, 0⟩)) 0 (fun _ => 0)
    (museInit ⟨96, 32, 0, 0⟩ fun _ => 0) [] (.get ⟨5, 1, 4⟩) 31 (by decide) (by decide) (by decide)
    hk
  exact h.codigo_ne (by decide) rfl ((codigo_take_iff (by decide)).mpr fun _ _ _ => rfl)

end Threaders.Muse
