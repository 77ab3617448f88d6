import Threaders.Common.RoundTrip
import Threaders.Lib.ByteMemory

/-!
# The client library

The calls of `libmuse.c`: each sends one request and then reads a reply, by an operation
code and, where its `switch` says so, the message behind it.  `muse_cpy` has no `switch`:
it reads a message whatever the code is, and looks at the first `int` of it.

A reply is read here once it has arrived as a whole.

## Main definitions

* `Llamada`, `Llamada.peticion` — a call, and the bytes of its request.
* `Resultado`, `recibir` — how a call comes out of its reply.
-/

namespace Threaders.Muse

open Lib Common

/-- A call of the library.  `src` of `muse_cpy` is the client's memory from the pointer on. -/
inductive Llamada
  | alloc (tam : UInt32)
  | free (dir : UInt32)
  | get (src : UInt32) (n : UInt64)
  | cpy (dst : UInt32) (src : Mem) (n : Int32)

/-- The values the calls return.  `copiado` are the bytes `muse_get` copies to its `dst`. -/
inductive Valor
  | alloc (ptr : UInt32)
  | free
  | get (res : Int32) (copiado : Bytes)
  | cpy (res : Int32)
  deriving DecidableEq

/-- How a call ends: it returns from a case of its `switch`, falls off its end with no
case for the operation code, or uses a `NULL` package. -/
inductive Resultado
  | vuelve (valor : Valor)
  | sinCaso
  | nulo
  deriving DecidableEq

namespace Llamada

/-- The operation code a call sends. -/
def protocolo : Llamada → TProtocol
  | alloc _ => .malloc
  | free _ => .memfree
  | get _ _ => .get
  | cpy _ _ _ => .copy

/-- The struct a call fills in. -/
def paquete (pid : Int32) : Llamada → Package
  | alloc tam => .malloc ⟨tam, pid⟩
  | free dir => .memfree ⟨dir, pid⟩
  | get src n => .get ⟨src, pid, n.toUInt32.toInt32⟩
  | cpy dst src n => .copy ⟨dst, pid, n, src.read 0 n.toInt.toNat⟩

/-- The bytes a call puts on the connection. -/
def peticion (u : Uninit) (pid : Int32) (ll : Llamada) : Option Bytes :=
  utilsSerializeAndSend u ll.protocolo (ll.paquete pid)

end Llamada

/-! ## Reading the reply -/

/-- The first `int` of a struct. -/
def primerInt : Package → ℤ
  | .malloc p => toI32 p.tam.toNat
  | .memfree p => toI32 p.dir.toNat
  | .get p => toI32 p.src.toNat
  | .copy p => toI32 p.dst.toNat
  | .mallocOk p => toI32 p.ptr.toNat
  | .freeResponse p => p.res.toInt
  | .getOk p => toI32 p.res.toNat
  | .copyResponse p => p.res.toInt
  | .path p => toI32 p.pathname.toNat

/-- The message behind the code is read and used. -/
def usar (u : Uninit) (entrada : Bytes) (protocol : TProtocol) (valor : Package → Option Valor) :
    Option (Resultado × Bytes) := do
  let (recibido, entrada) ← utilsReceiveAndDeserialize u entrada protocol
  match recibido with
  | none => some (.nulo, entrada)
  | some package => (valor package).map fun v => (.vuelve v, entrada)

/-- The value `muse_alloc` takes from a message. -/
def valorAlloc : Package → Option Valor
  | .mallocOk res => some (.alloc res.ptr)
  | _ => none

/-- The value `muse_free` takes from a message: it only prints `res`. -/
def valorFree : Package → Option Valor
  | .freeResponse _ => some .free
  | _ => none

/-- The value `muse_get` takes from a message: `memcpy(dst, &get->res, get->tamres)`. -/
def valorGet : Package → Option Valor
  | .getOk get =>
      (memcpyFrom (leBytes 8 get.res.toNat ++ intBytes get.tamres) 0 get.tamres.toInt).map fun bs =>
        .get 0 bs
  | _ => none

/-- The value `muse_cpy` takes from a message, whichever it is. -/
def valorCpy (package : Package) : Option Valor :=
  some (.cpy (if primerInt package = 1 then 0 else -1))

/-- The `switch` of a call on the operation code of its reply. -/
def recibirCaso (u : Uninit) (entrada : Bytes) :
    Llamada → Option TProtocol → Option (Resultado × Bytes)
  | .alloc _, some .mallocOk => usar u entrada .mallocOk valorAlloc
  | .alloc _, some .segFault => some (.vuelve (.alloc (UInt32.ofInt (-1))), entrada)
  | .free _, some .freeResponse => usar u entrada .freeResponse valorFree
  | .get _ _, some .getOk => usar u entrada .getOk valorGet
  | .get _ _, some .segFault => some (.vuelve (.get (-1) []), entrada)
  | .cpy _ _ _, some protocol => usar u entrada protocol valorCpy
  | .cpy _ _ _, none => some (.nulo, entrada)
  | _, _ => some (.sinCaso, entrada)

/-- What a call does with the bytes of a reply: its outcome and the bytes it leaves. -/
def recibir (u : Uninit) (ll : Llamada) (entrada : Bytes) : Option (Resultado × Bytes) :=
  recibirCaso u (recvWaitAll 4 entrada).2 ll
    (TProtocol.ofInt (intOfBytes (recvWaitAll 4 entrada).1))

/-! ## Replies and requests as messages -/

/-- A whole message behind its code is used and leaves nothing. -/
theorem usar_frame (u : Uninit) (m : Message) (valor : Package → Option Valor)
    (h : m.body.length < 2147483648) :
    usar u (lengthBytes m.body.length ++ m.body) m.protocol valor
      = (valor m.package).map fun v => (.vuelve v, []) := by
  have hframe := receive_frame u m [] h
  rw [List.append_nil] at hframe
  simp only [usar, hframe, Option.bind_eq_bind, Option.bind_some]

theorem recibir_code (u : Uninit) (ll : Llamada) (protocol : TProtocol) (resto : Bytes) :
    recibir u ll (leBytes 4 protocol.code ++ resto) = recibirCaso u resto ll (some protocol) := by
  rw [recibir, recvWaitAll_append (length_leBytes _ _), intOfBytes_code, TProtocol.ofInt_code]

/-- A reply that is a message goes to the case of its code. -/
theorem recibir_frame (u : Uninit) (ll : Llamada) (m : Message) :
    recibir u ll m.frame
      = recibirCaso u (lengthBytes m.body.length ++ m.body) ll (some m.protocol) := by
  rw [Message.frame, List.append_assoc, recibir_code]

section
variable {u : Uninit}

theorem recibir_mallocOk (tam : UInt32) (res : TMallocOk) :
    recibir u (.alloc tam) (Message.mallocOk res).frame
      = some (.vuelve (.alloc res.ptr), []) := by
  have h := usar_frame u (.mallocOk res) valorAlloc (by simp [Message.body, Message.parts])
  rw [recibir_frame]
  generalize lengthBytes (Message.mallocOk res).body.length ++ (Message.mallocOk res).body = cuerpo
    at h ⊢
  exact h

theorem recibir_freeResponse (dir : UInt32) (res : TFreeResponse) :
    recibir u (.free dir) (Message.freeResponse res).frame = some (.vuelve .free, []) := by
  have h := usar_frame u (.freeResponse res) valorFree (by simp [Message.body, Message.parts])
  rw [recibir_frame]
  generalize lengthBytes (Message.freeResponse res).body.length ++ (Message.freeResponse res).body
    = cuerpo at h ⊢
  exact h

/-- `muse_free` has no case for `SEG_FAULT`: it takes the code and falls off its end. -/
theorem recibir_free_segFault (dir : UInt32) :
    recibir u (.free dir) (leBytes 4 TProtocol.segFault.code) = some (.sinCaso, []) := by
  have h := recibir_code u (.free dir) .segFault []
  rwa [List.append_nil] at h

/-- `muse_get` copies the first `tamres` bytes of the word. -/
theorem recibir_getOk (src : UInt32) (n : UInt64) (res : UInt64) :
    recibir u (.get src n) (Message.getOk ⟨res, 4⟩).frame
      = some (.vuelve (.get 0 ((leBytes 8 res.toNat).take 4)), []) := by
  have h := usar_frame u (.getOk ⟨res, 4⟩) valorGet (by simp [Message.body, Message.parts])
  have hvalor : valorGet (.getOk ⟨res, 4⟩) = some (.get 0 ((leBytes 8 res.toNat).take 4)) := by
    have htake : (leBytes 8 res.toNat ++ intBytes 4).take 4 = (leBytes 8 res.toNat).take 4 :=
      List.take_append_of_le_length (by simp)
    have htoInt : (4 : Int32).toInt = 4 := rfl
    simp [valorGet, memcpyFrom, htoInt, htake]
  rw [recibir_frame]
  generalize lengthBytes (Message.getOk ⟨res, 4⟩).body.length ++ (Message.getOk ⟨res, 4⟩).body
    = cuerpo at h ⊢
  rw [Message.package, hvalor] at h
  exact h

/-- `muse_cpy` succeeds where the first `int` of the message is 1. -/
theorem recibir_cpy_getOk (dst : UInt32) (src : Mem) (n : Int32) (p : TGetOk) :
    recibir u (.cpy dst src n) (Message.getOk p).frame
      = some (.vuelve (.cpy (if toI32 p.res.toNat = 1 then 0 else -1)), []) := by
  have h := usar_frame u (.getOk p) valorCpy (by simp [Message.body, Message.parts])
  rw [recibir_frame]
  generalize lengthBytes (Message.getOk p).body.length ++ (Message.getOk p).body = cuerpo at h ⊢
  exact h

end

end Threaders.Muse
