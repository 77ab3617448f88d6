import Threaders.Common.Protocols

/-!
# Sending and receiving packages

`utils.c` and `serializer.c`: a message is laid out as a list of length-prefixed
parts, sent behind its operation code and the length of the whole body, and read
back by the opposite `switch`.  Lengths are C `int`s and every conversion the code
makes is made here.

`none` is a run that leaves defined behaviour: a read past the end of a buffer, a
write past the end of a field, a negative length handed to `memcpy`, a `NULL` list
element dereferenced.  Memory that is read before it is written has the contents an
`Uninit` gives it, so that a short `recv` leaves the old bytes in place.

## Main definitions

* `utilsSerializeAndSend` — the bytes one message puts on the socket.
* `utilsReceiveAndDeserialize` — the message read after its operation code.
* `receivePathRequest`, `copyToPathname` — its path cases, with the write that they make.
-/

namespace Threaders.Common

open Lib

/-- The contents of memory before the program writes to it: the local `size` of
`utils_receive_package`, and the bytes of a fresh allocation or past an object. -/
structure Uninit where
  size : Int32
  heap : ℕ → UInt8

/-- The little-endian bytes of an `int`. -/
def intBytes (x : Int32) : Bytes := leBytes 4 x.toUInt32.toNat

/-- The little-endian bytes of a `uint32_t`. -/
def uint32Bytes (x : UInt32) : Bytes := leBytes 4 x.toNat

/-- The four bytes of a length, converted to `int`. -/
def lengthBytes (n : ℤ) : Bytes := leBytes 4 (toU32 n).toNat

/-- The `int` four bytes stand for. -/
def intOfBytes (bs : Bytes) : ℤ := toI32 (ofLeBytes bs)

@[simp] theorem length_intBytes (x : Int32) : (intBytes x).length = 4 := length_leBytes _ _
@[simp] theorem length_uint32Bytes (x : UInt32) : (uint32Bytes x).length = 4 := length_leBytes _ _
@[simp] theorem length_lengthBytes (n : ℤ) : (lengthBytes n).length = 4 := length_leBytes _ _

theorem intOfBytes_lengthBytes {n : ℤ} (hlo : -2147483648 ≤ n) (hhi : n < 2147483648) :
    intOfBytes (lengthBytes n) = n := by
  have hmem := toU32_mem n
  have hlt : (toU32 n).toNat < 256 ^ 4 := by omega
  rw [intOfBytes, lengthBytes, ofLeBytes_leBytes_of_lt hlt, Int.toNat_of_nonneg hmem.1,
    toI32_toU32, toI32_of_mem hlo hhi]

/-! ## Building and sending a package -/

/-- `utils_package_create`. -/
def utilsPackageCreate (code : TProtocol) : TPackage := ⟨code, ⟨0, []⟩⟩

/-- `utils_package_add`: append the length `size` and the first `size` bytes at `value`.
`realloc` is given the sum of two `int`s, so that sum has to fit one. -/
def utilsPackageAdd (package : TPackage) (value : Bytes) (size : ℤ) : Option TPackage :=
  let old := package.buffer.size
  if 0 ≤ size ∧ size ≤ value.length ∧ old + size < 2147483648 then
    some { package with
      buffer :=
        { size := toI32 (old + size + 4)
          stream := package.buffer.stream ++ lengthBytes size ++ value.take size.toNat } }
  else none

/-- `serializer_serialize_package`.  A negative `bytes` is a `malloc` that cannot
succeed, and a negative buffer size a `memcpy` that cannot. -/
def serializerSerializePackage (package : TPackage) (bytes : ℤ) : Option Bytes :=
  if 0 ≤ bytes ∧ 0 ≤ package.buffer.size then
    some (leBytes 4 package.operationCode.code ++ lengthBytes package.buffer.size ++
      package.buffer.stream.take package.buffer.size.toNat)
  else none

/-- `utils_package_send_to`: the bytes given to `send`. -/
def utilsPackageSendTo (package : TPackage) : Option Bytes := do
  let bytes := toI32 (package.buffer.size + 8)
  let toSend ← serializerSerializePackage package bytes
  some (toSend.take bytes.toNat)

/-- The body that the file system cases share: the client id, and `size` bytes read
at `value` in place of the path. -/
def sendPathRequest (protocol : TProtocol) (p : TPathRequest) (value : Bytes) (size : ℤ) :
    Option Bytes := do
  let package ← utilsPackageAdd (utilsPackageCreate protocol) (intBytes p.idSacCli) 4
  let package ← utilsPackageAdd package value size
  utilsPackageSendTo package

/-- Memory from the `pathname` pointer of the struct on: the pointer itself, the
client id, and whatever lies behind. -/
def TPathRequest.memory (u : Uninit) (p : TPathRequest) : Bytes :=
  leBytes 8 p.pathname.toNat ++ intBytes p.idSacCli ++ (List.range p.pathnameStr.length).map u.heap

/-- Memory from the `res` of a `t_copy_response` on, which the `GET_OK` case reads as
the twelve bytes of a `t_get_ok`. -/
def TCopyResponse.memory (u : Uninit) (p : TCopyResponse) : Bytes :=
  intBytes p.res ++ (List.range 8).map u.heap

/-- `utils_serialize_and_send`: the bytes put on the socket.  An operation code without
a case puts none.  The path cases other than `READ` pass the address of the pointer
and not the string. -/
def utilsSerializeAndSend (u : Uninit) (protocol : TProtocol) (package : Package) :
    Option Bytes :=
  match protocol, package with
  | .malloc, .malloc p => do
      let package ← utilsPackageAdd (utilsPackageCreate protocol) (uint32Bytes p.tam) 4
      let package ← utilsPackageAdd package (intBytes p.idLibmuse) 4
      utilsPackageSendTo package
  | .memfree, .memfree p => do
      let package ← utilsPackageAdd (utilsPackageCreate protocol) (uint32Bytes p.dir) 4
      let package ← utilsPackageAdd package (intBytes p.selfId) 4
      utilsPackageSendTo package
  | .get, .get p => do
      let package ← utilsPackageAdd (utilsPackageCreate protocol) (uint32Bytes p.src) 4
      let package ← utilsPackageAdd package (intBytes p.idLibmuse) 4
      let package ← utilsPackageAdd package (intBytes p.size) 4
      utilsPackageSendTo package
  | .copy, .copy p => do
      let package ← utilsPackageAdd (utilsPackageCreate protocol) (uint32Bytes p.dst) 4
      let package ← utilsPackageAdd package (intBytes p.selfId) 4
      let package ← utilsPackageAdd package (intBytes p.size) 4
      let package ← utilsPackageAdd package p.content p.size.toInt
      utilsPackageSendTo package
  | .mallocOk, .mallocOk p => do
      let package ← utilsPackageAdd (utilsPackageCreate protocol) (uint32Bytes p.ptr) 4
      utilsPackageSendTo package
  | .getOk, .getOk p => do
      let package ← utilsPackageAdd (utilsPackageCreate protocol) (leBytes 8 p.res.toNat) 8
      let package ← utilsPackageAdd package (intBytes p.tamres) 4
      utilsPackageSendTo package
  | .getOk, .copyResponse p => do
      let package ← utilsPackageAdd (utilsPackageCreate protocol) (p.memory u) 8
      let package ← utilsPackageAdd package ((p.memory u).drop 8) 4
      utilsPackageSendTo package
  | .freeResponse, .freeResponse p => do
      let package ← utilsPackageAdd (utilsPackageCreate protocol) (intBytes p.res) 4
      utilsPackageSendTo package
  | .readDir, .path p => sendPathRequest protocol p (p.memory u) 1
  | .read, .path p =>
      sendPathRequest protocol p (p.pathnameStr ++ [0]) (toI32 (p.pathnameStr.length + 1))
  | .openFile, .path p | .getAttr, .path p | .createDir, .path p
  | .write, .path p | .rmDir, .path p | .mkDir, .path p =>
      sendPathRequest protocol p (p.memory u) (toI32 p.pathnameStr.length)
  | .handshake, _ | .map, _ | .unmap, _ | .sync, _ | .copyResponse, _
  | .mapOk, _ | .unmapOk, _ | .syncOk, _ | .segFault, _ => some []
  | _, _ => none

/-! ## Receiving a package -/

/-- `recv` of `n` bytes with `MSG_WAITALL`: the bytes that arrive, and the rest of the
stream.  Fewer than `n` arrive only where the stream ends. -/
def recvWaitAll (n : ℕ) (stream : Bytes) : Bytes × Bytes := (stream.take n, stream.drop n)

/-- `n` bytes of memory with `got` written over their start. -/
def overwrite (old : ℕ → UInt8) (n : ℕ) (got : Bytes) : Bytes :=
  got ++ ((List.range n).map old).drop got.length

/-- `utils_receive_buffer`: the size, the buffer, and the rest of the stream.  For a
negative size `malloc` gives `NULL`, and `recv` into it takes nothing. -/
def utilsReceiveBuffer (u : Uninit) (stream : Bytes) : ℤ × Bytes × Bytes :=
  let (got, stream) := recvWaitAll 4 stream
  let size := intOfBytes (overwrite (fun i => (intBytes u.size).getD i 0) 4 got)
  let (got, stream) := recvWaitAll size.toNat stream
  (size, overwrite u.heap size.toNat got, stream)

/-- `memcpy` of `n` bytes out of a buffer at an offset. -/
def memcpyFrom (buffer : Bytes) (offset : ℕ) (n : ℤ) : Option Bytes :=
  if 0 ≤ n ∧ offset + n.toNat ≤ buffer.length then
    some ((buffer.drop offset).take n.toNat)
  else none

/-- The loop of `utils_receive_package`, from the offset `desplazamiento` on. -/
def receiveParts (buffer : Bytes) (desplazamiento : ℕ) : Option (List TBuffer) :=
  if desplazamiento < buffer.length then do
    let tamanio ← (memcpyFrom buffer desplazamiento 4).map intOfBytes
    let stream ← memcpyFrom buffer (desplazamiento + 4) tamanio
    let valores ← receiveParts buffer (desplazamiento + 4 + tamanio.toNat)
    some (⟨tamanio, stream⟩ :: valores)
  else some []
termination_by buffer.length - desplazamiento

/-- `utils_receive_package`. -/
def utilsReceivePackage (u : Uninit) (stream : Bytes) : Option (List TBuffer × Bytes) := do
  let (_, buffer, rest) := utilsReceiveBuffer u stream
  let valores ← receiveParts buffer 0
  some (valores, rest)

/-- `utils_get_from_list_to` into a field of `width` bytes.  A part shorter than the
field leaves the rest of it as it was allocated.  A wider one is a copy out of the field,
also where the struct has other fields behind it. -/
def utilsGetFromListTo (u : Uninit) (width : ℕ) (list : List TBuffer) (index : ℕ) :
    Option Bytes := do
  let buffer ← list[index]?
  if buffer.stream.length ≤ width then some (overwrite u.heap width buffer.stream) else none

/-- A `uint32_t` field filled from a part. -/
def getUInt32 (u : Uninit) (list : List TBuffer) (index : ℕ) : Option UInt32 :=
  (utilsGetFromListTo u 4 list index).map fun bs => UInt32.ofNat (ofLeBytes bs)

/-- An `int` field filled from a part. -/
def getInt32 (u : Uninit) (list : List TBuffer) (index : ℕ) : Option Int32 :=
  (getUInt32 u list index).map UInt32.toInt32

/-- The `iterator` that the `MALLOC` case runs over the parts copies each into an `int`. -/
def iterator (list : List TBuffer) : Option Unit :=
  if list.all (fun value => value.stream.length ≤ 4) then some () else none

/-- The content of a `COPY`, allocated at the size received and filled from its part. -/
def getContent (u : Uninit) (list : List TBuffer) (size : Int32) : Option Bytes :=
  if 0 ≤ size.toInt then utilsGetFromListTo u size.toInt.toNat list 3 else none

/-! ### The path cases -/

/-- An allocation of the receiver. -/
structure Reserva where
  dir : ℕ
  tam : ℕ

/-- The `n` bytes from an address on lie in the allocation. -/
def Reserva.Contiene (a : Reserva) (dir n : ℕ) : Prop := a.dir ≤ dir ∧ dir + n ≤ a.dir + a.tam

instance (a : Reserva) (dir n : ℕ) : Decidable (a.Contiene dir n) :=
  inferInstanceAs (Decidable (_ ∧ _))

/-- The struct of a path case, and the bytes it copies to the place that `pathname` points to. -/
structure PathRecibido where
  pathname : UInt64
  copiado : Bytes
  idSacCli : Int32
  deriving DecidableEq

/-- The path cases of `utils_receive_and_deserialize`, up to that copy.  `pathname` is the first
field of the struct and is never set: it holds what the first eight bytes of the fresh
allocation held. -/
def receivePathRequest (u : Uninit) (stream : Bytes) : Option (PathRecibido × Bytes) := do
  let (list, rest) ← utilsReceivePackage u stream
  let idSacCli ← getInt32 u list 0
  let pathname ← list[1]?
  some (⟨UInt64.ofNat (ofLeBytes ((List.range 8).map u.heap)), pathname.stream, idSacCli⟩, rest)

/-- The copy, of a receiver with some allocations: one of them has to hold the bytes. -/
def copyToPathname (reservas : List Reserva) (r : PathRecibido) : Option PathRecibido :=
  if ∃ a ∈ reservas, a.Contiene r.pathname.toNat r.copiado.length then some r else none

@[simp] theorem copyToPathname_nil (r : PathRecibido) : copyToPathname [] r = none := by
  simp [copyToPathname]

/-- `utils_receive_and_deserialize`: the package read after its operation code and the
rest of the stream; a `none` package is the `NULL` returned for the other codes.  There is
no allocation that the path cases are known to copy the string to. -/
def utilsReceiveAndDeserialize (u : Uninit) (stream : Bytes) :
    TProtocol → Option (Option Package × Bytes)
  | .malloc => do
      let (list, rest) ← utilsReceivePackage u stream
      iterator list
      let tam ← getUInt32 u list 0
      let idLibmuse ← getInt32 u list 1
      some (some (.malloc ⟨tam, idLibmuse⟩), rest)
  | .memfree => do
      let (list, rest) ← utilsReceivePackage u stream
      let dir ← getUInt32 u list 0
      let selfId ← getInt32 u list 1
      some (some (.memfree ⟨dir, selfId⟩), rest)
  | .get => do
      let (list, rest) ← utilsReceivePackage u stream
      let src ← getUInt32 u list 0
      let idLibmuse ← getInt32 u list 1
      let size ← getInt32 u list 2
      some (some (.get ⟨src, idLibmuse, size⟩), rest)
  | .copy => do
      let (list, rest) ← utilsReceivePackage u stream
      let dst ← getUInt32 u list 0
      let selfId ← getInt32 u list 1
      let size ← getInt32 u list 2
      let content ← getContent u list size
      some (some (.copy ⟨dst, selfId, size, content⟩), rest)
  | .mallocOk => do
      let (list, rest) ← utilsReceivePackage u stream
      let ptr ← getUInt32 u list 0
      some (some (.mallocOk ⟨ptr⟩), rest)
  | .freeResponse => do
      let (list, rest) ← utilsReceivePackage u stream
      let res ← getInt32 u list 0
      some (some (.freeResponse ⟨res⟩), rest)
  | .getOk => do
      let (list, rest) ← utilsReceivePackage u stream
      let res ← utilsGetFromListTo u 8 list 0
      let tamres ← getInt32 u list 1
      some (some (.getOk ⟨UInt64.ofNat (ofLeBytes res), tamres⟩), rest)
  | .getAttr | .readDir | .read | .openFile | .mkDir | .createDir | .write | .rmDir => do
      let (r, rest) ← receivePathRequest u stream
      let r ← copyToPathname [] r
      some (some (.path ⟨r.pathname, r.copiado, r.idSacCli⟩), rest)
  | _ => some (none, stream)

/-- So a path case returns from no stream. -/
theorem utilsReceiveAndDeserialize_path (u : Uninit) (stream : Bytes) {protocol : TProtocol}
    (h : protocol.isPathRequest = true) : utilsReceiveAndDeserialize u stream protocol = none := by
  cases protocol with
  | getAttr | readDir | read | openFile | mkDir | createDir | write | rmDir =>
      simp [utilsReceiveAndDeserialize]
  | _ => exact absurd h (by decide)

end Threaders.Common
