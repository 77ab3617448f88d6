import Threaders.Common.RoundTrip

/-!
# The file system protocol on the wire

A file system request is its client id and a path.  Of the eight sending cases only `READ`
sends the string; the others pass the address of the `pathname` variable, so they send the
bytes of the pointer.  All eight receiving cases copy what arrives to the place that the
`pathname` of a struct fresh from `malloc` points to, which nobody has set.

## Main definitions

* `frameOf` — a message on the wire, from its operation code and the parts of its body.
* `TPathRequest.enviado` — the bytes that a case sends in place of the path.
* `RecibeIgual` — the request arrives, in memory that the receiver owns.
-/

namespace Threaders.Common

open Lib

/-! ## Frames -/

/-- The bytes of a message: operation code, length of the body, body. -/
def frameOf (protocol : TProtocol) (ps : List Bytes) : Bytes :=
  leBytes 4 protocol.code ++ lengthBytes (encodeParts ps).length ++ encodeParts ps

@[simp] theorem length_frameOf (protocol : TProtocol) (ps : List Bytes) :
    (frameOf protocol ps).length = 8 + (encodeParts ps).length := by
  simp [frameOf]
  omega

/-- A frame determines its parts. -/
theorem frameOf_injective {protocol : TProtocol} {ps qs : List Bytes}
    (hp : (encodeParts ps).length < 2147483648) (hq : (encodeParts qs).length < 2147483648)
    (h : frameOf protocol ps = frameOf protocol qs) : ps = qs := by
  have hbody : encodeParts ps = encodeParts qs := by
    have hlen := congrArg List.length h
    rw [length_frameOf, length_frameOf] at hlen
    exact List.append_inj_right' h (by omega)
  have hps := receiveParts_encodeParts [] ps hp
  rw [hbody, receiveParts_encodeParts [] qs hq] at hps
  have hmap := congrArg (List.map TBuffer.stream) (Option.some.inj hps)
  simpa [Function.comp_def, TBuffer.ofPart] using hmap.symm

/-- What `utils_package_add` and `utils_package_send_to` do with a last part, where they do
not fail. -/
theorem addSend_eq_some {code : TProtocol} {ps : List Bytes} {v bytes : Bytes} {n : ℤ}
    (h : ((utilsPackageAdd (.ofParts code ps) v n).bind fun package => utilsPackageSendTo package)
      = some bytes) :
    0 ≤ n ∧ n ≤ v.length ∧ (encodeParts ps).length + n + 12 < 2147483648 ∧
      bytes = frameOf code (ps ++ [v.take n.toNat]) := by
  obtain ⟨hn, hfits⟩ := addSend_fits h
  have hle : n ≤ v.length := by
    by_contra hgt
    simp [utilsPackageAdd, hgt] at h
  have hlen : ((v.take n.toNat).length : ℤ) = n := by
    rw [List.length_take]
    omega
  have hparts : (encodeParts (ps ++ [v.take n.toNat])).length
      = (encodeParts ps).length + 4 + (v.take n.toNat).length := by
    simp
    omega
  have hadd : utilsPackageAdd (.ofParts code ps) v n
      = utilsPackageAdd (.ofParts code ps) (v.take n.toNat) n := by
    simp only [utilsPackageAdd, hle, hlen, Int.le_refl, true_and, List.take_take, Nat.min_self]
  rw [hadd, utilsPackageAdd_ofParts code ps _ hlen.symm (by omega), Option.bind_some,
    utilsPackageSendTo_ofParts code _ (by omega)] at h
  exact ⟨hn, hle, hfits, (Option.some.inj h).symm⟩

/-! ## The sending cases -/

/-- The value and the size that the case of an operation gives to `utils_package_add` for the
path. -/
def TPathRequest.enviado (u : Uninit) (p : TPathRequest) : TProtocol → Bytes × ℤ
  | .readDir => (p.memory u, 1)
  | .read => (p.pathnameStr ++ [0], toI32 (p.pathnameStr.length + 1))
  | _ => (p.memory u, toI32 p.pathnameStr.length)

theorem utilsSerializeAndSend_path (u : Uninit) {protocol : TProtocol}
    (h : protocol.isPathRequest = true) (p : TPathRequest) :
    utilsSerializeAndSend u protocol (.path p)
      = sendPathRequest protocol p (p.enviado u protocol).1 (p.enviado u protocol).2 := by
  cases protocol with
  | getAttr | readDir | read | openFile | mkDir | createDir | write | rmDir => rfl
  | _ => exact absurd h (by decide)

/-- The parts of the request that a case sends. -/
def TPathRequest.parts (u : Uninit) (p : TPathRequest) (protocol : TProtocol) : List Bytes :=
  [intBytes p.idSacCli, (p.enviado u protocol).1.take (p.enviado u protocol).2.toNat]

/-- A request that is sent travels as a frame that fits an `int`. -/
theorem send_path_eq_some {u : Uninit} {protocol : TProtocol} {p : TPathRequest} {bytes : Bytes}
    (hpath : protocol.isPathRequest = true)
    (h : utilsSerializeAndSend u protocol (.path p) = some bytes) :
    (encodeParts (p.parts u protocol)).length + 8 < 2147483648 ∧
      bytes = frameOf protocol (p.parts u protocol) := by
  rw [utilsSerializeAndSend_path u hpath, sendPathRequest, utilsPackageCreate_eq,
    utilsPackageAdd_ofParts protocol [] (intBytes p.idSacCli) (by simp) (by simp)] at h
  obtain ⟨hn, hle, hfits, rfl⟩ := addSend_eq_some h
  refine ⟨?_, rfl⟩
  simp [TPathRequest.parts] at hfits ⊢
  omega

/-! ## The receiving cases -/

/-- A request that arrives whole is received with its id; its second part is written through
the pointer that was never set. -/
theorem receivePathRequest_frame (u : Uninit) (id : Int32) (value rest : Bytes)
    (h : (encodeParts [intBytes id, value]).length < 2147483648) :
    receivePathRequest u (lengthBytes (encodeParts [intBytes id, value]).length ++
        encodeParts [intBytes id, value] ++ rest)
      = some (⟨UInt64.ofNat (ofLeBytes ((List.range 8).map u.heap)), value, id⟩, rest) := by
  have hid := getInt32_ofPart u [intBytes id, value] (i := 0) (x := id) rfl
  simp only [receivePathRequest, utilsReceivePackage_frame u _ rest h, hid, Option.bind_eq_bind,
    Option.bind_some]
  rfl

/-- A request sent from memory `u` and received in memory `v` arrives with the same id and the
same string, terminator included, in an allocation of the receiver that holds it. -/
def RecibeIgual (protocol : TProtocol) (p : TPathRequest) (u v : Uninit)
    (reservas : List Reserva) : Prop :=
  ∃ stream r, utilsSerializeAndSend u protocol (.path p)
      = some (leBytes 4 protocol.code ++ stream) ∧
    receivePathRequest v stream = some (r, []) ∧
    r.idSacCli = p.idSacCli ∧ r.copiado = p.pathnameStr ++ [0] ∧
    ∃ a ∈ reservas, a.Contiene r.pathname.toNat r.copiado.length

/-- In memory full of zeros the received pointer is `NULL`. -/
theorem receivePathRequest_null {n : Int32} {stream rest : Bytes} {r : PathRecibido}
    (h : receivePathRequest ⟨n, fun _ => 0⟩ stream = some (r, rest)) : r.pathname = 0 := by
  simp only [receivePathRequest, Option.bind_eq_bind, Option.bind_eq_some_iff] at h
  obtain ⟨_, _, _, _, _, _, heq⟩ := h
  simp only [Option.some.injEq, Prod.mk.injEq] at heq
  rw [← heq.1]
  rfl

/-- Two requests with the same pointer, the same id and paths of one length are sent alike by
every case but `READ`. -/
theorem send_address (u : Uninit) {protocol : TProtocol} (hpath : protocol.isPathRequest = true)
    (hread : protocol ≠ .read) {p p' : TPathRequest} (hptr : p'.pathname = p.pathname)
    (hid : p'.idSacCli = p.idSacCli) (hlen : p'.pathnameStr.length = p.pathnameStr.length) :
    utilsSerializeAndSend u protocol (.path p') = utilsSerializeAndSend u protocol (.path p) := by
  have hmem : p'.memory u = p.memory u := by
    rw [TPathRequest.memory, TPathRequest.memory, hptr, hid, hlen]
  have henviado : p'.enviado u protocol = p.enviado u protocol := by
    cases protocol with
    | read => exact absurd rfl hread
    | _ => simp only [TPathRequest.enviado, hmem, hlen]
  rw [utilsSerializeAndSend_path u hpath, utilsSerializeAndSend_path u hpath, henviado,
    sendPathRequest, sendPathRequest, hid]

/-- A `READ` carries its path with the terminator. -/
theorem read_parts (u : Uninit) (p : TPathRequest) (h : p.pathnameStr.length + 1 < 2147483648) :
    p.parts u .read = [intBytes p.idSacCli, p.pathnameStr ++ [0]] := by
  have hsize : (toI32 (p.pathnameStr.length + 1)).toNat = p.pathnameStr.length + 1 := by
    rw [toI32_of_mem (by omega) (by omega)]
    omega
  simp only [TPathRequest.parts, TPathRequest.enviado, hsize]
  rw [List.take_of_length_le (by simp)]

/-- So two `READ`s sent alike have the same path. -/
theorem read_injective {u u' : Uninit} {p p' : TPathRequest} {bytes : Bytes}
    (hlen : p.pathnameStr.length + 1 < 2147483648)
    (hlen' : p'.pathnameStr.length + 1 < 2147483648)
    (h : utilsSerializeAndSend u .read (.path p) = some bytes)
    (h' : utilsSerializeAndSend u' .read (.path p') = some bytes) :
    p'.idSacCli = p.idSacCli ∧ p'.pathnameStr = p.pathnameStr := by
  obtain ⟨hfits, hbytes⟩ := send_path_eq_some rfl h
  obtain ⟨hfits', hbytes'⟩ := send_path_eq_some rfl h'
  have hparts := frameOf_injective (by omega) (by omega) (hbytes'.symm.trans hbytes)
  rw [read_parts u' p' hlen', read_parts u p hlen, List.cons.injEq, List.cons.injEq] at hparts
  refine ⟨?_, List.append_inj_left' hparts.2.1 rfl⟩
  have hid := getInt32_ofPart u [intBytes p'.idSacCli] (i := 0) rfl
  rw [hparts.1, getInt32_ofPart u [intBytes p.idSacCli] (i := 0) (x := p.idSacCli) rfl] at hid
  exact (Option.some.inj hid).symm

/-! ## The round trip -/

/-- **Round trip of the file system protocol.**  No request of any kind makes it: whatever the
receiver has allocated, there is a content of its fresh memory with which the path is not
stored in an allocation of its own.  All kinds but `READ` moreover send requests alike that
differ only in the path, and a `READ` of a path whose size fits an `int` is told apart. -/
theorem path_request_round_trip {protocol : TProtocol} (hpath : protocol.isPathRequest = true)
    (p : TPathRequest) :
    (∀ u reservas, (∀ a ∈ reservas, 0 < a.dir) → ∃ v, ¬ RecibeIgual protocol p u v reservas) ∧
      (protocol ≠ .read → ∀ u p', p'.pathname = p.pathname → p'.idSacCli = p.idSacCli →
        p'.pathnameStr.length = p.pathnameStr.length →
          utilsSerializeAndSend u protocol (.path p')
            = utilsSerializeAndSend u protocol (.path p)) ∧
      (protocol = .read → ∀ u u' p' bytes, p.pathnameStr.length + 1 < 2147483648 →
        p'.pathnameStr.length + 1 < 2147483648 →
        utilsSerializeAndSend u protocol (.path p) = some bytes →
        utilsSerializeAndSend u' protocol (.path p') = some bytes →
          p'.pathnameStr = p.pathnameStr) := by
  refine ⟨fun u reservas hres => ⟨⟨0, fun _ => 0⟩, ?_⟩, ?_, ?_⟩
  · rintro ⟨stream, r, -, hrec, -, -, a, ha, hle, -⟩
    have hpos := hres a ha
    rw [receivePathRequest_null hrec] at hle
    simp only [UInt64.toNat_zero] at hle
    omega
  · intro hread u p' hptr hid hlen
    exact send_address u hpath hread hptr hid hlen
  · rintro rfl u u' p' bytes hlen hlen' h h'
    exact (read_injective hlen hlen' h h').2

/-- `OPEN` of `/a` and of `/b`, the path in the same variable at address 4096. -/
theorem path_request_round_trip_open :
    utilsSerializeAndSend ⟨0, fun _ => 0⟩ .openFile (.path ⟨4096, [47, 98], 7⟩)
      = utilsSerializeAndSend ⟨0, fun _ => 0⟩ .openFile (.path ⟨4096, [47, 97], 7⟩) :=
  (path_request_round_trip rfl ⟨4096, [47, 97], 7⟩).2.1 (by decide) _ _ rfl rfl rfl

/-- The request to open `/a` is sent with two bytes of the pointer in place of the path, and
the receiver writes them through a null pointer. -/
theorem open_sends_address :
    utilsSerializeAndSend ⟨0, fun _ => 0⟩ .openFile (.path ⟨4096, [47, 97], 7⟩)
        = some (frameOf .openFile [intBytes 7, [0, 16]]) ∧
      ∀ reservas : List Reserva, (∀ a ∈ reservas, 0 < a.dir) →
        ¬ RecibeIgual .openFile ⟨4096, [47, 97], 7⟩ ⟨0, fun _ => 0⟩ ⟨0, fun _ => 0⟩ reservas := by
  constructor
  · decide
  · rintro reservas hres ⟨stream, r, -, hrec, -, -, a, ha, hle, -⟩
    have hpos := hres a ha
    rw [receivePathRequest_null hrec] at hle
    simp only [UInt64.toNat_zero] at hle
    omega

end Threaders.Common
