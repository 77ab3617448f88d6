import Threaders.Common.Utils

/-!
# The memory protocol on the wire

Every case of the sending `switch` lays out a list of values as length-prefixed
parts, `encodeParts`, and every case of the receiving one reads such a list back.
The two lemmas about part lists, `utilsPackageAdd_ofParts` and
`receiveParts_encodeParts`, carry the seven message kinds; a stream of messages is
then an induction over the messages.

The bound is on the whole message: `utils_package_send_to` keeps header and body
together in one `int`, so a body within eight bytes of `2 ^ 31` is not sent.

## Main definitions

* `Message` — a message of the memory protocol; a `COPY` carries as many bytes as
  its size field says.
* `sendAll`, `receiveAll` — writing messages to a stream and reading a stream up.
-/

namespace Threaders.Common

open Lib

/-! ## Part lists -/

/-- The body of a package with the given values as its parts. -/
def encodeParts (ps : List Bytes) : Bytes := ps.flatMap fun p => lengthBytes p.length ++ p

@[simp] theorem encodeParts_nil : encodeParts [] = [] := rfl

@[simp] theorem encodeParts_cons (p : Bytes) (ps : List Bytes) :
    encodeParts (p :: ps) = lengthBytes p.length ++ p ++ encodeParts ps := by
  simp [encodeParts]

@[simp] theorem encodeParts_append (ps qs : List Bytes) :
    encodeParts (ps ++ qs) = encodeParts ps ++ encodeParts qs := by
  simp [encodeParts]

/-- A package under construction that holds the given parts. -/
def TPackage.ofParts (code : TProtocol) (ps : List Bytes) : TPackage :=
  ⟨code, ⟨(encodeParts ps).length, encodeParts ps⟩⟩

@[simp] theorem operationCode_ofParts (code : TProtocol) (ps : List Bytes) :
    (TPackage.ofParts code ps).operationCode = code := rfl
@[simp] theorem size_ofParts (code : TProtocol) (ps : List Bytes) :
    (TPackage.ofParts code ps).buffer.size = (encodeParts ps).length := rfl
@[simp] theorem stream_ofParts (code : TProtocol) (ps : List Bytes) :
    (TPackage.ofParts code ps).buffer.stream = encodeParts ps := rfl

theorem utilsPackageCreate_eq (code : TProtocol) :
    utilsPackageCreate code = TPackage.ofParts code [] := rfl

/-- Adding a whole value adds one part. -/
theorem utilsPackageAdd_ofParts (code : TProtocol) (ps : List Bytes) (v : Bytes) {n : ℤ}
    (hn : n = v.length) (h : (encodeParts (ps ++ [v])).length < 2147483648) :
    utilsPackageAdd (.ofParts code ps) v n = some (.ofParts code (ps ++ [v])) := by
  subst hn
  have hlen : (encodeParts (ps ++ [v])).length = (encodeParts ps).length + 4 + v.length := by
    simp
    omega
  have hsize : toI32 ((encodeParts ps).length + v.length + 4)
      = ((encodeParts (ps ++ [v])).length : ℤ) := by
    rw [toI32_of_mem (by omega) (by omega)]
    omega
  have hfits : 0 ≤ (v.length : ℤ) ∧ (v.length : ℤ) ≤ v.length ∧
      (TPackage.ofParts code ps).buffer.size + v.length < 2147483648 := by
    rw [size_ofParts]
    omega
  rw [utilsPackageAdd, if_pos hfits, size_ofParts, hsize]
  simp [TPackage.ofParts]

/-- A package whose message fits an `int` is sent whole: code, body length, body. -/
theorem utilsPackageSendTo_ofParts (code : TProtocol) (ps : List Bytes)
    (h : (encodeParts ps).length + 8 < 2147483648) :
    utilsPackageSendTo (.ofParts code ps)
      = some (leBytes 4 code.code ++ lengthBytes (encodeParts ps).length ++ encodeParts ps) := by
  have hbytes : toI32 ((encodeParts ps).length + 8) = ((encodeParts ps).length : ℤ) + 8 :=
    toI32_of_mem (by omega) (by omega)
  have hfits : 0 ≤ ((encodeParts ps).length : ℤ) + 8 ∧
      0 ≤ (TPackage.ofParts code ps).buffer.size := by
    rw [size_ofParts]
    omega
  rw [utilsPackageSendTo, size_ofParts, hbytes, serializerSerializePackage, if_pos hfits]
  simp only [size_ofParts, stream_ofParts, operationCode_ofParts, Option.bind_eq_bind,
    Option.bind_some, Int.toNat_natCast, List.take_length]
  rw [List.take_of_length_le]
  simp
  omega

/-- A body that leaves no room for the header in an `int` is not sent. -/
theorem utilsPackageSendTo_ofParts_none (code : TProtocol) (ps : List Bytes)
    (hlo : 2147483648 ≤ (encodeParts ps).length + 8)
    (hhi : (encodeParts ps).length < 2147483648) :
    utilsPackageSendTo (.ofParts code ps) = none := by
  have hneg : ¬ 0 ≤ toI32 ((encodeParts ps).length + 8) := by
    unfold toI32
    omega
  simp [utilsPackageSendTo, serializerSerializePackage, hneg]

/-! ## Reading a part list back -/

/-- The list element a part is received as. -/
def TBuffer.ofPart (p : Bytes) : TBuffer := ⟨p.length, p⟩

theorem memcpyFrom_append (done p rest : Bytes) :
    memcpyFrom (done ++ p ++ rest) done.length p.length = some p := by
  have hle : done.length + p.length ≤ (done ++ p ++ rest).length := by simp
  simp only [memcpyFrom, Int.toNat_natCast]
  rw [if_pos ⟨by omega, hle⟩]
  simp

theorem memcpyFrom_self {buffer : Bytes} {n : ℤ} (h : n = buffer.length) :
    memcpyFrom buffer 0 n = some buffer := by
  simp [memcpyFrom, h]

theorem length_of_memcpyFrom {buffer bs : Bytes} {offset : ℕ} {n : ℤ}
    (h : memcpyFrom buffer offset n = some bs) : (bs.length : ℤ) = n := by
  unfold memcpyFrom at h
  by_cases hfits : 0 ≤ n ∧ offset + n.toNat ≤ buffer.length
  · rw [if_pos hfits] at h
    obtain rfl := Option.some.inj h
    rw [List.length_take, List.length_drop]
    omega
  · simp [hfits] at h

/-- The loop reads a list of parts back, whatever parts precede it in the buffer. -/
theorem receiveParts_encodeParts (done : Bytes) (ps : List Bytes)
    (h : (encodeParts ps).length < 2147483648) :
    receiveParts (done ++ encodeParts ps) done.length = some (ps.map .ofPart) := by
  induction ps generalizing done with
  | nil => rw [receiveParts]; simp
  | cons p ps ih =>
      have hlt : done.length < (done ++ encodeParts (p :: ps)).length := by simp
      have hlen : (encodeParts (p :: ps)).length = 4 + p.length + (encodeParts ps).length := by
        simp
        omega
      -- The prefix read so far grows by the length and by the part.
      have hsize : memcpyFrom (done ++ encodeParts (p :: ps)) done.length 4
          = some (lengthBytes p.length) := by
        have := memcpyFrom_append done (lengthBytes p.length) (p ++ encodeParts ps)
        simpa using this
      have hpart : memcpyFrom (done ++ encodeParts (p :: ps)) (done.length + 4) p.length
          = some p := by
        have := memcpyFrom_append (done ++ lengthBytes p.length) p (encodeParts ps)
        simpa using this
      have hrest : receiveParts (done ++ encodeParts (p :: ps)) (done.length + 4 + p.length)
          = some (ps.map .ofPart) := by
        have := ih (done ++ lengthBytes p.length ++ p) (by omega)
        simpa [Nat.add_assoc] using this
      have hint : intOfBytes (lengthBytes p.length) = p.length :=
        intOfBytes_lengthBytes (by omega) (by omega)
      rw [receiveParts, if_pos hlt, hsize]
      simp only [Option.map_some, hint, Option.bind_eq_bind, Option.bind_some, hpart,
        Int.toNat_natCast, hrest, List.map_cons]
      rfl

theorem overwrite_of_length {old : ℕ → UInt8} {n : ℕ} {got : Bytes} (h : got.length = n) :
    overwrite old n got = got := by
  subst h
  simp [overwrite]

/-- Where memory holds the rest, a beginning is as good as the whole. -/
theorem overwrite_take {old : ℕ → UInt8} {bs : Bytes} (k : ℕ)
    (h : ∀ i (hi : i < bs.length), old i = bs[i]) : overwrite old bs.length (bs.take k) = bs := by
  have hold : (List.range bs.length).map old = bs := by
    apply List.ext_getElem
    · simp
    · intro i hi hi'
      simp [h i hi']
  have htake : bs.take k = bs.take (bs.take k).length := by
    rw [List.length_take, ← List.take_take, List.take_length]
  rw [overwrite, hold]
  nth_rewrite 1 [htake]
  exact List.take_append_drop _ _

/-- A buffer behind the four bytes of its size is received whole, and nothing after it is
touched. -/
theorem utilsReceiveBuffer_frame (u : Uninit) {size body : Bytes} (rest : Bytes)
    (hsize : size.length = 4) (h : body.length = (intOfBytes size).toNat) :
    utilsReceiveBuffer u (size ++ body ++ rest) = (intOfBytes size, body, rest) := by
  have htake : (size ++ body ++ rest).take 4 = size := by
    rw [List.append_assoc, List.take_left' hsize]
  have hdrop : (size ++ body ++ rest).drop 4 = body ++ rest := by
    rw [List.append_assoc, List.drop_left' hsize]
  simp only [utilsReceiveBuffer, recvWaitAll, htake, hdrop, overwrite_of_length hsize, ← h,
    List.take_left, List.drop_left, overwrite_of_length rfl]

/-- A framed body that arrives whole is received as its parts. -/
theorem utilsReceivePackage_frame (u : Uninit) (ps : List Bytes) (rest : Bytes)
    (h : (encodeParts ps).length < 2147483648) :
    utilsReceivePackage u (lengthBytes (encodeParts ps).length ++ encodeParts ps ++ rest)
      = some (ps.map .ofPart, rest) := by
  have hint : intOfBytes (lengthBytes (encodeParts ps).length) = (encodeParts ps).length :=
    intOfBytes_lengthBytes (by omega) (by omega)
  have hbuffer : utilsReceiveBuffer u
      (lengthBytes (encodeParts ps).length ++ encodeParts ps ++ rest)
        = (_, encodeParts ps, rest) :=
    utilsReceiveBuffer_frame u rest (length_lengthBytes _) (by rw [hint, Int.toNat_natCast])
  have hparts : receiveParts (encodeParts ps) 0 = some (ps.map .ofPart) := by
    simpa using receiveParts_encodeParts [] ps h
  simp only [utilsReceivePackage, hbuffer, hparts, Option.bind_eq_bind, Option.bind_some]

/-! ## Fields -/

theorem utilsGetFromListTo_ofPart (u : Uninit) {ps : List Bytes} {i w : ℕ} {p : Bytes}
    (hp : ps[i]? = some p) (hw : p.length = w) :
    utilsGetFromListTo u w (ps.map .ofPart) i = some p := by
  simp [utilsGetFromListTo, hp, TBuffer.ofPart, hw, overwrite_of_length hw]

theorem getUInt32_ofPart (u : Uninit) (ps : List Bytes) {i : ℕ} {x : UInt32}
    (hp : ps[i]? = some (uint32Bytes x)) : getUInt32 u (ps.map .ofPart) i = some x := by
  have hx : x.toNat < 256 ^ 4 := x.toNat_lt
  rw [getUInt32, utilsGetFromListTo_ofPart u hp (length_uint32Bytes x), Option.map_some,
    uint32Bytes, ofLeBytes_leBytes_of_lt hx, UInt32.ofNat_toNat]

theorem getInt32_ofPart (u : Uninit) (ps : List Bytes) {i : ℕ} {x : Int32}
    (hp : ps[i]? = some (intBytes x)) : getInt32 u (ps.map .ofPart) i = some x := by
  have hp' : ps[i]? = some (uint32Bytes x.toUInt32) := hp
  simp [getInt32, getUInt32_ofPart u ps hp']

theorem getContent_ofPart (u : Uninit) (ps : List Bytes) {size : Int32} {content : Bytes}
    (hp : ps[3]? = some content) (hsize : size.toInt = content.length) :
    getContent u (ps.map .ofPart) size = some content := by
  rw [getContent, if_pos (by omega), utilsGetFromListTo_ofPart u hp (by omega)]

/-! ## Messages -/

/-- A message of the memory protocol.  The size of a `COPY` is the number of bytes its
content pointer leads to. -/
inductive Message
  | malloc (p : TMalloc)
  | memfree (p : TFree)
  | get (p : TGet)
  | copy (p : TCopy) (hsize : p.size.toInt = p.content.length)
  | mallocOk (p : TMallocOk)
  | freeResponse (p : TFreeResponse)
  | getOk (p : TGetOk)

namespace Message

/-- The operation code a message is sent under. -/
def protocol : Message → TProtocol
  | malloc _ => .malloc
  | memfree _ => .memfree
  | get _ => .get
  | copy _ _ => .copy
  | mallocOk _ => .mallocOk
  | freeResponse _ => .freeResponse
  | getOk _ => .getOk

/-- The package a message is sent as. -/
def package : Message → Package
  | malloc p => .malloc p
  | memfree p => .memfree p
  | get p => .get p
  | copy p _ => .copy p
  | mallocOk p => .mallocOk p
  | freeResponse p => .freeResponse p
  | getOk p => .getOk p

/-- The values in the body of a message, in the order both sides use. -/
def parts : Message → List Bytes
  | malloc p => [uint32Bytes p.tam, intBytes p.idLibmuse]
  | memfree p => [uint32Bytes p.dir, intBytes p.selfId]
  | get p => [uint32Bytes p.src, intBytes p.idLibmuse, intBytes p.size]
  | copy p _ => [uint32Bytes p.dst, intBytes p.selfId, intBytes p.size, p.content]
  | mallocOk p => [uint32Bytes p.ptr]
  | freeResponse p => [intBytes p.res]
  | getOk p => [leBytes 8 p.res.toNat, intBytes p.tamres]

/-- The encoded body. -/
def body (m : Message) : Bytes := encodeParts m.parts

theorem body_eq (m : Message) : m.body = encodeParts m.parts := rfl

/-- The bytes of a message as they travel. -/
def frame (m : Message) : Bytes :=
  leBytes 4 m.protocol.code ++ lengthBytes m.body.length ++ m.body

end Message

open Message

/-- What `utils_serialize_and_send` puts on the socket for a message. -/
def send (u : Uninit) (m : Message) : Option Bytes := utilsSerializeAndSend u m.protocol m.package

/-- Where the last part is added and the package sent, its length was not negative and the
message fits an `int`. -/
theorem addSend_fits {code : TProtocol} {ps : List Bytes} {v bytes : Bytes} {n : ℤ}
    (h : ((utilsPackageAdd (.ofParts code ps) v n).bind fun package => utilsPackageSendTo package)
      = some bytes) : 0 ≤ n ∧ (encodeParts ps).length + n + 12 < 2147483648 := by
  rw [utilsPackageAdd] at h
  split at h
  · next hadd =>
      obtain ⟨hn, -, hsum⟩ := hadd
      rw [size_ofParts] at hsum
      simp only [Option.bind_some, utilsPackageSendTo, serializerSerializePackage, size_ofParts,
        Option.bind_eq_bind] at h
      generalize (encodeParts ps).length = old at hsum h
      split at h
      · next hbytes =>
          unfold toI32 at hbytes
          omega
      · cases h
  · cases h

/-- Every case sends its parts as one package. -/
theorem send_eq (u : Uninit) (m : Message) (h : m.body.length < 2147483648) :
    send u m = utilsPackageSendTo (.ofParts m.protocol m.parts) := by
  have add : ∀ (ps : List Bytes) (v : Bytes) (n : ℤ), n = v.length →
      (∃ qs, m.parts = ps ++ [v] ++ qs) →
      utilsPackageAdd (.ofParts m.protocol ps) v n
        = some (.ofParts m.protocol (ps ++ [v])) := by
    intro ps v n hn hparts
    obtain ⟨qs, hqs⟩ := hparts
    apply utilsPackageAdd_ofParts m.protocol ps v hn
    rw [body, hqs, encodeParts_append, List.length_append] at h
    omega
  cases m with
  | malloc p =>
      simp only [protocol] at add
      simp only [send, protocol, package, utilsSerializeAndSend, utilsPackageCreate_eq,
        Option.bind_eq_bind]
      rw [add [] (uint32Bytes p.tam) 4 (by simp) ⟨_, rfl⟩, Option.bind_some,
        add _ (intBytes p.idLibmuse) 4 (by simp) ⟨[], rfl⟩, Option.bind_some]
      rfl
  | memfree p =>
      simp only [protocol] at add
      simp only [send, protocol, package, utilsSerializeAndSend, utilsPackageCreate_eq,
        Option.bind_eq_bind]
      rw [add [] (uint32Bytes p.dir) 4 (by simp) ⟨_, rfl⟩, Option.bind_some,
        add _ (intBytes p.selfId) 4 (by simp) ⟨[], rfl⟩, Option.bind_some]
      rfl
  | get p =>
      simp only [protocol] at add
      simp only [send, protocol, package, utilsSerializeAndSend, utilsPackageCreate_eq,
        Option.bind_eq_bind]
      rw [add [] (uint32Bytes p.src) 4 (by simp) ⟨_, rfl⟩, Option.bind_some,
        add _ (intBytes p.idLibmuse) 4 (by simp) ⟨_, rfl⟩, Option.bind_some,
        add _ (intBytes p.size) 4 (by simp) ⟨[], rfl⟩, Option.bind_some]
      rfl
  | copy p hsize =>
      simp only [protocol] at add
      simp only [send, protocol, package, utilsSerializeAndSend, utilsPackageCreate_eq,
        Option.bind_eq_bind]
      rw [add [] (uint32Bytes p.dst) 4 (by simp) ⟨_, rfl⟩, Option.bind_some,
        add _ (intBytes p.selfId) 4 (by simp) ⟨_, rfl⟩, Option.bind_some,
        add _ (intBytes p.size) 4 (by simp) ⟨_, rfl⟩, Option.bind_some,
        add _ p.content p.size.toInt hsize ⟨[], rfl⟩, Option.bind_some]
      rfl
  | mallocOk p =>
      simp only [protocol] at add
      simp only [send, protocol, package, utilsSerializeAndSend, utilsPackageCreate_eq,
        Option.bind_eq_bind]
      rw [add [] (uint32Bytes p.ptr) 4 (by simp) ⟨[], rfl⟩, Option.bind_some]
      rfl
  | freeResponse p =>
      simp only [protocol] at add
      simp only [send, protocol, package, utilsSerializeAndSend, utilsPackageCreate_eq,
        Option.bind_eq_bind]
      rw [add [] (intBytes p.res) 4 (by simp) ⟨[], rfl⟩, Option.bind_some]
      rfl
  | getOk p =>
      simp only [protocol] at add
      simp only [send, protocol, package, utilsSerializeAndSend, utilsPackageCreate_eq,
        Option.bind_eq_bind]
      rw [add [] (leBytes 8 p.res.toNat) 8 (by simp) ⟨_, rfl⟩, Option.bind_some,
        add _ (intBytes p.tamres) 4 (by simp) ⟨[], rfl⟩, Option.bind_some]
      rfl

/-- A message that fits an `int`, header included, travels as its frame. -/
theorem send_of_fits (u : Uninit) (m : Message) (h : m.body.length + 8 < 2147483648) :
    send u m = some m.frame := by
  rw [send_eq u m (by omega), utilsPackageSendTo_ofParts _ _ h]
  rfl

/-- A body that fits an `int` without its header is not sent. -/
theorem send_of_not_fits (u : Uninit) (m : Message) (hlo : 2147483648 ≤ m.body.length + 8)
    (hhi : m.body.length < 2147483648) : send u m = none := by
  rw [send_eq u m hhi, utilsPackageSendTo_ofParts_none _ _ hlo hhi]

/-- A `COPY` that is sent has a size that is not negative and fits an `int` with the rest of
its message. -/
theorem copy_fits_of_send {u : Uninit} {p : TCopy} {bytes : Bytes}
    (h : utilsSerializeAndSend u .copy (.copy p) = some bytes) :
    0 ≤ p.size.toInt ∧ p.size.toInt + 36 < 2147483648 := by
  have add : ∀ (ps : List Bytes) (v : Bytes), v.length = 4 → (encodeParts ps).length ≤ 16 →
      utilsPackageAdd (.ofParts .copy ps) v 4 = some (.ofParts .copy (ps ++ [v])) := by
    intro ps v hv hps
    refine utilsPackageAdd_ofParts .copy ps v (by rw [hv]; rfl) ?_
    rw [encodeParts_append, List.length_append]
    simp [hv]
    omega
  simp only [utilsSerializeAndSend, utilsPackageCreate_eq, Option.bind_eq_bind] at h
  rw [add [] (uint32Bytes p.dst) (by simp) (by simp), Option.bind_some,
    add _ (intBytes p.selfId) (by simp) (by simp), Option.bind_some,
    add _ (intBytes p.size) (by simp) (by simp), Option.bind_some] at h
  have hfits := addSend_fits h
  simp at hfits
  omega

/-- The parts of a message are received as it. -/
theorem receive_of_parts {u : Uninit} {m : Message} {stream rest : Bytes}
    (hpack : utilsReceivePackage u stream = some (m.parts.map .ofPart, rest)) :
    utilsReceiveAndDeserialize u stream m.protocol = some (some m.package, rest) := by
  cases m with
  | malloc p =>
      have htam := getUInt32_ofPart u (malloc p).parts (i := 0) (x := p.tam) rfl
      have hid := getInt32_ofPart u (malloc p).parts (i := 1) (x := p.idLibmuse) rfl
      have hiter : iterator ((malloc p).parts.map .ofPart) = some () := by
        simp [iterator, parts, TBuffer.ofPart]
      simp only [utilsReceiveAndDeserialize, protocol, package, hpack, htam, hid, hiter,
        Option.bind_eq_bind, Option.bind_some]
  | memfree p =>
      have hdir := getUInt32_ofPart u (memfree p).parts (i := 0) (x := p.dir) rfl
      have hid := getInt32_ofPart u (memfree p).parts (i := 1) (x := p.selfId) rfl
      simp only [utilsReceiveAndDeserialize, protocol, package, hpack, hdir, hid,
        Option.bind_eq_bind, Option.bind_some]
  | get p =>
      have hsrc := getUInt32_ofPart u (get p).parts (i := 0) (x := p.src) rfl
      have hid := getInt32_ofPart u (get p).parts (i := 1) (x := p.idLibmuse) rfl
      have hsize := getInt32_ofPart u (get p).parts (i := 2) (x := p.size) rfl
      simp only [utilsReceiveAndDeserialize, protocol, package, hpack, hsrc, hid, hsize,
        Option.bind_eq_bind, Option.bind_some]
  | copy p hlen =>
      have hdst := getUInt32_ofPart u (copy p hlen).parts (i := 0) (x := p.dst) rfl
      have hid := getInt32_ofPart u (copy p hlen).parts (i := 1) (x := p.selfId) rfl
      have hsize := getInt32_ofPart u (copy p hlen).parts (i := 2) (x := p.size) rfl
      have hcontent := getContent_ofPart u (copy p hlen).parts rfl hlen
      simp only [utilsReceiveAndDeserialize, protocol, package, hpack, hdst, hid, hsize,
        hcontent, Option.bind_eq_bind, Option.bind_some]
  | mallocOk p =>
      have hptr := getUInt32_ofPart u (mallocOk p).parts (i := 0) (x := p.ptr) rfl
      simp only [utilsReceiveAndDeserialize, protocol, package, hpack, hptr,
        Option.bind_eq_bind, Option.bind_some]
  | freeResponse p =>
      have hres := getInt32_ofPart u (freeResponse p).parts (i := 0) (x := p.res) rfl
      simp only [utilsReceiveAndDeserialize, protocol, package, hpack, hres,
        Option.bind_eq_bind, Option.bind_some]
  | getOk p =>
      have hres : utilsGetFromListTo u 8 ((getOk p).parts.map .ofPart) 0
          = some (leBytes 8 p.res.toNat) := utilsGetFromListTo_ofPart u rfl (by simp)
      have hword : UInt64.ofNat (ofLeBytes (leBytes 8 p.res.toNat)) = p.res := by
        have hlt : p.res.toNat < 256 ^ 8 := p.res.toNat_lt
        rw [ofLeBytes_leBytes_of_lt hlt, UInt64.ofNat_toNat]
      have htam := getInt32_ofPart u (getOk p).parts (i := 1) (x := p.tamres) rfl
      simp only [utilsReceiveAndDeserialize, protocol, package, hpack, hres, hword, htam,
        Option.bind_eq_bind, Option.bind_some]

/-- Behind its operation code, a message is received as it was sent. -/
theorem receive_frame (u : Uninit) (m : Message) (rest : Bytes)
    (h : m.body.length < 2147483648) :
    utilsReceiveAndDeserialize u (lengthBytes m.body.length ++ m.body ++ rest) m.protocol
      = some (some m.package, rest) := by
  apply receive_of_parts
  rw [body_eq] at h ⊢
  exact utilsReceivePackage_frame u m.parts rest h

/-! ## Streams of messages -/

/-- The bytes on the stream after the messages are sent one after another. -/
def sendAll (u : Uninit) : List Message → Option Bytes
  | [] => some []
  | m :: ms => do
      let first ← send u m
      let rest ← sendAll u ms
      some (first ++ rest)

/-- Take the operation code and the message behind it until the stream is used up.
Each round takes four bytes, so the length of the stream bounds the rounds. -/
def receiveRounds (u : Uninit) : ℕ → Bytes → Option (List Package)
  | _, [] => some []
  | 0, _ :: _ => none
  | fuel + 1, stream => do
      let (operationCode, stream) := recvWaitAll 4 stream
      let protocol ← TProtocol.ofInt (intOfBytes operationCode)
      let (received, stream) ← utilsReceiveAndDeserialize u stream protocol
      let package ← received
      let packages ← receiveRounds u fuel stream
      some (package :: packages)

theorem receiveRounds_succ (u : Uninit) (fuel : ℕ) {stream : Bytes} (h : stream ≠ []) :
    receiveRounds u (fuel + 1) stream = (do
      let protocol ← TProtocol.ofInt (intOfBytes (recvWaitAll 4 stream).1)
      let (received, stream) ← utilsReceiveAndDeserialize u (recvWaitAll 4 stream).2 protocol
      let package ← received
      let packages ← receiveRounds u fuel stream
      some (package :: packages)) := by
  cases stream with
  | nil => exact absurd rfl h
  | cons b bs => rfl

/-- Read a stream up to its last byte. -/
def receiveAll (u : Uninit) (stream : Bytes) : Option (List Package) :=
  receiveRounds u stream.length stream

theorem length_frame (m : Message) : m.frame.length = 8 + m.body.length := by
  simp [frame]
  omega

/-- An operation code is read as it was sent. -/
theorem intOfBytes_code (protocol : TProtocol) :
    intOfBytes (leBytes 4 protocol.code) = protocol.code := by
  have hcode := protocol.code_lt
  have hlt : protocol.code < 256 ^ 4 := by omega
  rw [intOfBytes, ofLeBytes_leBytes_of_lt hlt, toI32_of_mem (by omega) (by omega)]

theorem recvWaitAll_append {n : ℕ} {bs rest : Bytes} (h : bs.length = n) :
    recvWaitAll n (bs ++ rest) = (bs, rest) := by
  rw [recvWaitAll, List.take_left' h, List.drop_left' h]

/-- The operation code comes off a frame. -/
theorem recvWaitAll_frame (m : Message) (rest : Bytes) :
    recvWaitAll 4 (m.frame ++ rest)
      = (leBytes 4 m.protocol.code, lengthBytes m.body.length ++ m.body ++ rest) := by
  rw [frame, List.append_assoc, List.append_assoc, recvWaitAll_append (length_leBytes _ _),
    List.append_assoc]

/-- One round of the reader takes one frame off the stream. -/
theorem receiveRounds_frame (u : Uninit) (m : Message) (rest : Bytes) (fuel : ℕ)
    (h : m.body.length < 2147483648) :
    receiveRounds u (fuel + 1) (m.frame ++ rest)
      = (receiveRounds u fuel rest).map (m.package :: ·) := by
  have hne : m.frame ++ rest ≠ [] := by
    apply List.ne_nil_of_length_pos
    rw [List.length_append, length_frame]
    omega
  rw [receiveRounds_succ u fuel hne, recvWaitAll_frame]
  simp only [intOfBytes_code, TProtocol.ofInt_code, Option.bind_eq_bind, Option.bind_some,
    receive_frame u m rest h]
  cases receiveRounds u fuel rest <;> rfl

/-- Messages that fit are on the stream as their frames. -/
theorem sendAll_of_fits (u : Uninit) (ms : List Message)
    (h : ∀ m ∈ ms, m.body.length + 8 < 2147483648) :
    sendAll u ms = some (ms.flatMap frame) := by
  induction ms with
  | nil => rfl
  | cons m ms ih =>
      have hrest := ih fun x hx => h x (List.mem_cons_of_mem m hx)
      simp [sendAll, send_of_fits u m (h m List.mem_cons_self), hrest]

theorem receiveRounds_frames (u : Uninit) (ms : List Message) (fuel : ℕ)
    (h : ∀ m ∈ ms, m.body.length + 8 < 2147483648) (hfuel : ms.length ≤ fuel) :
    receiveRounds u fuel (ms.flatMap frame) = some (ms.map package) := by
  induction ms generalizing fuel with
  | nil => cases fuel <;> rfl
  | cons m ms ih =>
      obtain ⟨fuel, rfl⟩ : ∃ k, fuel = k + 1 := ⟨fuel - 1, by simp at hfuel; omega⟩
      have hm := h m List.mem_cons_self
      have hrest := ih fuel (fun x hx => h x (List.mem_cons_of_mem m hx))
        (by simpa using hfuel)
      rw [List.flatMap_cons, receiveRounds_frame u m _ fuel (by omega), hrest]
      rfl

/-- **Round trip of the memory protocol.**  A sequence of messages, each of which fits
an `int` with its header, is read back as it was written, up to the last byte. -/
theorem receiveAll_sendAll (u v : Uninit) (ms : List Message)
    (h : ∀ m ∈ ms, m.body.length + 8 < 2147483648) :
    ∃ stream, sendAll u ms = some stream ∧ receiveAll v stream = some (ms.map package) := by
  refine ⟨ms.flatMap frame, sendAll_of_fits u ms h, ?_⟩
  apply receiveRounds_frames v ms _ h
  have hlen : ∀ m : Message, 1 ≤ m.frame.length := fun m => by rw [length_frame]; omega
  clear h
  induction ms with
  | nil => simp
  | cons m ms ih =>
      have := hlen m
      simp only [List.flatMap_cons, List.length_append, List.length_cons]
      omega

/-- A client session of three requests. -/
theorem receiveAll_sendAll_session : ∃ stream,
    sendAll ⟨0, fun _ => 0⟩ [malloc ⟨200, 7⟩, copy ⟨5, 7, 2, [1, 2]⟩ rfl, get ⟨5, 7, 2⟩]
      = some stream ∧
    receiveAll ⟨0, fun _ => 0⟩ stream
      = some [.malloc ⟨200, 7⟩, .copy ⟨5, 7, 2, [1, 2]⟩, .get ⟨5, 7, 2⟩] :=
  receiveAll_sendAll _ _ [malloc ⟨200, 7⟩, copy ⟨5, 7, 2, [1, 2]⟩ rfl, get ⟨5, 7, 2⟩]
    (by simp [body_eq, parts])

/-- A body that fits an `int` is not enough: the header counts too.  The content here
brings the body to `2 ^ 31 - 8` bytes. -/
theorem receiveAll_sendAll_body_bound : ¬ ∀ (u v : Uninit) (ms : List Message),
    (∀ m ∈ ms, m.body.length < 2147483648) →
      ∃ stream, sendAll u ms = some stream ∧ receiveAll v stream = some (ms.map package) := by
  intro hall
  -- Kept abstract: only the length of the content matters, and evaluating it would not end.
  obtain ⟨content, hcontent⟩ : ∃ content : Bytes, content.length = 2147483612 :=
    ⟨List.replicate 2147483612 0, List.length_replicate⟩
  have hsize : (Int32.ofNat 2147483612).toInt = (content.length : ℤ) := by
    rw [hcontent, Int32.toInt_ofNat_of_lt (by norm_num)]
  let m : Message := copy ⟨0, 0, Int32.ofNat 2147483612, content⟩ hsize
  have hbody : m.body.length = 2147483640 := by
    simp only [m, body_eq, parts, encodeParts_cons, encodeParts_nil, List.length_append,
      length_lengthBytes, length_uint32Bytes, length_intBytes, hcontent, List.length_nil]
  let u : Uninit := ⟨0, fun _ => 0⟩
  obtain ⟨stream, hsend, -⟩ := hall u u [m] (by simp [hbody])
  have hnone : send u m = none := send_of_not_fits u m (by omega) (by omega)
  simp [sendAll, hnone] at hsend

end Threaders.Common
