import Threaders.Common.RoundTrip
import Threaders.Muse.Frames

/-!
# The memory server: its requests

The cases of the `switch` in `muse_server_init`.  Each gives the bytes it puts on the
connection and the globals after it.  A failure is sent in two ways: `MEMFREE` and `GET`
send the bare operation code, `COPY` hands it to `utils_serialize_and_send`.

`none` is a request that is never answered: a loop that does not end within the fuel, or
a run that leaves defined behaviour, as an access outside `memoria` does.

## Main definitions

* `atenderMemfree`, `atenderGet`, `atenderCopy`, `atender` — the cases.
* `Atiende` — a request is served.
* `Responde` — what a request is answered, whatever uninitialised memory holds.
* `rondaServidor` — an iteration of the loop over the connection.
-/

namespace Threaders.Muse

open Lib Common

/-- `send` of a bare operation code. -/
def codigo (protocol : TProtocol) : Bytes := leBytes 4 protocol.code

@[simp] theorem length_codigo (protocol : TProtocol) : (codigo protocol).length = 4 :=
  length_leBytes _ _

/-! ## `MEMFREE` -/

/-- The block is cleared and joined to a free one behind it: the memory, and the size
the local header has then.  No header is written back. -/
def liberar (m : Mem) (dir : ℤ) (size : ℕ) : Mem × ℕ :=
  let m := m.clear (dir + 5) size
  let closest := leerHeap m (dir + size)
  if closest.libre then
    let size := (toU32 (size + closest.size)).toNat
    (m.clear (dir + size) size, size)
  else (m, size)

/-- What this clears and reads lies in `memoria`.  `sizeof(closestHeader)` is the size of a
pointer. -/
def LiberaEnMemoria (c : Config) (m : Mem) (dir : ℤ) (size : ℕ) : Prop :=
  c.EnMemoria (dir + 5) size ∧ c.EnMemoria (dir + size) 8 ∧
    ((leerHeap (m.clear (dir + 5) size) (dir + size)).libre = true →
      c.EnMemoria (dir + (liberar m dir size).2) (liberar m dir size).2)

instance (c : Config) (m : Mem) (dir : ℤ) (size : ℕ) : Decidable (LiberaEnMemoria c m dir size) :=
  inferInstanceAs (Decidable (_ ∧ _ ∧ (_ → _)))

/-- A round of the search for the block in front of the one freed: it goes on, stops at a free
one, or has none left.  An address is compared to a number:
`memoria + desp + previousHeaderDir->size == dir - 6`. -/
def rondaPrevio (c : Config) (m : Mem) (dir : ℤ) (desp : ℤ) :
    Option (ℤ ⊕ Option (ℤ × HeapMetadata)) := do
  let previo ← leerCabecera c m desp 8
  let encontrado : Bool := c.base + desp + previo.size = toI32 (dir - 6)
  if encontrado && previo.libre then some (.inr (some (desp, previo)))
  else
    let desp := if encontrado then desp else toI32 (desp + previo.size + 1)
    some (if desp < toI32 (dir - 5) then .inl desp else .inr none)

/-- A free block in front is cleared, as far as the two sizes together say. -/
def borrarPrevio (c : Config) (m : Mem) (size : ℕ) : Option (ℤ × HeapMetadata) → Option Mem
  | none => some m
  | some (desp, previo) =>
      let size := (toU32 (previo.size + size)).toNat
      if c.EnMemoria (desp + 5) size then some (m.clear (desp + 5) size) else none

/-- What a `MEMFREE` does to `memoria`. -/
def unirPrevio (fuel : ℕ) (c : Config) (m : Mem) (dir : ℤ) (size : ℕ) : Option Mem :=
  if LiberaEnMemoria c m dir size then do
    let (m, size) := liberar m dir size
    let previo ← loop (rondaPrevio c m dir) fuel 0
    borrarPrevio c m size previo
  else none

/-- The `MEMFREE` case of `muse_server_init`.  Its `memcpy` takes `sizeof` of a pointer for that
of a header, and the three bytes too many fit the block that `malloc` gives for five. -/
def atenderMemfree (fuel : ℕ) (c : Config) (u : Uninit) (s : Globals) (p : TFree) :
    Option (Bytes × Globals) :=
  match existeProcesoEnLista s p.selfId with
  | none => some (codigo .segFault, s)
  | some _ => do
      let dir := toI32 p.dir.toNat
      let header ← leerCabecera c s.memoria (dir - 5) 8
      if header.libre then some (codigo .segFault, s)
      else
        let m ← unirPrevio fuel c s.memoria dir header.size
        let respuesta ← utilsSerializeAndSend u .freeResponse (.freeResponse ⟨1⟩)
        some (respuesta, { s with memoria := m })

/-! ## `GET` and `COPY` -/

/-- The `GET` case of `muse_server_init`.  `sizeof(content)` is the size of a pointer and
`sizeof(get_receive->size)` that of an `int`. -/
def atenderGet (c : Config) (u : Uninit) (s : Globals) (p : TGet) : Option (Bytes × Globals) :=
  let s := (procesarId s p.idLibmuse).2
  match existeProcesoEnLista s p.idLibmuse with
  | none => some (codigo .segFault, s)
  | some _ =>
      if c.EnMemoria p.src.toNat 8 then do
        let content := UInt64.ofNat (s.memoria.readLe p.src.toNat 8)
        let respuesta ← utilsSerializeAndSend u .getOk (.getOk ⟨content, 4⟩)
        some (respuesta, s)
      else none

/-- The failures of the `COPY` case. -/
def copyFallido (u : Uninit) (s : Globals) : Option (Bytes × Globals) := do
  let respuesta ← utilsSerializeAndSend u .segFault (.copyResponse ⟨-1⟩)
  some (respuesta, s)

/-- `!heap->libre` in the `COPY` case.  The negation of a `bool` turns its last bit over, so any
byte but 1 passes. -/
def PasaCopy (m : Mem) (dst : ℤ) : Prop := m (dst - 1) ≠ 1

instance (m : Mem) (dst : ℤ) : Decidable (PasaCopy m dst) := inferInstanceAs (Decidable (_ ≠ _))

/-- The memory after a `COPY`: the size in front of `dst` is set, the byte `libre` is written
back as it was read. -/
def copiar (m : Mem) (dst : ℤ) (size : ℕ) (content : Bytes) : Mem :=
  (m.writeLe (dst - 5) 4 size).write dst content

/-- The `COPY` case of `muse_server_init`. -/
def atenderCopy (c : Config) (u : Uninit) (s : Globals) (p : TCopy) : Option (Bytes × Globals) :=
  let s := (procesarId s p.selfId).2
  match existeProcesoEnLista s p.selfId with
  | none => copyFallido u s
  | some _ =>
      if c.EnMemoria (p.dst.toNat - 5) 5 then
        if PasaCopy s.memoria p.dst.toNat then do
          let content ← memcpyFrom p.content 0 p.size.toInt
          if c.EnMemoria p.dst.toNat content.length then
            let m := copiar s.memoria p.dst.toNat p.size.toUInt32.toNat content
            let respuesta ← utilsSerializeAndSend u .getOk (.copyResponse ⟨1⟩)
            some (respuesta, { s with memoria := m })
          else none
        else copyFallido u s
      else none

/-! ## The loop over the connection -/

/-- The case of a request. -/
def atender (fuel : ℕ) (c : Config) (u : Uninit) (l : Locales) (s : Globals) :
    Package → Option (Bytes × Globals)
  | .malloc p => do
      let (res, s) ← atenderMalloc fuel c l s p
      let respuesta ← utilsSerializeAndSend u .mallocOk (.mallocOk res)
      some (respuesta, s)
  | .memfree p => atenderMemfree fuel c u s p
  | .get p => atenderGet c u s p
  | .copy p => atenderCopy c u s p
  | _ => none

/-- The `switch` of `muse_server_init` on an operation code: what is left of the bytes
received, the globals, and the bytes sent.  The other operation codes have no case, or one
that does nothing. -/
def casoServidor (fuel : ℕ) (c : Config) (u : Uninit) (l : Locales) (s : Globals)
    (entrada : Bytes) : Option TProtocol → Option (Bytes × Globals × Bytes)
  | some .malloc => pedido .malloc
  | some .memfree => pedido .memfree
  | some .get => pedido .get
  | some .copy => pedido .copy
  | _ => some (entrada, s, [])
where
  pedido (protocol : TProtocol) : Option (Bytes × Globals × Bytes) := do
    let (recibido, entrada) ← utilsReceiveAndDeserialize u entrada protocol
    let peticion ← recibido
    let (enviado, s) ← atender fuel c u l s peticion
    some (entrada, s, enviado)

/-- An iteration of the loop of `muse_server_init`, once an operation code has come. -/
def rondaServidor (fuel : ℕ) (c : Config) (u : Uninit) (l : Locales) (s : Globals)
    (entrada : Bytes) : Option (Bytes × Globals × Bytes) :=
  casoServidor fuel c u l s (recvWaitAll 4 entrada).2
    (TProtocol.ofInt (intOfBytes (recvWaitAll 4 entrada).1))

/-! ## What the cases answer -/

/-- The `GET_OK` that a `t_copy_response` is sent as. -/
def comoGetOk (u : Uninit) (p : TCopyResponse) : TGetOk :=
  ⟨UInt64.ofNat (ofLeBytes ((p.memory u).take 8)),
    (UInt32.ofNat (ofLeBytes ((p.memory u).drop 8))).toInt32⟩

section Answers
variable {u : Uninit} {c : Config} {s s' : Globals} {l : Locales} {fuel : ℕ}

@[simp] theorem send_mallocOk (p : TMallocOk) :
    utilsSerializeAndSend u .mallocOk (.mallocOk p) = some (Message.mallocOk p).frame :=
  send_of_fits u (.mallocOk p) (by simp [Message.body, Message.parts])

@[simp] theorem send_freeResponse (p : TFreeResponse) :
    utilsSerializeAndSend u .freeResponse (.freeResponse p) = some (Message.freeResponse p).frame :=
  send_of_fits u (.freeResponse p) (by simp [Message.body, Message.parts])

@[simp] theorem send_getOk (p : TGetOk) :
    utilsSerializeAndSend u .getOk (.getOk p) = some (Message.getOk p).frame :=
  send_of_fits u (.getOk p) (by simp [Message.body, Message.parts])

@[simp] theorem length_memory (p : TCopyResponse) : (p.memory u).length = 12 := by
  simp [TCopyResponse.memory]

theorem utilsPackageAdd_take (package : TPackage) {value : Bytes} {n : ℕ} (h : n ≤ value.length) :
    utilsPackageAdd package value n = utilsPackageAdd package (value.take n) n := by
  simp [utilsPackageAdd, h, List.take_take]

/-- The two parts read out of a `t_copy_response` are those of a `t_get_ok`. -/
@[simp] theorem send_copyResponse (p : TCopyResponse) :
    utilsSerializeAndSend u .getOk (.copyResponse p)
      = some (Message.getOk (comoGetOk u p)).frame := by
  have hres : leBytes 8 (comoGetOk u p).res.toNat = (p.memory u).take 8 := by
    have hlen : ((p.memory u).take 8).length = 8 := by simp
    have hlt : ofLeBytes ((p.memory u).take 8) < 2 ^ 64 := by
      simpa [hlen] using ofLeBytes_lt ((p.memory u).take 8)
    rw [comoGetOk, UInt64.toNat_ofNat_of_lt' hlt, leBytes_ofLeBytes hlen]
  have htamres : intBytes (comoGetOk u p).tamres = ((p.memory u).drop 8).take 4 := by
    have hlen : ((p.memory u).drop 8).length = 4 := by simp
    have hlt : ofLeBytes ((p.memory u).drop 8) < 2 ^ 32 := by
      simpa [hlen] using ofLeBytes_lt ((p.memory u).drop 8)
    rw [List.take_of_length_le (by omega), ← leBytes_ofLeBytes hlen,
      ← UInt32.toNat_ofNat_of_lt' hlt]
    rfl
  rw [← send_getOk (u := u)]
  simp only [utilsSerializeAndSend, hres, htamres]
  rw [show (8 : ℤ) = (8 : ℕ) from rfl, show (4 : ℤ) = (4 : ℕ) from rfl,
    utilsPackageAdd_take _ (by simp : 8 ≤ (p.memory u).length)]
  cases utilsPackageAdd (utilsPackageCreate .getOk) ((p.memory u).take 8) (8 : ℕ) with
  | none => rfl
  | some package =>
      simp only [Option.bind_eq_bind, Option.bind_some]
      rw [utilsPackageAdd_take _ (by simp : 4 ≤ ((p.memory u).drop 8).length)]

/-- The first `int` of the `GET_OK` is the result of the `COPY`, whatever lies behind it. -/
theorem toI32_comoGetOk (p : TCopyResponse) : toI32 (comoGetOk u p).res.toNat = p.res.toInt := by
  have hbytes : (p.memory u).take 8 = intBytes p.res ++ ((List.range 8).map u.heap).take 4 := by
    rw [TCopyResponse.memory, List.take_append, length_intBytes,
      List.take_of_length_le (by simp)]
  have hlt : ofLeBytes ((p.memory u).take 8) < 2 ^ 64 := by
    simpa using ofLeBytes_lt ((p.memory u).take 8)
  have hres : ofLeBytes (intBytes p.res) = p.res.toUInt32.toNat :=
    ofLeBytes_leBytes_of_lt p.res.toUInt32.toNat_lt
  rw [comoGetOk, UInt64.toNat_ofNat_of_lt' hlt, hbytes, ofLeBytes_append, length_intBytes, hres]
  rw [← toI32_toUInt32]
  unfold toI32
  omega

/-- A process that was just registered is found. -/
theorem existeProcesoEnLista_procesarId (s : Globals) (id : Int32) :
    existeProcesoEnLista (procesarId s id).2 id = some (procesarId s id).1 :=
  (procesarId_spec s id).2.2.2.1

/-- A `GET` is answered `GET_OK` wherever its eight bytes are in `memoria`: its process is
registered before it is looked up. -/
theorem atenderGet_eq (c : Config) (u : Uninit) (s : Globals) (p : TGet) :
    atenderGet c u s p =
      if c.EnMemoria p.src.toNat 8 then
        some ((Message.getOk ⟨UInt64.ofNat (s.memoria.readLe p.src.toNat 8), 4⟩).frame,
          (procesarId s p.idLibmuse).2)
      else none := by
  simp [atenderGet, existeProcesoEnLista_procesarId, (procesarId_spec s p.idLibmuse).1]

/-- A `COPY` of the bytes that came with it is answered `GET_OK` wherever its header and its bytes
are in `memoria`, unless the header is marked free. -/
theorem atenderCopy_eq {p : TCopy} (hsize : p.size.toInt = p.content.length) :
    atenderCopy c u s p =
      if c.EnMemoria (p.dst.toNat - 5) 5 then
        if PasaCopy s.memoria p.dst.toNat then
          if c.EnMemoria p.dst.toNat p.content.length then
            some ((Message.getOk (comoGetOk u ⟨1⟩)).frame,
              { (procesarId s p.selfId).2 with
                memoria := copiar s.memoria p.dst.toNat p.size.toUInt32.toNat p.content })
          else none
        else some ([], (procesarId s p.selfId).2)
      else none := by
  have hnada : utilsSerializeAndSend u .segFault (.copyResponse ⟨-1⟩) = some [] := rfl
  simp [atenderCopy, existeProcesoEnLista_procesarId, (procesarId_spec s p.selfId).1,
    memcpyFrom_self hsize, copyFallido, hnada]

/-- A `COPY` to a free block sends nothing. -/
theorem atenderCopy_libre {p : TCopy} (hdst : c.EnMemoria (p.dst.toNat - 5) 5)
    (h : ¬ PasaCopy s.memoria p.dst.toNat) :
    atenderCopy c u s p = some ([], (procesarId s p.selfId).2) := by
  simp [atenderCopy, existeProcesoEnLista_procesarId, (procesarId_spec s p.selfId).1, hdst, h,
    copyFallido, utilsSerializeAndSend]

/-- A `COPY` to a used block is answered `GET_OK`. -/
theorem atenderCopy_usado {p : TCopy} (hsize : p.size.toInt = p.content.length)
    (hdst : c.EnMemoria (p.dst.toNat - 5) 5) (h : PasaCopy s.memoria p.dst.toNat)
    (hcontent : c.EnMemoria p.dst.toNat p.content.length) :
    atenderCopy c u s p = some ((Message.getOk (comoGetOk u ⟨1⟩)).frame,
      { (procesarId s p.selfId).2 with
        memoria := copiar s.memoria p.dst.toNat p.size.toUInt32.toNat p.content }) := by
  rw [atenderCopy_eq hsize, if_pos hdst, if_pos h, if_pos hcontent]

/-- What a `COPY` that is served has done: nothing but send nothing, or its copy and a
`GET_OK`. -/
theorem atenderCopy_eq_some {p : TCopy} {respuesta : Bytes}
    (h : atenderCopy c u s p = some (respuesta, s')) :
    c.EnMemoria (p.dst.toNat - 5) 5 ∧
      (¬ PasaCopy s.memoria p.dst.toNat ∧ respuesta = [] ∧ s' = (procesarId s p.selfId).2 ∨
        PasaCopy s.memoria p.dst.toNat ∧ respuesta = (Message.getOk (comoGetOk u ⟨1⟩)).frame ∧
          ∃ content, memcpyFrom p.content 0 p.size.toInt = some content ∧
            c.EnMemoria p.dst.toNat content.length ∧
            s' = { (procesarId s p.selfId).2 with
              memoria := copiar s.memoria p.dst.toNat p.size.toUInt32.toNat content }) := by
  simp only [atenderCopy, existeProcesoEnLista_procesarId, (procesarId_spec s p.selfId).1,
    send_copyResponse, Option.bind_eq_bind, Option.ite_none_right_eq_some] at h
  obtain ⟨hdst, h⟩ := h
  refine ⟨hdst, ?_⟩
  by_cases hpasa : PasaCopy s.memoria p.dst.toNat
  · simp only [if_pos hpasa, Option.bind_some, Option.bind_eq_some_iff,
      Option.ite_none_right_eq_some, Option.some.injEq, Prod.mk.injEq] at h
    obtain ⟨content, hcontent, hdentro, rfl, rfl⟩ := h
    exact .inr ⟨hpasa, rfl, content, hcontent, hdentro, rfl⟩
  · rw [if_neg hpasa, copyFallido, utilsSerializeAndSend] at h
    obtain ⟨rfl, rfl⟩ := Prod.mk.inj (Option.some.inj h)
    exact .inl ⟨hpasa, rfl, rfl⟩

/-- A `COPY` is answered nothing or a `GET_OK`. -/
theorem atenderCopy_answer {p : TCopy} {respuesta : Bytes}
    (h : atenderCopy c u s p = some (respuesta, s')) :
    respuesta = [] ∨ ∃ p, respuesta = (Message.getOk p).frame := by
  obtain ⟨-, ⟨-, rfl, -⟩ | ⟨-, rfl, -⟩⟩ := atenderCopy_eq_some h
  · exact .inl rfl
  · exact .inr ⟨_, rfl⟩

theorem unirPrevio_eq_some {m m' : Mem} {dir : ℤ} {size : ℕ} :
    unirPrevio fuel c m dir size = some m' ↔ LiberaEnMemoria c m dir size ∧
      ∃ previo, loop (rondaPrevio c (liberar m dir size).1 dir) fuel 0 = some previo ∧
        borrarPrevio c (liberar m dir size).1 (liberar m dir size).2 previo = some m' := by
  simp only [unirPrevio, Option.ite_none_right_eq_some, Option.bind_eq_bind,
    Option.bind_eq_some_iff]

theorem atenderMemfree_none {p : TFree} (h : existeProcesoEnLista s p.selfId = none) :
    atenderMemfree fuel c u s p = some (codigo .segFault, s) := by
  simp [atenderMemfree, h]

/-- The header of a registered process's `MEMFREE` that is served lies in `memoria`. -/
theorem enMemoria_of_memfree {p : TFree} {respuesta : Bytes}
    (hid : existeProcesoEnLista s p.selfId ≠ none)
    (h : atenderMemfree fuel c u s p = some (respuesta, s')) :
    c.EnMemoria (toI32 p.dir.toNat - 5) 8 := by
  obtain ⟨nodo, hnodo⟩ := Option.ne_none_iff_exists'.mp hid
  simp only [atenderMemfree, hnodo, Option.bind_eq_bind, Option.bind_eq_some_iff,
    leerCabecera_eq_some] at h
  obtain ⟨header, ⟨hdir, -⟩, -⟩ := h
  exact hdir

theorem atenderMemfree_libre {p : TFree} (hdir : c.EnMemoria (toI32 p.dir.toNat - 5) 8)
    (h : (leerHeap s.memoria (toI32 p.dir.toNat - 5)).libre = true) :
    atenderMemfree fuel c u s p = some (codigo .segFault, s) := by
  unfold atenderMemfree
  cases existeProcesoEnLista s p.selfId <;> simp [leerCabecera, hdir, h]

/-- A `MEMFREE` of a used block is answered `FREE_RESPONSE`, once the search for the block
in front of it has ended. -/
theorem atenderMemfree_usado {p : TFree} (hid : existeProcesoEnLista s p.selfId ≠ none)
    (hdir : c.EnMemoria (toI32 p.dir.toNat - 5) 8)
    (h : (leerHeap s.memoria (toI32 p.dir.toNat - 5)).libre = false) :
    atenderMemfree fuel c u s p =
      (unirPrevio fuel c s.memoria (toI32 p.dir.toNat)
        (leerHeap s.memoria (toI32 p.dir.toNat - 5)).size).map
          fun m => ((Message.freeResponse ⟨1⟩).frame, { s with memoria := m }) := by
  obtain ⟨nodo, hnodo⟩ := Option.ne_none_iff_exists'.mp hid
  simp only [atenderMemfree, hnodo, leerCabecera, if_pos hdir, h, Bool.false_eq_true, if_false,
    send_freeResponse, Option.bind_eq_bind, Option.bind_some]
  cases unirPrevio fuel c s.memoria (toI32 p.dir.toNat)
    (leerHeap s.memoria (toI32 p.dir.toNat - 5)).size <;> rfl

/-- A `MEMFREE` changes `memoria` only. -/
theorem tablas_memfree {p : TFree} {respuesta : Bytes}
    (h : atenderMemfree fuel c u s p = some (respuesta, s')) : ∃ m, s' = { s with memoria := m } := by
  by_cases hid : existeProcesoEnLista s p.selfId = none
  · rw [atenderMemfree_none hid] at h
    cases h
    exact ⟨_, rfl⟩
  have hdir := enMemoria_of_memfree hid h
  cases hlibre : (leerHeap s.memoria (toI32 p.dir.toNat - 5)).libre with
  | true =>
      rw [atenderMemfree_libre hdir hlibre] at h
      cases h
      exact ⟨_, rfl⟩
  | false =>
      rw [atenderMemfree_usado hid hdir hlibre] at h
      obtain ⟨m, -, heq⟩ := Option.map_eq_some_iff.1 h
      exact ⟨m, (Prod.mk.inj heq).2.symm⟩

theorem rondaServidor_code (protocol : TProtocol) (resto : Bytes) :
    rondaServidor fuel c u l s (leBytes 4 protocol.code ++ resto)
      = casoServidor fuel c u l s resto (some protocol) := by
  rw [rondaServidor, recvWaitAll_append (length_leBytes _ _), intOfBytes_code,
    TProtocol.ofInt_code]

/-- A request that has arrived as a whole goes to its case, which leaves what is behind it. -/
theorem rondaServidor_frame {m : Message} {resto : Bytes} (hfits : m.body.length < 2147483648)
    (hcaso : m.protocol = .malloc ∨ m.protocol = .memfree ∨ m.protocol = .get ∨ m.protocol = .copy) :
    rondaServidor fuel c u l s (m.frame ++ resto)
      = (atender fuel c u l s m.package).map fun r => (resto, r.2, r.1) := by
  have hframe := receive_frame u m resto hfits
  rw [Message.frame, List.append_assoc, List.append_assoc, rondaServidor_code,
    ← List.append_assoc]
  generalize lengthBytes m.body.length ++ m.body ++ resto = cuerpo at hframe ⊢
  generalize m.protocol = protocol at hcaso hframe ⊢
  have hpedido : casoServidor fuel c u l s cuerpo (some protocol)
      = casoServidor.pedido fuel c u l s cuerpo protocol := by
    rcases hcaso with rfl | rfl | rfl | rfl <;> rfl
  rw [hpedido, casoServidor.pedido, hframe]
  simp only [Option.bind_eq_bind, Option.bind_some]
  cases atender fuel c u l s m.package <;> rfl

end Answers

/-- A request is served, in some number of rounds of its loops and whatever uninitialised
memory holds. -/
def Atiende (c : Config) (s : Globals) (peticion : Package) (s' : Globals) : Prop :=
  ∃ fuel u l respuesta, atender fuel c u l s peticion = some (respuesta, s')

/-- A request is answered with these bytes and leaves these globals, whatever
uninitialised memory holds. -/
def Responde (c : Config) (s : Globals) (peticion : Package) (respuesta : Bytes) (s' : Globals) :
    Prop := ∀ u l, ∃ fuel, atender fuel c u l s peticion = some (respuesta, s')

/-- Whom a request other than `MALLOC` registers. -/
def registrado (s : Globals) : Package → Globals
  | .get p => (procesarId s p.idLibmuse).2
  | .copy p => (procesarId s p.selfId).2
  | _ => s

section Requests
variable {c : Config} {s s' : Globals} {p : TMalloc} {peticion : Package}

theorem atiende_malloc_iff : Atiende c s (.malloc p) s' ↔ ∃ r, MallocStep c s (p, r) s' := by
  constructor
  · rintro ⟨fuel, u, l, respuesta, h⟩
    simp only [atender, send_mallocOk, Option.bind_eq_bind, Option.bind_some,
      Option.bind_eq_some_iff, Option.some.injEq, Prod.mk.injEq, Prod.exists] at h
    obtain ⟨r, t, hserved, -, rfl⟩ := h
    exact ⟨r, fuel, l, hserved⟩
  · rintro ⟨r, fuel, l, h⟩
    exact ⟨fuel, ⟨0, fun _ => 0⟩, l, (Message.mallocOk r).frame, by simp [atender, h]⟩

/-- The other requests register a process at most. -/
theorem tablas_of_not_malloc (hstep : Atiende c s peticion s')
    (hother : ∀ p, peticion ≠ .malloc p) :
    s'.vectorFrames = (registrado s peticion).vectorFrames ∧
      s'.vectorAtributoPaginas = (registrado s peticion).vectorAtributoPaginas ∧
      s'.listaProcesos = (registrado s peticion).listaProcesos := by
  obtain ⟨fuel, u, l, respuesta, h⟩ := hstep
  cases peticion with
  | malloc p => exact absurd rfl (hother p)
  | memfree p =>
      obtain ⟨m, rfl⟩ := tablas_memfree h
      exact ⟨rfl, rfl, rfl⟩
  | get p =>
      rw [atender, atenderGet_eq, Option.ite_none_right_eq_some, Option.some.injEq,
        Prod.mk.injEq] at h
      obtain ⟨-, -, rfl⟩ := h
      exact ⟨rfl, rfl, rfl⟩
  | copy p =>
      obtain ⟨-, ⟨-, -, rfl⟩ | ⟨-, -, content, -, -, rfl⟩⟩ := atenderCopy_eq_some h
      · exact ⟨rfl, rfl, rfl⟩
      · exact ⟨rfl, rfl, rfl⟩
  | _ => cases h

end Requests

end Threaders.Muse
