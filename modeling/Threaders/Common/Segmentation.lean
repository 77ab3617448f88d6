import Threaders.Lib.Segments
import Threaders.Common.PathRequests

/-!
# The receive loops and the cuts of the transport

Both servers read an operation code with a plain `recv`, checked only for `<= 0`, and the rest
of the message with `MSG_WAITALL`.  A code that arrives in two pieces leaves the second one to
be read as the length of the body, and the length as the start of the body: the first part of
the body then has a thousand bytes or more and is copied over a field of four.

The file system server dispatches no request even where no code is cut, but where the pointer
that it copies the path to, which it never sets, happens to be good.

## Main definitions

* `recvPlain` — a `recv` without `MSG_WAITALL`.
* `Receptor`, `despacho` — a server's receive loop and the messages that it dispatches.
* `CodigosEnteros` — no piece ends inside an operation code.
* `Servidor` — the two servers with the messages that their clients send.
* `Servidor.Despacha` — the streams and cuts of which a server dispatches the messages.
* `dispatch_iff_codes_whole` — the cuts that do not change what the two servers dispatch.
-/

namespace Threaders.Common

open Lib

/-! ## The loop -/

/-- `recv` of up to `n` bytes: a part of the first piece that is there. -/
def recvPlain (n : ℕ) : List Bytes → Bytes × List Bytes
  | [] => ([], [])
  | p :: ps => (p.take n, dropPieces (p.take n).length (p :: ps))

/-- What one server does with the bytes of `protocol`: the case of its `switch` that receives a
message for them, if any, and how.  Every such case reads the first part of the message into
a field of four bytes. -/
structure Receptor (D : Type) where
  codigo : Bytes → Option TProtocol
  receive : Uninit → Bytes → TProtocol → Option (D × Bytes)
  primero : ∀ {bytes u stream code d rest}, codigo bytes = some code →
    receive u stream code = some (d, rest) →
    ∃ list rest', utilsReceivePackage u stream = some (list, rest') ∧
      ∃ b, list[0]? = some b ∧ b.stream.length ≤ 4

/-- One round of a receive loop, which `seguir` goes on from.  A short `recv` leaves the other
bytes of `protocol` as they were. -/
def ronda {D : Type} (s : Receptor D) (u : Uninit)
    (seguir : Bytes → List Bytes → Option (List (TProtocol × D))) (protocol : Bytes)
    (pieces : List Bytes) : Option (List (TProtocol × D)) :=
  let (got, pieces) := recvPlain 4 pieces
  let protocol := got ++ protocol.drop got.length
  match s.codigo protocol with
  | none => seguir protocol pieces
  | some code => do
      let (d, rest) ← s.receive u pieces.flatten code
      let ds ← seguir protocol (dropPieces (pieces.flatten.length - rest.length) pieces)
      some ((code, d) :: ds)

/-- The receive loop: the pairs of operation code and message that it dispatches until `recv`
returns 0.  `u` is what uninitialised memory holds in each round.  Each round takes at least
one byte, so the length of the stream bounds the rounds. -/
def rondas {D : Type} (s : Receptor D) (u : ℕ → Uninit) :
    ℕ → Bytes → List Bytes → Option (List (TProtocol × D))
  | _, _, [] => some []
  | 0, _, _ :: _ => none
  | fuel + 1, protocol, p :: ps => ronda s (u fuel) (rondas s u fuel) protocol (p :: ps)

/-- What the loop dispatches from a stream cut into the given pieces. -/
def despacho {D : Type} (s : Receptor D) (u : ℕ → Uninit) (protocol : Bytes)
    (pieces : List Bytes) : Option (List (TProtocol × D)) :=
  rondas s u pieces.flatten.length protocol pieces

/-- No piece ends strictly inside the first four bytes of a frame. -/
def CodigosEnteros (fs pieces : List Bytes) : Prop :=
  ∀ pre f post c, fs = pre ++ f :: post → Cut pieces c →
    ¬ (pre.flatten.length < c ∧ c < pre.flatten.length + 4)

theorem codigosEnteros_nil (pieces : List Bytes) : CodigosEnteros [] pieces := by
  intro pre f post c h
  simp at h

theorem codigosEnteros_cons {f : Bytes} {fs pieces : List Bytes} :
    CodigosEnteros (f :: fs) pieces ↔
      (∀ c, Cut pieces c → ¬ (0 < c ∧ c < 4)) ∧
        CodigosEnteros fs (dropPieces f.length pieces) := by
  constructor
  · intro h
    refine ⟨fun c hcut => by simpa using h [] f fs c rfl hcut, ?_⟩
    intro pre g post c hfs hcut hc
    have hcut' := (cut_dropPieces (by omega)).1 hcut
    apply h (f :: pre) g post _ (by rw [hfs]; rfl) hcut'
    rw [List.flatten_cons, List.length_append]
    omega
  · rintro ⟨hfirst, hrest⟩ pre g post c hfs hcut hc
    cases pre with
    | nil => exact hfirst c hcut (by simpa using hc)
    | cons f' pre =>
        obtain ⟨rfl, rfl⟩ := List.cons.inj hfs
        rw [List.flatten_cons, List.length_append] at hc
        obtain ⟨c, rfl⟩ : ∃ c', c = f.length + c' := ⟨c - f.length, by omega⟩
        exact hrest pre g post c rfl ((cut_dropPieces (by omega)).2 hcut) (by omega)

/-! ## A code that arrives in two pieces -/

theorem drop_code {n k : ℕ} (hn : n < 256) (hk : 1 ≤ k) (hk' : k ≤ 4) :
    (leBytes 4 n).drop k = List.replicate (4 - k) 0 := by
  have hdiv : n / 256 = 0 := Nat.div_eq_of_lt hn
  have hbytes : leBytes 4 n = [UInt8.ofNat n, 0, 0, 0] := by
    simp [leBytes, hdiv]
  rw [hbytes]
  obtain rfl | rfl | rfl | rfl : k = 1 ∨ k = 2 ∨ k = 3 ∨ k = 4 := by omega
  all_goals rfl

theorem ofLeBytes_replicate_zero (k : ℕ) : ofLeBytes (List.replicate k 0) = 0 := by
  induction k with
  | zero => rfl
  | succ k ih => simp [List.replicate_succ, ofLeBytes, ih]

/-- The length of the first part, read from `4 - k` bytes of the length of the body and `k`
bytes of the length 4 of the first part. -/
theorem shifted_length {k : ℕ} (hk : 1 ≤ k) (hk' : k < 4) {high : Bytes}
    (hhigh : high.length = 4 - k) :
    1024 ≤ intOfBytes (high ++ (lengthBytes 4).take k) := by
  have hlow : ofLeBytes ((lengthBytes 4).take k) = 4 := by
    obtain rfl | rfl | rfl : k = 1 ∨ k = 2 ∨ k = 3 := by omega
    all_goals decide
  have hlt := ofLeBytes_lt high
  rw [hhigh] at hlt
  rw [intOfBytes, ofLeBytes_append, hlow, hhigh]
  obtain rfl | rfl | rfl : k = 1 ∨ k = 2 ∨ k = 3 := by omega
  all_goals
    norm_num at hlt ⊢
    rw [toI32_of_mem (by omega) (by omega)]
    omega

/-- A size whose low bytes are zeros is not between 0 and 256. -/
theorem shifted_size {k : ℕ} (hk' : k < 4) (low : Bytes)
    (hpos : 0 < intOfBytes (List.replicate (4 - k) 0 ++ low)) :
    256 ≤ intOfBytes (List.replicate (4 - k) 0 ++ low) := by
  obtain ⟨j, hj⟩ : ∃ j, 4 - k = j + 1 := ⟨3 - k, by omega⟩
  rw [intOfBytes, ofLeBytes_append, ofLeBytes_replicate_zero, List.length_replicate, hj,
    Nat.zero_add, Nat.pow_succ', Nat.mul_assoc] at hpos ⊢
  generalize 256 ^ j * ofLeBytes low = y at hpos ⊢
  push_cast at hpos ⊢
  unfold toI32 at hpos ⊢
  omega

theorem length_overwrite {old : ℕ → UInt8} {n : ℕ} {got : Bytes} (h : got.length ≤ n) :
    (overwrite old n got).length = n := by
  simp [overwrite]
  omega

/-- The first part of a received list has the length that the first four bytes of the body
say. -/
theorem length_head_receiveParts {buffer : Bytes} {valores : List TBuffer} {b : TBuffer}
    (h : receiveParts buffer 0 = some valores) (hb : valores[0]? = some b) :
    0 < buffer.length ∧ (b.stream.length : ℤ) = intOfBytes (buffer.take 4) := by
  rw [receiveParts] at h
  by_cases hlen : 0 < buffer.length
  · refine ⟨hlen, ?_⟩
    simp only [if_pos hlen, Option.bind_eq_bind, Option.bind_eq_some_iff,
      Option.map_eq_some_iff] at h
    obtain ⟨tamanio, ⟨bs, hbs, rfl⟩, stream, hstream, valores', -, hlist⟩ := h
    obtain rfl : bs = buffer.take 4 := by
      unfold memcpyFrom at hbs
      split at hbs
      · simpa using (Option.some.inj hbs).symm
      · cases hbs
    rw [← Option.some.inj hlist] at hb
    obtain rfl := Option.some.inj hb
    exact length_of_memcpyFrom hstream
  · rw [if_neg hlen] at h
    rw [← Option.some.inj h] at hb
    simp at hb

/-- Behind the first `k` bytes of an operation code, the rest of a frame is received, if at
all, as a list whose first part has a thousand bytes or more. -/
theorem receive_shifted (u : Uninit) {code k : ℕ} (hcode : code < 256) (hk : 1 ≤ k)
    (hk' : k < 4) {p : Bytes} {qs : List Bytes} (hp : p.length = 4) (rest : Bytes)
    {list : List TBuffer} {rest' : Bytes} {b : TBuffer}
    (h : utilsReceivePackage u ((leBytes 4 code ++ lengthBytes (encodeParts (p :: qs)).length ++
      encodeParts (p :: qs) ++ rest).drop k) = some (list, rest'))
    (hb : list[0]? = some b) : 1024 ≤ b.stream.length := by
  generalize hL : lengthBytes ((encodeParts (p :: qs)).length : ℤ) = L at h
  have hLlen : L.length = 4 := by rw [← hL]; exact length_lengthBytes _
  have hbody : encodeParts (p :: qs) = lengthBytes 4 ++ (p ++ encodeParts qs) := by
    rw [encodeParts_cons, hp, List.append_assoc]
    rfl
  generalize htail : p ++ encodeParts qs = tail at hbody
  have hstream : (leBytes 4 code ++ L ++ encodeParts (p :: qs) ++ rest).drop k
      = List.replicate (4 - k) 0 ++ L.take k ++ (L.drop k ++ (lengthBytes 4).take k ++
        ((lengthBytes 4).drop k ++ tail ++ rest)) := by
    rw [hbody, List.append_assoc, List.append_assoc,
      List.drop_append_of_le_length (by simp; omega), drop_code hcode hk (by omega)]
    simp only [List.append_assoc, List.append_cancel_left_eq]
    rw [← List.append_assoc (L.take k), List.take_append_drop,
      ← List.append_assoc ((lengthBytes 4).take k), List.take_append_drop]
  have hfour : (List.replicate (4 - k) (0 : UInt8) ++ L.take k).length = 4 := by
    simp
    omega
  generalize hS : L.drop k ++ (lengthBytes 4).take k ++
    ((lengthBytes 4).drop k ++ tail ++ rest) = S at hstream
  have hS4 : S.take 4 = L.drop k ++ (lengthBytes 4).take k := by
    rw [← hS]
    exact List.take_left' (by simp; omega)
  rw [hstream] at h
  simp only [utilsReceivePackage, utilsReceiveBuffer, recvWaitAll_append hfour,
    overwrite_of_length hfour, Option.bind_eq_bind, Option.bind_eq_some_iff] at h
  obtain ⟨valores, hparts, heq⟩ := h
  obtain ⟨rfl, -⟩ : valores = list ∧ _ := by simpa using heq
  obtain ⟨hpos, hlen⟩ := length_head_receiveParts hparts hb
  generalize hsize : intOfBytes (List.replicate (4 - k) 0 ++ L.take k) = size at hpos hlen
  have htake : (recvWaitAll size.toNat S).1.length ≤ size.toNat := by
    simp [recvWaitAll]
  rw [length_overwrite htake] at hpos
  have hbig : 256 ≤ size := by
    rw [← hsize]
    exact shifted_size hk' _ (by omega)
  have hhead : (overwrite u.heap size.toNat (recvWaitAll size.toNat S).1).take 4
      = L.drop k ++ (lengthBytes 4).take k := by
    have hSlen : 4 ≤ S.length := by
      rw [← hS]
      simp
      omega
    rw [overwrite, recvWaitAll, List.take_append_of_le_length (by simp; omega), List.take_take,
      Nat.min_eq_left (by omega), hS4]
  have hshift := shifted_length hk hk' (show (L.drop k).length = 4 - k by simp; omega)
  rw [hhead] at hlen
  omega

/-! ## One round -/

/-- A complete message that a receptor has a case for, and what uninitialised memory has to hold
for it to be received. -/
structure Mensaje {D : Type} (s : Receptor D) where
  protocol : TProtocol
  parts : List Bytes
  decodificado : D
  llega : Uninit → Prop
  caso : s.codigo (leBytes 4 protocol.code) = some protocol
  primero : ∃ p qs, parts = p :: qs ∧ p.length = 4
  recibe : ∀ u rest, llega u → s.receive u (lengthBytes (encodeParts parts).length ++
    encodeParts parts ++ rest) protocol = some (decodificado, rest)
  seCae : ∀ u rest, ¬ llega u → s.receive u (lengthBytes (encodeParts parts).length ++
    encodeParts parts ++ rest) protocol = none

/-- The bytes of the message. -/
def Mensaje.frame {D : Type} {s : Receptor D} (m : Mensaje s) : Bytes :=
  frameOf m.protocol m.parts

/-- What the loop should dispatch for the message. -/
def Mensaje.par {D : Type} {s : Receptor D} (m : Mensaje s) : TProtocol × D :=
  (m.protocol, m.decodificado)

section Rondas

variable {D : Type} {s : Receptor D}

theorem Mensaje.four_add (m : Mensaje s) : 4 + (m.frame.length - 4) = m.frame.length := by
  have hlen : m.frame.length = 8 + (encodeParts m.parts).length := length_frameOf _ _
  omega

theorem rondas_succ (u : ℕ → Uninit) (fuel : ℕ) (protocol p : Bytes) (ps : List Bytes) :
    rondas s u (fuel + 1) protocol (p :: ps)
      = ronda s (u fuel) (rondas s u fuel) protocol (p :: ps) := rfl

/-- A round whose `protocol` comes to hold a code that the receptor has a case for. -/
theorem ronda_code (u : Uninit) {seguir : Bytes → List Bytes → Option (List (TProtocol × D))}
    {protocol got : Bytes} {pieces pieces' : List Bytes} {code : TProtocol}
    (hcaso : s.codigo (leBytes 4 code.code) = some code) (hrecv : recvPlain 4 pieces = (got, pieces'))
    (hcode : got ++ protocol.drop got.length = leBytes 4 code.code) :
    ronda s u seguir protocol pieces = (do
      let (d, rest) ← s.receive u pieces'.flatten code
      let ds ← seguir (leBytes 4 code.code)
        (dropPieces (pieces'.flatten.length - rest.length) pieces')
      some ((code, d) :: ds)) := by
  simp only [ronda, hrecv, hcode, hcaso]

/-- A frame whose code is not cut goes to its case. -/
theorem rondas_frame (u : ℕ → Uninit) {fuel : ℕ} {protocol : Bytes} (hold : protocol.length = 4)
    {pieces : List Bytes} (hne : ∀ p ∈ pieces, p ≠ []) (m : Mensaje s) {rest : Bytes}
    (hflat : pieces.flatten = m.frame ++ rest)
    (hcut : ∀ c, Cut pieces c → ¬ (0 < c ∧ c < 4)) :
    (m.llega (u fuel) → rondas s u (fuel + 1) protocol pieces
      = (rondas s u fuel (leBytes 4 m.protocol.code) (dropPieces (m.frame.length - 4)
        (dropPieces 4 pieces))).map (m.par :: ·)) ∧
      (¬ m.llega (u fuel) → rondas s u (fuel + 1) protocol pieces = none) := by
  cases pieces with
  | nil =>
      have hlen := congrArg List.length hflat
      simp [Mensaje.frame] at hlen
      omega
  | cons p ps =>
      have hfour := le_length_head (hne p List.mem_cons_self) hcut
      have htake : p.take 4 = leBytes 4 m.protocol.code := by
        have hprefix := congrArg (List.take 4) hflat
        rw [List.flatten_cons, List.take_append_of_le_length hfour, Mensaje.frame, frameOf,
          List.append_assoc, List.append_assoc, List.take_left' (length_leBytes _ _)] at hprefix
        exact hprefix
      have hrest : (dropPieces 4 (p :: ps)).flatten
          = lengthBytes (encodeParts m.parts).length ++ encodeParts m.parts ++ rest := by
        rw [flatten_dropPieces, hflat, Mensaje.frame, frameOf, List.append_assoc,
          List.append_assoc, List.drop_left' (length_leBytes _ _), List.append_assoc]
      have hrecv : recvPlain 4 (p :: ps)
          = (leBytes 4 m.protocol.code, dropPieces 4 (p :: ps)) := by
        simp only [recvPlain, htake, length_leBytes]
      have hcode : leBytes 4 m.protocol.code
          ++ protocol.drop (leBytes 4 m.protocol.code).length = leBytes 4 m.protocol.code := by
        simp [hold]
      rw [rondas_succ, ronda_code (u fuel) m.caso hrecv hcode, hrest]
      constructor
      · intro hllega
        have hlen : (lengthBytes (encodeParts m.parts).length ++ encodeParts m.parts ++
            rest).length - rest.length = m.frame.length - 4 := by
          simp [Mensaje.frame]
          omega
        simp only [m.recibe _ rest hllega, Option.bind_eq_bind, Option.bind_some, hlen]
        cases rondas s u fuel (leBytes 4 m.protocol.code) (dropPieces (m.frame.length - 4)
          (dropPieces 4 (p :: ps))) <;> rfl
      · intro hno
        rw [m.seCae _ rest hno]
        rfl

/-- A frame whose code is cut is not received, when the bytes of `protocol` that the short
`recv` leaves are zeros. -/
theorem rondas_cut (u : ℕ → Uninit) {fuel n : ℕ} (hn : n < 256) {pieces : List Bytes}
    (hne : ∀ p ∈ pieces, p ≠ []) (m : Mensaje s) {rest : Bytes}
    (hflat : pieces.flatten = m.frame ++ rest) {c : ℕ} (hcut : Cut pieces c) (hpos : 0 < c)
    (hlt : c < 4) : rondas s u (fuel + 1) (leBytes 4 n) pieces = none := by
  cases pieces with
  | nil =>
      have hlen := congrArg List.length hflat
      simp [Mensaje.frame] at hlen
      omega
  | cons p ps =>
      have hk := List.length_pos_iff.2 (hne p List.mem_cons_self)
      have hk' := length_head_lt hcut hpos hlt
      have hcode : m.protocol.code < 256 := lt_trans m.protocol.code_lt (by decide)
      have htake : p.take 4 = (leBytes 4 m.protocol.code).take p.length := by
        have hprefix := congrArg (List.take p.length) hflat
        rw [List.flatten_cons, List.take_left, Mensaje.frame, frameOf, List.append_assoc,
          List.append_assoc, List.take_append_of_le_length (by simp; omega)] at hprefix
        rw [List.take_of_length_le (by omega)]
        exact hprefix
      have hlen : ((leBytes 4 m.protocol.code).take p.length).length = p.length := by
        simp
        omega
      have hrecv : recvPlain 4 (p :: ps)
          = ((leBytes 4 m.protocol.code).take p.length, dropPieces p.length (p :: ps)) := by
        simp only [recvPlain, htake, hlen]
      rw [rondas_succ, ronda_code (u fuel) m.caso hrecv]
      · cases hr : s.receive (u fuel) (dropPieces p.length (p :: ps)).flatten m.protocol with
        | none => rfl
        | some r =>
            exfalso
            obtain ⟨p₀, qs, hparts, hp₀⟩ := m.primero
            obtain ⟨list, rest', hpack, b, hb, hshort⟩ := s.primero m.caso hr
            rw [flatten_dropPieces, hflat, Mensaje.frame, frameOf, hparts] at hpack
            have hlong := receive_shifted _ hcode hk hk' hp₀ rest hpack hb
            omega
      · rw [hlen, drop_code hn hk (by omega), ← drop_code hcode hk (by omega)]
        exact List.take_append_drop _ _

/-! ## The whole stream -/

theorem rondas_nil (u : ℕ → Uninit) (fuel : ℕ) (protocol : Bytes) :
    rondas s u fuel protocol [] = some [] := by
  cases fuel <;> rfl

theorem rondas_of_enteros {u : ℕ → Uninit} {fuel : ℕ} {protocol : Bytes}
    (hold : protocol.length = 4) {pieces : List Bytes} (hne : ∀ p ∈ pieces, p ≠ [])
    (ms : List (Mensaje s)) (hllegan : ∀ m ∈ ms, ∀ n, m.llega (u n))
    (hflat : pieces.flatten = ms.flatMap Mensaje.frame) (hfuel : ms.length ≤ fuel)
    (hcodes : CodigosEnteros (ms.map Mensaje.frame) pieces) :
    rondas s u fuel protocol pieces = some (ms.map Mensaje.par) := by
  induction ms generalizing fuel protocol pieces with
  | nil =>
      rw [eq_nil_of_flatten_nil hne hflat]
      exact rondas_nil u fuel protocol
  | cons m ms ih =>
      obtain ⟨fuel, rfl⟩ : ∃ f, fuel = f + 1 := ⟨fuel - 1, by simp at hfuel; omega⟩
      rw [List.map_cons, codigosEnteros_cons] at hcodes
      have hrest : (dropPieces m.frame.length pieces).flatten = ms.flatMap Mensaje.frame := by
        rw [flatten_dropPieces, hflat, List.flatMap_cons, List.drop_left]
      rw [(rondas_frame u hold hne m hflat hcodes.1).1 (hllegan m List.mem_cons_self fuel),
        dropPieces_dropPieces, m.four_add, ih (length_leBytes _ _)
          (ne_nil_of_mem_dropPieces hne) (fun x hx => hllegan x (List.mem_cons_of_mem m hx)) hrest
          (by simpa using hfuel) hcodes.2]
      rfl

/-- What a zeroed `protocol` dispatches shows whether a code was cut, and that each message
found memory that lets it in. -/
theorem codigosEnteros_of_rondas {u : ℕ → Uninit} {fuel n : ℕ} (hn : n < 256)
    {pieces : List Bytes} (hne : ∀ p ∈ pieces, p ≠ []) (ms : List (Mensaje s))
    (hflat : pieces.flatten = ms.flatMap Mensaje.frame) (hfuel : ms.length ≤ fuel)
    (h : rondas s u fuel (leBytes 4 n) pieces = some (ms.map Mensaje.par)) :
    CodigosEnteros (ms.map Mensaje.frame) pieces ∧ ∀ m ∈ ms, ∃ k, m.llega (u k) := by
  induction ms generalizing fuel n pieces with
  | nil => exact ⟨codigosEnteros_nil pieces, fun m hm => absurd hm List.not_mem_nil⟩
  | cons m ms ih =>
      obtain ⟨fuel, rfl⟩ : ∃ f, fuel = f + 1 := ⟨fuel - 1, by simp at hfuel; omega⟩
      have hcut : ∀ c, Cut pieces c → ¬ (0 < c ∧ c < 4) := by
        rintro c hc ⟨hpos, hlt⟩
        rw [rondas_cut u hn hne m hflat hc hpos hlt] at h
        cases h
      have hframe : (m.llega (u fuel) → _) ∧ (¬ m.llega (u fuel) → _) :=
        rondas_frame u (length_leBytes 4 n) hne m hflat hcut
      have hllega : m.llega (u fuel) := by
        by_contra hno
        rw [hframe.2 hno] at h
        cases h
      rw [hframe.1 hllega, dropPieces_dropPieces, m.four_add] at h
      obtain ⟨ds, hds, heq⟩ := Option.map_eq_some_iff.1 h
      obtain rfl : ds = ms.map Mensaje.par := (List.cons.inj heq).2
      have hrest : (dropPieces m.frame.length pieces).flatten = ms.flatMap Mensaje.frame := by
        rw [flatten_dropPieces, hflat, List.flatMap_cons, List.drop_left]
      have hcode : m.protocol.code < 256 := lt_trans m.protocol.code_lt (by decide)
      obtain ⟨hcodes, hllegan⟩ :=
        ih hcode (ne_nil_of_mem_dropPieces hne) hrest (by simpa using hfuel) hds
      rw [List.map_cons, codigosEnteros_cons]
      refine ⟨⟨hcut, hcodes⟩, fun x hx => ?_⟩
      rcases List.mem_cons.1 hx with rfl | hx
      · exact ⟨fuel, hllega⟩
      · exact hllegan x hx

theorem length_le_flatMap_frame (ms : List (Mensaje s)) :
    ms.length ≤ (ms.flatMap Mensaje.frame).length := by
  induction ms with
  | nil => simp
  | cons m ms ih =>
      have := m.four_add
      simp only [List.flatMap_cons, List.length_append, List.length_cons]
      omega

/-- A stream in one piece cuts no code. -/
theorem codigosEnteros_uncut (ms : List (Mensaje s)) :
    CodigosEnteros (ms.map Mensaje.frame) [ms.flatMap Mensaje.frame] := by
  intro pre f post c hfs hcut hc
  obtain ⟨m, -, rfl⟩ : ∃ m ∈ ms, m.frame = f := List.mem_map.1 (by rw [hfs]; simp)
  have hlen : (ms.flatMap Mensaje.frame).length
      = pre.flatten.length + (m.frame.length + post.flatten.length) := by
    rw [List.flatMap_def, hfs]
    simp
  have hm := m.four_add
  rcases cut_cons.1 hcut with rfl | ⟨c', -, rfl⟩
  · omega
  · omega

/-- Where memory lets the messages in, a cut stream of them is dispatched whole if and only if no
operation code is cut. -/
theorem despacho_iff {pieces : List Bytes} (hne : ∀ p ∈ pieces, p ≠ []) (ms : List (Mensaje s))
    (hflat : pieces.flatten = ms.flatMap Mensaje.frame) {u : ℕ → Uninit}
    (hllegan : ∀ m ∈ ms, ∀ n, m.llega (u n)) :
    (∀ protocol, protocol.length = 4 →
        despacho s u protocol pieces = some (ms.map Mensaje.par)) ↔
      CodigosEnteros (ms.map Mensaje.frame) pieces := by
  have hfuel : ms.length ≤ pieces.flatten.length := hflat ▸ length_le_flatMap_frame ms
  constructor
  · intro h
    exact (codigosEnteros_of_rondas (Nat.zero_lt_succ 255) hne ms hflat hfuel
      (h (leBytes 4 0) (length_leBytes 4 0))).1
  · intro hcodes protocol hold
    exact rondas_of_enteros hold hne ms hllegan hflat hfuel hcodes

/-- Whatever uninitialised memory holds, it is if and only if no operation code is cut and memory
lets the messages in whatever it holds. -/
theorem despacho_siempre_iff {pieces : List Bytes} (hne : ∀ p ∈ pieces, p ≠ [])
    (ms : List (Mensaje s)) (hflat : pieces.flatten = ms.flatMap Mensaje.frame) :
    (∀ u protocol, protocol.length = 4 →
        despacho s u protocol pieces = some (ms.map Mensaje.par)) ↔
      CodigosEnteros (ms.map Mensaje.frame) pieces ∧ ∀ m ∈ ms, ∀ v, m.llega v := by
  have hfuel : ms.length ≤ pieces.flatten.length := hflat ▸ length_le_flatMap_frame ms
  have hinv := fun v (h : ∀ u protocol, protocol.length = 4 →
      despacho s u protocol pieces = some (ms.map Mensaje.par)) =>
    codigosEnteros_of_rondas (Nat.zero_lt_succ 255) hne ms hflat hfuel
      (h (fun _ => v) (leBytes 4 0) (length_leBytes 4 0))
  constructor
  · intro h
    refine ⟨(hinv ⟨0, fun _ => 0⟩ h).1, fun m hm v => ?_⟩
    obtain ⟨-, hllega⟩ := (hinv v h).2 m hm
    exact hllega
  · rintro ⟨hcodes, hllegan⟩ u protocol hold
    exact rondas_of_enteros hold hne ms (fun m hm n => hllegan m hm (u n)) hflat hfuel hcodes

end Rondas

/-! ## The two servers -/

theorem getUInt32_eq_some {u : Uninit} {list : List TBuffer} {i : ℕ} {x : UInt32}
    (h : getUInt32 u list i = some x) : ∃ b, list[i]? = some b ∧ b.stream.length ≤ 4 := by
  simp only [getUInt32, utilsGetFromListTo, Option.bind_eq_bind, Option.map_eq_some_iff,
    Option.bind_eq_some_iff] at h
  obtain ⟨bs, ⟨b, hb, hbs⟩, -⟩ := h
  refine ⟨b, hb, ?_⟩
  by_contra hlong
  simp [hlong] at hbs

theorem getInt32_eq_some {u : Uninit} {list : List TBuffer} {i : ℕ} {x : Int32}
    (h : getInt32 u list i = some x) : ∃ b, list[i]? = some b ∧ b.stream.length ≤ 4 := by
  obtain ⟨y, hy, -⟩ := Option.map_eq_some_iff.1 h
  exact getUInt32_eq_some hy

/-- The requests of the memory protocol: the cases of `muse_server_init` that receive a
message. -/
def TProtocol.esPedido : TProtocol → Bool
  | .malloc | .memfree | .get | .copy => true
  | _ => false

/-- The case of a `switch` over the operation codes in `f` that the bytes of `protocol`
select. -/
def casoDe (f : TProtocol → Bool) (bytes : Bytes) : Option TProtocol :=
  (TProtocol.ofInt (intOfBytes bytes)).filter f

theorem casoDe_code {f : TProtocol → Bool} {code : TProtocol} (h : f code = true) :
    casoDe f (leBytes 4 code.code) = some code := by
  rw [casoDe, intOfBytes_code, TProtocol.ofInt_code, Option.filter_some, if_pos h]

theorem of_casoDe {f : TProtocol → Bool} {bytes : Bytes} {code : TProtocol}
    (h : casoDe f bytes = some code) : f code = true :=
  (Option.filter_eq_some_iff.1 h).2

theorem deserialize_primero {u : Uninit} {stream : Bytes} {code : TProtocol}
    (hcode : code.esPedido = true) {r : Option Package × Bytes}
    (h : utilsReceiveAndDeserialize u stream code = some r) :
    ∃ list rest', utilsReceivePackage u stream = some (list, rest') ∧
      ∃ b, list[0]? = some b ∧ b.stream.length ≤ 4 := by
  cases code with
  | malloc =>
      simp only [utilsReceiveAndDeserialize, Option.bind_eq_bind, Option.bind_eq_some_iff] at h
      obtain ⟨⟨list, rest⟩, hpack, -, -, x, hx, -⟩ := h
      exact ⟨list, rest, hpack, getUInt32_eq_some hx⟩
  | memfree | get | copy =>
      simp only [utilsReceiveAndDeserialize, Option.bind_eq_bind, Option.bind_eq_some_iff] at h
      obtain ⟨⟨list, rest⟩, hpack, x, hx, -⟩ := h
      exact ⟨list, rest, hpack, getUInt32_eq_some hx⟩
  | _ => exact absurd hcode (by decide)

/-- The loop of `muse_server_init`; the other cases of its `switch` receive nothing. -/
def museReceptor : Receptor Package where
  codigo := casoDe TProtocol.esPedido
  receive u stream code := (utilsReceiveAndDeserialize u stream code).bind fun r =>
    r.1.map fun package => (package, r.2)
  primero := by
    intro bytes u stream code d rest hcode h
    obtain ⟨r, hr, -⟩ := Option.bind_eq_some_iff.1 h
    exact deserialize_primero (of_casoDe hcode) hr

/-- The loop of `handle_connection`, in a program with some allocations.  The decoded message is
the id and the bytes copied to where `pathname` points. -/
def sacReceptor (reservas : List Reserva) : Receptor (Int32 × Bytes) where
  codigo := casoDe TProtocol.isPathRequest
  receive u stream _ := (receivePathRequest u stream).bind fun r =>
    (copyToPathname reservas r.1).map fun path => ((path.idSacCli, path.copiado), r.2)
  primero := by
    intro bytes u stream code d rest _ h
    obtain ⟨r, hr, -⟩ := Option.bind_eq_some_iff.1 h
    simp only [receivePathRequest, Option.bind_eq_bind, Option.bind_eq_some_iff] at hr
    obtain ⟨⟨list, rest'⟩, hpack, x, hx, -⟩ := hr
    exact ⟨list, rest', hpack, getInt32_eq_some hx⟩

/-- A request to the memory server that can be sent: with its header it fits an `int`. -/
structure Pedido where
  message : Message
  esPedido : message.protocol.esPedido = true
  cabe : message.body.length + 8 < 2147483648

/-- The request as the loop of the memory server receives it. -/
def Pedido.mensaje (p : Pedido) : Mensaje museReceptor where
  protocol := p.message.protocol
  parts := p.message.parts
  decodificado := p.message.package
  llega _ := True
  caso := by
    simp only [museReceptor]
    exact casoDe_code p.esPedido
  primero := by
    obtain ⟨m, hm, -⟩ := p
    cases m with
    | malloc | memfree | get | copy => exact ⟨_, _, rfl, by simp⟩
    | mallocOk | freeResponse | getOk => simp [Message.protocol, TProtocol.esPedido] at hm
  seCae _ _ hno := absurd trivial hno
  recibe := by
    intro u rest _
    have hrec := receive_frame u p.message rest (by have := p.cabe; omega)
    rw [Message.body_eq] at hrec
    simp only [museReceptor, hrec, Option.bind_some, Option.map_some]

/-- A request to the file system server that can be sent: the id, and the bytes that its case
sends in place of the path. -/
structure PedidoRuta where
  protocol : TProtocol
  idSacCli : Int32
  value : Bytes
  isPath : protocol.isPathRequest = true
  cabe : (encodeParts [intBytes idSacCli, value]).length + 8 < 2147483648

/-- The first eight bytes of the struct that a request is received in are the address of an
allocation with room for its path. -/
def PedidoRuta.Apunta (p : PedidoRuta) (reservas : List Reserva) (u : Uninit) : Prop :=
  ∃ a ∈ reservas,
    a.Contiene (UInt64.ofNat (ofLeBytes ((List.range 8).map u.heap))).toNat p.value.length

/-- The request as the loop of the file system server receives it. -/
def PedidoRuta.mensaje (p : PedidoRuta) (reservas : List Reserva) : Mensaje (sacReceptor reservas) where
  protocol := p.protocol
  parts := [intBytes p.idSacCli, p.value]
  decodificado := (p.idSacCli, p.value)
  llega := p.Apunta reservas
  caso := by
    simp only [sacReceptor]
    exact casoDe_code p.isPath
  primero := ⟨_, _, rfl, by simp⟩
  recibe := by
    intro u rest hapunta
    have hrec := receivePathRequest_frame u p.idSacCli p.value rest (by have := p.cabe; omega)
    unfold PedidoRuta.Apunta at hapunta
    simp only [sacReceptor, hrec, Option.bind_some, copyToPathname, if_pos hapunta,
      Option.map_some]
  seCae := by
    intro u rest hno
    have hrec := receivePathRequest_frame u p.idSacCli p.value rest (by have := p.cabe; omega)
    unfold PedidoRuta.Apunta at hno
    simp only [sacReceptor, hrec, Option.bind_some, copyToPathname, if_neg hno, Option.map_none]

/-- In memory full of zeros the pointer is `NULL`. -/
theorem PedidoRuta.not_apunta (p : PedidoRuta) {reservas : List Reserva}
    (hres : ∀ a ∈ reservas, 0 < a.dir) : ¬ p.Apunta reservas ⟨0, fun _ => 0⟩ := by
  rintro ⟨a, ha, hle, -⟩
  have hpos := hres a ha
  have hnull : (UInt64.ofNat (ofLeBytes ((List.range 8).map fun _ => (0 : UInt8)))).toNat = 0 := by
    decide
  dsimp only at hle
  omega

/-- Whatever a path case puts on the socket is such a request. -/
theorem PedidoRuta.of_send {u : Uninit} {protocol : TProtocol} {p : TPathRequest} {bytes : Bytes}
    (hpath : protocol.isPathRequest = true)
    (h : utilsSerializeAndSend u protocol (.path p) = some bytes) :
    ∃ q : PedidoRuta, q.protocol = protocol ∧ q.idSacCli = p.idSacCli ∧
      ∀ reservas, (q.mensaje reservas).frame = bytes := by
  obtain ⟨hfits, rfl⟩ := send_path_eq_some hpath h
  exact ⟨⟨protocol, p.idSacCli, _, hpath, hfits⟩, rfl, rfl, fun _ => rfl⟩

@[simp] theorem Pedido.par_mensaje (p : Pedido) :
    p.mensaje.par = (p.message.protocol, p.message.package) := rfl

@[simp] theorem PedidoRuta.par_mensaje (p : PedidoRuta) (reservas : List Reserva) :
    (p.mensaje reservas).par = (p.protocol, p.idSacCli, p.value) := rfl

/-- The two servers. -/
inductive Servidor
  | muse | sac
  deriving DecidableEq, Repr

namespace Servidor

/-- What the server decodes a message to. -/
def Decodificado : Servidor → Type
  | muse => Package
  | sac => Int32 × Bytes

/-- The receive loop of the server, in a program with some allocations. -/
def receptor (reservas : List Reserva) : (s : Servidor) → Receptor s.Decodificado
  | muse => museReceptor
  | sac => sacReceptor reservas

/-- The messages that the clients of the server send. -/
def Cliente : Servidor → Type
  | muse => Pedido
  | sac => PedidoRuta

/-- The message as the loop receives it. -/
def mensaje (reservas : List Reserva) : (s : Servidor) → s.Cliente → Mensaje (s.receptor reservas)
  | muse, p => p.mensaje
  | sac, p => p.mensaje reservas

/-- What a server dispatches whatever uninitialised memory holds: the memory server the messages
of which no code is cut, the file system server none. -/
def Despacha : (s : Servidor) → List s.Cliente → List Bytes → Prop
  | muse, ms, pieces => CodigosEnteros (ms.map fun m => m.mensaje.frame) pieces
  | sac, ms, _ => ms = []

end Servidor

/-- **Segmentation.**  Of a stream of complete messages, cut into non-empty pieces, the memory
server dispatches exactly the messages, whatever uninitialised memory holds, if and only if no
piece ends inside an operation code, and the file system server if and only if there are none.
Where memory lets the messages in, either does if and only if no piece ends inside a code. -/
theorem dispatch_iff_codes_whole (s : Servidor) (reservas : List Reserva)
    (hres : ∀ a ∈ reservas, 0 < a.dir) (ms : List s.Cliente) {pieces : List Bytes}
    (hne : ∀ p ∈ pieces, p ≠ [])
    (hflat : pieces.flatten = ms.flatMap fun m => (s.mensaje reservas m).frame) :
    ((∀ u protocol, protocol.length = 4 → despacho (s.receptor reservas) u protocol pieces
        = some (ms.map fun m => (s.mensaje reservas m).par)) ↔ s.Despacha ms pieces) ∧
      ∀ u : ℕ → Uninit, (∀ m ∈ ms, ∀ n, (s.mensaje reservas m).llega (u n)) →
        ((∀ protocol, protocol.length = 4 → despacho (s.receptor reservas) u protocol pieces
            = some (ms.map fun m => (s.mensaje reservas m).par)) ↔
          CodigosEnteros (ms.map fun m => (s.mensaje reservas m).frame) pieces) := by
  have hms : pieces.flatten = (ms.map (s.mensaje reservas)).flatMap Mensaje.frame := by
    rw [hflat, List.flatMap_map]
  constructor
  · have h := despacho_siempre_iff hne (ms.map (s.mensaje reservas)) hms
    rw [List.map_map, List.map_map] at h
    refine h.trans ?_
    cases s with
    | muse =>
        refine and_iff_left fun m hm v => ?_
        obtain ⟨p, -, rfl⟩ := List.mem_map.1 hm
        trivial
    | sac =>
        constructor
        · rintro ⟨-, hllegan⟩
          cases ms with
          | nil => rfl
          | cons p ms => exact absurd (hllegan _ List.mem_cons_self _) (p.not_apunta hres)
        · rintro rfl
          exact ⟨codigosEnteros_nil pieces, fun m hm => absurd hm List.not_mem_nil⟩
  · intro u hllegan
    have hms' : ∀ m ∈ ms.map (s.mensaje reservas), ∀ n, m.llega (u n) := by
      intro m hm n
      obtain ⟨p, hp, rfl⟩ := List.mem_map.1 hm
      exact hllegan p hp n
    have h := despacho_iff hne (ms.map (s.mensaje reservas)) hms hms'
    rw [List.map_map, List.map_map] at h
    exact h

/-- A `MALLOC` of 8 bytes. -/
def pedidoMalloc : Pedido where
  message := .malloc ⟨8, 1⟩
  esPedido := rfl
  cabe := by decide

/-- In one piece it is dispatched. -/
theorem dispatch_iff_codes_whole_malloc :
    despacho museReceptor (fun _ => ⟨0, fun _ => 0⟩) (leBytes 4 0) [pedidoMalloc.mensaje.frame]
      = some [(.malloc, .malloc ⟨8, 1⟩)] :=
  ((dispatch_iff_codes_whole .muse [⟨4096, 64⟩] (by decide) [pedidoMalloc] (by decide)
    (List.append_nil _)).1.2 (codigosEnteros_uncut [pedidoMalloc.mensaje])) _ _ (length_leBytes 4 0)

/-- Cut after its first byte it is not. -/
theorem malloc_cut :
    [[1], pedidoMalloc.mensaje.frame.drop 1].flatten = pedidoMalloc.mensaje.frame ∧
      despacho museReceptor (fun _ => ⟨0, fun _ => 0⟩) (leBytes 4 0)
        [[1], pedidoMalloc.mensaje.frame.drop 1] = none := by
  have hflat : [[1], pedidoMalloc.mensaje.frame.drop 1].flatten = pedidoMalloc.mensaje.frame := by
    decide
  refine ⟨hflat, ?_⟩
  have hcut : Cut [[1], pedidoMalloc.mensaje.frame.drop 1] 1 := ⟨[[1]], _, rfl, rfl⟩
  have hlen : [[1], pedidoMalloc.mensaje.frame.drop 1].flatten.length = 23 + 1 := by decide
  rw [despacho, hlen]
  exact rondas_cut _ (Nat.zero_lt_succ 255) (by decide) pedidoMalloc.mensaje
    (hflat.trans (List.append_nil _).symm) hcut Nat.one_pos (by decide)

end Threaders.Common
