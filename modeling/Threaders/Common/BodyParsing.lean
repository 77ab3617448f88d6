import Threaders.Common.RoundTrip

/-!
# Bodies that no sender wrote

Nothing stands between the socket and the loop of `utils_receive_package`: its guard looks at
where a part starts and not at the length read there.  A body is read to its end when each
length, from the first one on, leaves its part inside; the loop has no other way out, since it
refuses nothing.

## Main definitions

* `BodyParsed` — the body is taken apart, and its parts make it up again.
* `LengthsLeadOut` — the lengths followed from an offset end in one that is not there whole, is
  negative, or is too long.
-/

namespace Threaders.Common

open Lib

/-- The bytes of a received part as a sender lays them out. -/
def TBuffer.encode (part : TBuffer) : Bytes := lengthBytes part.size ++ part.stream

/-- A body of `n` bytes is received in parts with lengths that are not negative, and the parts
put together again are the body.  The bytes behind it are left on the stream. -/
def BodyParsed (u : Uninit) (n : Int32) (body rest : Bytes) : Prop :=
  ∃ valores, utilsReceivePackage u (intBytes n ++ body ++ rest) = some (valores, rest) ∧
    (∀ part ∈ valores, 0 ≤ part.size ∧ part.size = part.stream.length) ∧
    valores.flatMap TBuffer.encode = body

/-- The length that stands at an offset of a body. -/
def lengthAt (body : Bytes) (offset : ℕ) : ℤ := intOfBytes ((body.drop offset).take 4)

/-- From an offset on, the lengths of a body lead to one that the body cuts off, that is
negative, or that is greater than what is left of the body. -/
inductive LengthsLeadOut (body : Bytes) : ℕ → Prop
  | cut {offset : ℕ} (hlt : offset < body.length) (hcut : body.length < offset + 4) :
      LengthsLeadOut body offset
  | negative {offset : ℕ} {n : ℤ} (hlength : offset + 4 ≤ body.length)
      (hn : lengthAt body offset = n) (hneg : n < 0) : LengthsLeadOut body offset
  | long {offset n : ℕ} (hlength : offset + 4 ≤ body.length) (hn : lengthAt body offset = n)
      (hlong : body.length < offset + 4 + n) : LengthsLeadOut body offset
  | next {offset n : ℕ} (hlength : offset + 4 ≤ body.length) (hn : lengthAt body offset = n)
      (hout : LengthsLeadOut body (offset + 4 + n)) : LengthsLeadOut body offset

/-! ## The loop -/

section Parts
variable {body : Bytes} {offset : ℕ}

theorem memcpyFrom_none {n : ℤ} (h : n < 0 ∨ (body.length : ℤ) < offset + n) :
    memcpyFrom body offset n = none := by
  rw [memcpyFrom, if_neg (by omega)]

theorem memcpyFrom_some {n : ℕ} (h : offset + n ≤ body.length) :
    memcpyFrom body offset n = some ((body.drop offset).take n) := by
  rw [memcpyFrom, if_pos (by omega), Int.toNat_natCast]

/-- The first step of a round reads the length that stands at its offset. -/
theorem memcpyFrom_length (h : offset + 4 ≤ body.length) :
    (memcpyFrom body offset 4).map intOfBytes = some (lengthAt body offset) := by
  have hread := memcpyFrom_some h
  rw [Nat.cast_ofNat] at hread
  rw [hread, Option.map_some, lengthAt]

theorem receiveParts_end (h : body.length ≤ offset) : receiveParts body offset = some [] := by
  rw [receiveParts, if_neg (by omega)]

/-- A length that the body cuts off is read from behind it. -/
theorem receiveParts_cut (hlt : offset < body.length) (hcut : body.length < offset + 4) :
    receiveParts body offset = none := by
  rw [receiveParts, if_pos hlt, memcpyFrom_none (Or.inr (by omega))]
  rfl

/-- A part with a negative length, or one that goes on behind the body, is copied from behind
it. -/
theorem receiveParts_outside {n : ℤ} (hlength : offset + 4 ≤ body.length)
    (hn : lengthAt body offset = n) (h : n < 0 ∨ body.length < offset + 4 + n) :
    receiveParts body offset = none := by
  have hpart : memcpyFrom body (offset + 4) n = none := by
    apply memcpyFrom_none
    omega
  rw [receiveParts, if_pos (by omega), memcpyFrom_length hlength, hn]
  simp only [Option.bind_eq_bind, Option.bind_some, hpart, Option.bind_none]

/-- A part that lies in the body is one element of the list. -/
theorem receiveParts_part {n : ℕ} (hlength : offset + 4 ≤ body.length)
    (hn : lengthAt body offset = n) (hfits : offset + 4 + n ≤ body.length) :
    receiveParts body offset = (receiveParts body (offset + 4 + n)).map
      (⟨n, (body.drop (offset + 4)).take n⟩ :: ·) := by
  rw [receiveParts, if_pos (by omega), memcpyFrom_length hlength, hn]
  simp only [Option.bind_eq_bind, Option.bind_some, memcpyFrom_some hfits, Int.toNat_natCast]
  cases receiveParts body (offset + 4 + n) <;> rfl

/-- Induction along the parts of a body, with the ways a round can go as its cases. -/
theorem parts_induction (body : Bytes) {P : ℕ → Prop}
    (last : ∀ offset, body.length ≤ offset → P offset)
    (cut : ∀ offset, offset < body.length → body.length < offset + 4 → P offset)
    (outside : ∀ offset (n : ℤ), offset + 4 ≤ body.length → lengthAt body offset = n →
      n < 0 ∨ body.length < offset + 4 + n → P offset)
    (part : ∀ offset (n : ℕ), offset + 4 ≤ body.length → lengthAt body offset = n →
      offset + 4 + n ≤ body.length → P (offset + 4 + n) → P offset) (offset : ℕ) : P offset := by
  -- Less of the body is left in each round.
  induction hleft : body.length - offset using Nat.strong_induction_on generalizing offset with
  | _ left ih =>
      by_cases hend : body.length ≤ offset
      · exact last offset hend
      · by_cases hcut : body.length < offset + 4
        · exact cut offset (by omega) hcut
        · obtain ⟨n, hn⟩ : ∃ n, lengthAt body offset = n := ⟨_, rfl⟩
          by_cases hout : n < 0 ∨ body.length < offset + 4 + n
          · exact outside offset n (by omega) hn hout
          · obtain ⟨k, rfl⟩ : ∃ k : ℕ, n = k := ⟨n.toNat, by omega⟩
            exact part offset k (by omega) hn (by omega) (ih _ (by omega) _ rfl)

/-- The loop reads outside the body where the lengths lead out of it, and only there. -/
theorem receiveParts_eq_none_iff :
    receiveParts body offset = none ↔ LengthsLeadOut body offset := by
  constructor
  · induction offset using parts_induction body with
    | last offset hend =>
        intro h
        rw [receiveParts_end hend] at h
        cases h
    | cut offset hlt hcut =>
        intro _
        exact .cut hlt hcut
    | outside offset n hlength hn hout =>
        intro _
        rcases lt_or_ge n 0 with hneg | hnonneg
        · exact .negative hlength hn hneg
        · obtain ⟨k, rfl⟩ : ∃ k : ℕ, n = k := ⟨n.toNat, by omega⟩
          exact .long hlength hn (by omega)
    | part offset n hlength hn hfits ih =>
        intro h
        rw [receiveParts_part hlength hn hfits, Option.map_eq_none_iff] at h
        exact .next hlength hn (ih h)
  · intro h
    induction h with
    | cut hlt hcut => exact receiveParts_cut hlt hcut
    | negative hlength hn hneg => exact receiveParts_outside hlength hn (Or.inl hneg)
    | long hlength hn hlong => exact receiveParts_outside hlength hn (Or.inr (by omega))
    | @next offset n hlength hn hout ih =>
        rcases Nat.lt_or_ge body.length (offset + 4 + n) with hlong | hfits
        · exact receiveParts_outside hlength hn (Or.inr (by omega))
        · rw [receiveParts_part hlength hn hfits, ih, Option.map_none]

/-- A length put back into bytes is the bytes it was read from. -/
theorem lengthBytes_lengthAt (hlength : offset + 4 ≤ body.length) :
    lengthBytes (lengthAt body offset) = (body.drop offset).take 4 := by
  have hlen : ((body.drop offset).take 4).length = 4 := by
    rw [List.length_take, List.length_drop]
    omega
  have hlt := ofLeBytes_lt ((body.drop offset).take 4)
  rw [hlen] at hlt
  have hle := leBytes_ofLeBytes hlen
  rw [lengthAt, intOfBytes, lengthBytes, toU32_toI32]
  generalize ofLeBytes ((body.drop offset).take 4) = x at hlt hle ⊢
  rw [toU32_of_mem (by omega) (by omega), Int.toNat_natCast, hle]

/-- What the loop returns makes up the rest of the body. -/
theorem receiveParts_encode {valores : List TBuffer}
    (h : receiveParts body offset = some valores) :
    (∀ part ∈ valores, 0 ≤ part.size ∧ part.size = part.stream.length) ∧
      valores.flatMap TBuffer.encode = body.drop offset := by
  induction offset using parts_induction body generalizing valores with
  | last offset hend =>
      rw [receiveParts_end hend] at h
      obtain rfl := Option.some.inj h
      exact ⟨by simp, by rw [List.drop_of_length_le hend]; rfl⟩
  | cut offset hlt hcut =>
      rw [receiveParts_cut hlt hcut] at h
      cases h
  | outside offset n hlength hn hout =>
      rw [receiveParts_outside hlength hn hout] at h
      cases h
  | part offset n hlength hn hfits ih =>
      rw [receiveParts_part hlength hn hfits, Option.map_eq_some_iff] at h
      obtain ⟨rest, hrest, rfl⟩ := h
      obtain ⟨hsizes, hencode⟩ := ih hrest
      have hbytes := lengthBytes_lengthAt hlength
      rw [hn] at hbytes
      have hstream : ((body.drop (offset + 4)).take n).length = n := by
        rw [List.length_take, List.length_drop]
        omega
      constructor
      · intro part hpart
        rcases List.mem_cons.mp hpart with rfl | hpart
        · exact ⟨Int.natCast_nonneg n, by rw [hstream]⟩
        · exact hsizes part hpart
      · rw [List.flatMap_cons, hencode, TBuffer.encode, hbytes, List.append_assoc,
          ← List.drop_drop (i := n), List.take_append_drop, ← List.drop_drop (i := 4),
          List.take_append_drop]

end Parts

/-! ## Whole bodies -/

theorem intOfBytes_intBytes (n : Int32) : intOfBytes (intBytes n) = n.toInt := by
  have hlt : n.toUInt32.toNat < 256 ^ 4 := n.toUInt32.toNat_lt
  rw [intOfBytes, intBytes, ofLeBytes_leBytes_of_lt hlt, toI32_toUInt32]

/-- The bodies whose lengths stay inside are those the senders lay out. -/
theorem not_lengthsLeadOut_iff (body : Bytes) (h : body.length < 2147483648) :
    ¬ LengthsLeadOut body 0 ↔ ∃ ps, body = encodeParts ps := by
  rw [← receiveParts_eq_none_iff]
  constructor
  · intro hin
    obtain ⟨valores, hvalores⟩ := Option.ne_none_iff_exists'.mp hin
    obtain ⟨hsizes, hencode⟩ := receiveParts_encode hvalores
    refine ⟨valores.map TBuffer.stream, ?_⟩
    rw [List.drop_zero] at hencode
    have hparts : ∀ part ∈ valores,
        part.encode = lengthBytes part.stream.length ++ part.stream := by
      intro part hpart
      rw [TBuffer.encode, (hsizes part hpart).2]
    rw [← hencode, encodeParts, List.flatMap_map, List.flatMap_def, List.flatMap_def,
      List.map_congr_left hparts]
  · rintro ⟨ps, rfl⟩ hout
    have hparts := receiveParts_encodeParts [] ps h
    simp only [List.nil_append, List.length_nil, hout] at hparts
    cases hparts

section Package
variable {n : Int32} {body : Bytes}

theorem length_lt (h : body.length = n.toInt.toNat) : body.length < 2147483648 := by
  have hn := n.toInt_lt
  omega

/-- The package is read as the loop reads its body. -/
theorem utilsReceivePackage_body (u : Uninit) (rest : Bytes) (h : body.length = n.toInt.toNat) :
    utilsReceivePackage u (intBytes n ++ body ++ rest)
      = (receiveParts body 0).map fun valores => (valores, rest) := by
  have hbuffer : utilsReceiveBuffer u (intBytes n ++ body ++ rest) = (_, body, rest) :=
    utilsReceiveBuffer_frame u rest (length_intBytes n) (by rw [intOfBytes_intBytes, h])
  simp only [utilsReceivePackage, hbuffer, Option.bind_eq_bind]
  cases receiveParts body 0 <;> rfl

/-- Where the lengths lead out of a body, it is neither taken apart nor refused. -/
theorem LengthsLeadOut.not_bodyParsed (u : Uninit) (rest : Bytes)
    (h : body.length = n.toInt.toNat) (hout : LengthsLeadOut body 0) :
    ¬ BodyParsed u n body rest := by
  rintro ⟨valores, hreceive, -, -⟩
  rw [utilsReceivePackage_body u rest h, receiveParts_eq_none_iff.mpr hout] at hreceive
  cases hreceive

end Package

/-- **A body is taken apart exactly when its lengths stay inside it.**  For every size and
every body of that many bytes, whatever else memory and the stream hold; these are the bodies
that are parts one behind the other, each with its length in front. -/
theorem bodyParsed_iff (u : Uninit) (n : Int32) (body rest : Bytes)
    (h : body.length = n.toInt.toNat) :
    (BodyParsed u n body rest ↔ ¬ LengthsLeadOut body 0) ∧
      (BodyParsed u n body rest ↔ ∃ ps, body = encodeParts ps) := by
  have hinside : BodyParsed u n body rest ↔ ¬ LengthsLeadOut body 0 := by
    constructor
    · intro hparsed hout
      exact hout.not_bodyParsed u rest h hparsed
    · intro hin
      rw [← receiveParts_eq_none_iff] at hin
      obtain ⟨valores, hparts⟩ := Option.ne_none_iff_exists'.mp hin
      obtain ⟨hsizes, hencode⟩ := receiveParts_encode hparts
      refine ⟨valores, ?_, hsizes, by rw [hencode, List.drop_zero]⟩
      rw [utilsReceivePackage_body u rest h, hparts, Option.map_some]
  exact ⟨hinside, hinside.trans (not_lengthsLeadOut_iff body (length_lt h))⟩

/-- A body of two parts, the second of them empty. -/
theorem bodyParsed_two_parts :
    BodyParsed ⟨0, fun _ => 0⟩ 9 [1, 0, 0, 0, 7, 0, 0, 0, 0] [] ∧
      ¬ LengthsLeadOut [1, 0, 0, 0, 7, 0, 0, 0, 0] 0 := by
  have hiff := bodyParsed_iff ⟨0, fun _ => 0⟩ 9 [1, 0, 0, 0, 7, 0, 0, 0, 0] [] (by decide)
  have hparsed := hiff.2.mpr ⟨[[7], []], by decide⟩
  exact ⟨hparsed, hiff.1.mp hparsed⟩

/-- Four bytes that stand for the length −1 are not refused: `memcpy` is asked for −1
bytes. -/
theorem body_not_rejected : ¬ ∀ (u : Uninit) (n : Int32) (body rest : Bytes),
    body.length = n.toInt.toNat → BodyParsed u n body rest := by
  intro hall
  have hout : LengthsLeadOut [255, 255, 255, 255] 0 :=
    .negative (n := -1) (by decide) (by decide +kernel) (by decide)
  have hlength : [255, 255, 255, 255].length = (4 : Int32).toInt.toNat := by decide
  exact hout.not_bodyParsed ⟨0, fun _ => 0⟩ [] hlength
    (hall ⟨0, fun _ => 0⟩ 4 [255, 255, 255, 255] [] hlength)

end Threaders.Common
