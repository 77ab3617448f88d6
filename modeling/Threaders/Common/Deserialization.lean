import Threaders.Common.BodyParsing

/-!
# Bodies that any peer may send

`utils_get_from_list_to` copies as many bytes as the part has, into a field whose width it does
not know.  A wider part is written behind the field, and a shorter one leaves the rest of it as
`malloc` gave it.  So the copies of `utils_receive_and_deserialize` stay inside their fields where
no part is too wide, and what it returns then depends on the bytes received alone where these begin
with the encoding of a message, and only there.  The cases of the file system copy through a
pointer that nothing sets, so they do so for no body.

## Main definitions

* `Reads` — what the fields of a struct are filled with.
* `Message.Leads` — the parts received begin with those of a message.
* `Fits` — the parts received lie inside the fields of a struct.
* `deserialize_iff` — when a struct is filled from the bytes alone, and when it is filled at all.
-/

namespace Threaders.Common

open Lib

/-! ## Fields -/

instance : Nonempty Uninit := ⟨⟨0, fun _ => 0⟩⟩

section Fields
variable {ps : List Bytes} {i w : ℕ} {bs : Bytes}

theorem getElem?_overwrite {old : ℕ → UInt8} (h : bs.length < w) :
    (overwrite old w bs)[bs.length]? = some (old bs.length) := by
  simp [overwrite, h]

theorem utilsGetFromListTo_eq (u : Uninit) : utilsGetFromListTo u w (ps.map .ofPart) i =
    ps[i]?.bind fun p => if p.length ≤ w then some (overwrite u.heap w p) else none := by
  rw [utilsGetFromListTo, List.getElem?_map, Option.bind_eq_bind]
  cases ps[i]? <;> rfl

theorem length_utilsGetFromListTo {u : Uninit} {list : List TBuffer}
    (h : utilsGetFromListTo u w list i = some bs) : bs.length = w := by
  rw [utilsGetFromListTo, Option.bind_eq_bind, Option.bind_eq_some_iff] at h
  obtain ⟨buffer, -, h⟩ := h
  split at h
  · next hle =>
      obtain rfl := Option.some.inj h
      simp [overwrite]
      omega
  · cases h

/-- A field is filled from the bytes alone where its part is as wide as it is. -/
theorem forall_utilsGetFromListTo_iff :
    (∀ u, utilsGetFromListTo u w (ps.map .ofPart) i = some bs) ↔
      ps[i]? = some bs ∧ bs.length = w := by
  constructor
  · intro h
    simp only [utilsGetFromListTo_eq] at h
    cases hp : ps[i]? with
    | none =>
        rw [hp] at h
        cases h ⟨0, fun _ => 0⟩
    | some p =>
        have hover : ∀ heap, p.length ≤ w ∧ overwrite heap w p = bs := fun heap => by
          simpa [hp] using h ⟨0, heap⟩
        have hlength : p.length = w := by
          by_contra hne
          have hlt : p.length < w := lt_of_le_of_ne (hover fun _ => 0).1 hne
          -- The byte behind the part is whatever memory holds.
          have hbyte : ∀ x : UInt8, bs[p.length]? = some x := fun x => by
            rw [← (hover fun _ => x).2, getElem?_overwrite hlt]
          exact absurd ((hbyte 0).symm.trans (hbyte 1)) (by decide)
        obtain rfl : p = bs := (overwrite_of_length hlength).symm.trans (hover fun _ => 0).2
        exact ⟨rfl, hlength⟩
  · rintro ⟨hp, hw⟩ u
    exact utilsGetFromListTo_ofPart u hp hw

/-- The same of a value that is laid out in the field. -/
theorem forall_field_iff {γ : Type*} {decode : Bytes → γ} {encode : γ → Bytes}
    (hcode : ∀ bs, bs.length = w → ∀ x, decode bs = x ↔ bs = encode x)
    (hlength : ∀ x, (encode x).length = w) {x : γ} :
    (∀ u, (utilsGetFromListTo u w (ps.map .ofPart) i).map decode = some x) ↔
      ps[i]? = some (encode x) := by
  constructor
  · intro h
    have hall : ∀ u, utilsGetFromListTo u w (ps.map .ofPart) i = some (encode x) := fun u => by
      obtain ⟨bs, hbs, hx⟩ := Option.map_eq_some_iff.mp (h u)
      rw [hbs, (hcode bs (length_utilsGetFromListTo hbs) x).mp hx]
    exact (forall_utilsGetFromListTo_iff.mp hall).1
  · intro h u
    rw [utilsGetFromListTo_ofPart u h (hlength x), Option.map_some,
      (hcode _ (hlength x) x).mpr rfl]

theorem ofNat_ofLeBytes_eq_iff (bs : Bytes) (h : bs.length = 4) (x : UInt32) :
    UInt32.ofNat (ofLeBytes bs) = x ↔ bs = uint32Bytes x := by
  have hlt := ofLeBytes_lt bs
  rw [h] at hlt
  constructor
  · rintro rfl
    rw [uint32Bytes, UInt32.toNat_ofNat_of_lt' hlt, leBytes_ofLeBytes h]
  · rintro rfl
    rw [uint32Bytes, ofLeBytes_leBytes_of_lt x.toNat_lt, UInt32.ofNat_toNat]

theorem forall_getUInt32_iff {x : UInt32} :
    (∀ u, getUInt32 u (ps.map .ofPart) i = some x) ↔ ps[i]? = some (uint32Bytes x) :=
  forall_field_iff ofNat_ofLeBytes_eq_iff length_uint32Bytes

theorem forall_getInt32_iff {x : Int32} :
    (∀ u, getInt32 u (ps.map .ofPart) i = some x) ↔ ps[i]? = some (intBytes x) := by
  simp only [getInt32, getUInt32, Option.map_map]
  refine forall_field_iff (fun bs h y => ?_) length_intBytes
  rw [intBytes, ← uint32Bytes, ← ofNat_ofLeBytes_eq_iff bs h]
  constructor
  · rintro rfl
    rfl
  · intro heq
    rw [Function.comp_apply, heq, Int32.toInt32_toUInt32]

/-- The eight bytes of a `t_get_ok`. -/
theorem forall_getWord_iff {x : UInt64} :
    (∀ u, (utilsGetFromListTo u 8 (ps.map .ofPart) i).map
      (fun bs => UInt64.ofNat (ofLeBytes bs)) = some x) ↔ ps[i]? = some (leBytes 8 x.toNat) := by
  refine forall_field_iff (fun bs h y => ?_) fun x : UInt64 => length_leBytes 8 x.toNat
  have hlt := ofLeBytes_lt bs
  rw [h] at hlt
  constructor
  · rintro rfl
    rw [UInt64.toNat_ofNat_of_lt' hlt, leBytes_ofLeBytes h]
  · rintro rfl
    rw [ofLeBytes_leBytes_of_lt y.toNat_lt, UInt64.ofNat_toNat]

theorem forall_getContent_iff {size : Int32} :
    (∀ u, getContent u (ps.map .ofPart) size = some bs) ↔
      ps[3]? = some bs ∧ size.toInt = bs.length := by
  by_cases hsize : 0 ≤ size.toInt
  · simp only [getContent, hsize, if_true, forall_utilsGetFromListTo_iff]
    refine and_congr_right fun _ => ?_
    omega
  · simp only [getContent, hsize, if_false]
    constructor
    · intro h
      cases h ⟨0, fun _ => 0⟩
    · rintro ⟨-, hlength⟩
      omega

theorem cons_prefix_iff {qs : List Bytes} :
    bs :: qs <+: ps ↔ ps[0]? = some bs ∧ qs <+: ps.drop 1 := by
  cases ps <;> simp [List.cons_prefix_cons, eq_comm]

end Fields

/-! ## Structs -/

/-- What the fields of a struct are filled with. -/
def Reads (u : Uninit) (list : List TBuffer) : Package → Prop
  | .malloc p => iterator list = some () ∧ getUInt32 u list 0 = some p.tam ∧
      getInt32 u list 1 = some p.idLibmuse
  | .memfree p => getUInt32 u list 0 = some p.dir ∧ getInt32 u list 1 = some p.selfId
  | .get p => getUInt32 u list 0 = some p.src ∧ getInt32 u list 1 = some p.idLibmuse ∧
      getInt32 u list 2 = some p.size
  | .copy p => getUInt32 u list 0 = some p.dst ∧ getInt32 u list 1 = some p.selfId ∧
      getInt32 u list 2 = some p.size ∧ getContent u list p.size = some p.content
  | .mallocOk p => getUInt32 u list 0 = some p.ptr
  | .freeResponse p => getInt32 u list 0 = some p.res
  | .getOk p => (utilsGetFromListTo u 8 list 0).map (fun bs => UInt64.ofNat (ofLeBytes bs)) =
      some p.res ∧ getInt32 u list 1 = some p.tamres
  | .copyResponse _ | .path _ => False

/-- The case that returns a struct. -/
def Package.case : Package → Option TProtocol
  | .malloc _ => some .malloc
  | .memfree _ => some .memfree
  | .get _ => some .get
  | .copy _ => some .copy
  | .mallocOk _ => some .mallocOk
  | .freeResponse _ => some .freeResponse
  | .getOk _ => some .getOk
  | .copyResponse _ | .path _ => none

/-- The parts received begin with those of a message.  Those behind them are left alone, except by
the `iterator` of the `MALLOC` case, which copies every part into an `int`. -/
structure Message.Leads (m : Message) (ps : List Bytes) : Prop where
  parts : m.parts <+: ps
  iterator : m.protocol = .malloc → ∀ p ∈ ps, p.length ≤ 4

theorem Message.leads_of_parts {m : Message} {ps : List Bytes} (hm : m.protocol ≠ .malloc)
    (hparts : m.parts <+: ps) : m.Leads ps where
  parts := hparts
  iterator h := absurd h hm

section Structs
variable {u : Uninit} {stream rest rest' : Bytes} {ps : List Bytes} {list : List TBuffer}
  {package : Package} {protocol : TProtocol}

/-- A case fills in its struct field by field. -/
theorem deserialize_eq_some_iff (hpack : utilsReceivePackage u stream = some (list, rest)) :
    utilsReceiveAndDeserialize u stream protocol = some (some package, rest') ↔
      Reads u list package ∧ package.case = some protocol ∧ rest' = rest := by
  rw [eq_comm (a := rest')]
  rcases package with ⟨tam, id⟩ | ⟨dir, id⟩ | ⟨src, id, size⟩ | ⟨dst, id, size, content⟩ | ⟨⟨ptr⟩⟩ |
    ⟨⟨res⟩⟩ | ⟨res, tamres⟩ | p | p <;> cases protocol <;>
    simp [utilsReceiveAndDeserialize, hpack, Reads, Package.case, Option.bind_eq_some_iff,
      and_assoc, Unique.exists_iff]
  constructor
  · rintro ⟨bs, hbs, htamres, hres, hrest⟩
    exact ⟨⟨bs, hbs, hres⟩, htamres, hrest⟩
  · rintro ⟨⟨bs, hbs, hres⟩, htamres, hrest⟩
    exact ⟨bs, hbs, htamres, hres, hrest⟩

theorem iterator_eq_some_iff : iterator (ps.map .ofPart) = some () ↔ ∀ p ∈ ps, p.length ≤ 4 := by
  have hall : (ps.map TBuffer.ofPart).all (fun value => value.stream.length ≤ 4) = true ↔
      ∀ p ∈ ps, p.length ≤ 4 := by
    rw [List.all_map, List.all_eq_true]
    exact forall₂_congr fun p _ => decide_eq_true_iff
  rw [iterator, ← hall]
  split <;> simp_all

/-- A struct is filled from the bytes alone where its message leads them. -/
theorem forall_reads_iff : (∀ u, Reads u (ps.map .ofPart) package) ↔
    ∃ m : Message, m.package = package ∧ m.Leads ps := by
  constructor
  · intro h
    cases package with
    | malloc p =>
        simp only [Reads, forall_and, forall_const, iterator_eq_some_iff, forall_getUInt32_iff,
          forall_getInt32_iff] at h
        obtain ⟨hiter, htam, hid⟩ := h
        exact ⟨.malloc p, rfl, by simp [Message.parts, cons_prefix_iff, *], fun _ => hiter⟩
    | memfree p =>
        simp only [Reads, forall_and, forall_getUInt32_iff, forall_getInt32_iff] at h
        exact ⟨.memfree p, rfl, Message.leads_of_parts (by simp [Message.protocol])
          (by simp [Message.parts, cons_prefix_iff, *])⟩
    | get p =>
        simp only [Reads, forall_and, forall_getUInt32_iff, forall_getInt32_iff] at h
        exact ⟨.get p, rfl, Message.leads_of_parts (by simp [Message.protocol])
          (by simp [Message.parts, cons_prefix_iff, *])⟩
    | copy p =>
        simp only [Reads, forall_and, forall_getUInt32_iff, forall_getInt32_iff,
          forall_getContent_iff] at h
        obtain ⟨hdst, hid, hsize, hcontent, hlength⟩ := h
        exact ⟨.copy p hlength, rfl, Message.leads_of_parts (by simp [Message.protocol])
          (by simp [Message.parts, cons_prefix_iff, *])⟩
    | mallocOk p =>
        simp only [Reads, forall_getUInt32_iff] at h
        exact ⟨.mallocOk p, rfl, Message.leads_of_parts (by simp [Message.protocol])
          (by simp [Message.parts, cons_prefix_iff, *])⟩
    | freeResponse p =>
        simp only [Reads, forall_getInt32_iff] at h
        exact ⟨.freeResponse p, rfl, Message.leads_of_parts (by simp [Message.protocol])
          (by simp [Message.parts, cons_prefix_iff, *])⟩
    | getOk p =>
        simp only [Reads, forall_and, forall_getWord_iff, forall_getInt32_iff] at h
        exact ⟨.getOk p, rfl, Message.leads_of_parts (by simp [Message.protocol])
          (by simp [Message.parts, cons_prefix_iff, *])⟩
    | copyResponse p | path p => cases h ⟨0, fun _ => 0⟩
  · rintro ⟨m, rfl, hparts, hiter⟩
    cases m with
    | malloc p =>
        simp only [Message.parts, cons_prefix_iff, List.getElem?_drop, List.drop_drop] at hparts
        simp only [Message.package, Reads, forall_and, forall_const, iterator_eq_some_iff,
          forall_getUInt32_iff, forall_getInt32_iff]
        exact ⟨hiter rfl, hparts.1, hparts.2.1⟩
    | memfree p =>
        simp only [Message.parts, cons_prefix_iff, List.getElem?_drop, List.drop_drop] at hparts
        simp only [Message.package, Reads, forall_and, forall_getUInt32_iff, forall_getInt32_iff]
        exact ⟨hparts.1, hparts.2.1⟩
    | get p =>
        simp only [Message.parts, cons_prefix_iff, List.getElem?_drop, List.drop_drop] at hparts
        simp only [Message.package, Reads, forall_and, forall_getUInt32_iff, forall_getInt32_iff]
        exact ⟨hparts.1, hparts.2.1, hparts.2.2.1⟩
    | copy p hsize =>
        simp only [Message.parts, cons_prefix_iff, List.getElem?_drop, List.drop_drop] at hparts
        simp only [Message.package, Reads, forall_and, forall_getUInt32_iff, forall_getInt32_iff,
          forall_getContent_iff]
        exact ⟨hparts.1, hparts.2.1, hparts.2.2.1, hparts.2.2.2.1, hsize⟩
    | mallocOk p =>
        simp only [Message.parts, cons_prefix_iff] at hparts
        exact forall_getUInt32_iff.mpr hparts.1
    | freeResponse p =>
        simp only [Message.parts, cons_prefix_iff] at hparts
        exact forall_getInt32_iff.mpr hparts.1
    | getOk p =>
        simp only [Message.parts, cons_prefix_iff, List.getElem?_drop, List.drop_drop] at hparts
        simp only [Message.package, Reads, forall_and, forall_getWord_iff, forall_getInt32_iff]
        exact ⟨hparts.1, hparts.2.1⟩

/-! ## Parts inside the fields -/

/-- A part is there and is not wider than its field. -/
def Inside (ps : List Bytes) (i w : ℕ) : Prop := ∃ p, ps[i]? = some p ∧ p.length ≤ w

/-- The parts received lie inside the fields of the struct that a case fills.  The `iterator` of the
`MALLOC` case looks at all of them, and the size of a `COPY` is there whole. -/
def Fits (ps : List Bytes) : TProtocol → Prop
  | .malloc => (∀ p ∈ ps, p.length ≤ 4) ∧ Inside ps 0 4 ∧ Inside ps 1 4
  | .memfree => Inside ps 0 4 ∧ Inside ps 1 4
  | .get => Inside ps 0 4 ∧ Inside ps 1 4 ∧ Inside ps 2 4
  | .copy => Inside ps 0 4 ∧ Inside ps 1 4 ∧
      ∃ size : Int32, ps[2]? = some (intBytes size) ∧ 0 ≤ size.toInt ∧ Inside ps 3 size.toInt.toNat
  | .mallocOk | .freeResponse => Inside ps 0 4
  | .getOk => Inside ps 0 8 ∧ Inside ps 1 4
  | _ => False

section Inside
variable {i w : ℕ}

theorem exists_field_iff {γ : Type*} {decode : Bytes → γ} :
    (∃ x, (utilsGetFromListTo u w (ps.map .ofPart) i).map decode = some x) ↔ Inside ps i w := by
  rw [utilsGetFromListTo_eq]
  constructor
  · rintro ⟨x, hx⟩
    obtain ⟨bs, hbs, -⟩ := Option.map_eq_some_iff.mp hx
    obtain ⟨p, hp, hbs⟩ := Option.bind_eq_some_iff.mp hbs
    split at hbs
    · next hle => exact ⟨p, hp, hle⟩
    · cases hbs
  · rintro ⟨p, hp, hle⟩
    exact ⟨_, by rw [hp, Option.bind_some, if_pos hle, Option.map_some]⟩

theorem exists_getUInt32_iff : (∃ x, getUInt32 u (ps.map .ofPart) i = some x) ↔ Inside ps i 4 :=
  exists_field_iff

theorem exists_getInt32_iff : (∃ x, getInt32 u (ps.map .ofPart) i = some x) ↔ Inside ps i 4 := by
  simp only [getInt32, getUInt32, Option.map_map]
  exact exists_field_iff

theorem exists_getContent_iff {size : Int32} :
    (∃ bs, getContent u (ps.map .ofPart) size = some bs) ↔
      0 ≤ size.toInt ∧ Inside ps 3 size.toInt.toNat := by
  by_cases hsize : 0 ≤ size.toInt
  · have hfield : (∃ bs, (utilsGetFromListTo u size.toInt.toNat (ps.map .ofPart) 3).map id
        = some bs) ↔ Inside ps 3 size.toInt.toNat := exists_field_iff
    simpa [getContent, hsize] using hfield
  · simp [getContent, hsize]

/-- Behind a short part stand the bytes that memory held. -/
theorem overwrite_255 {p : Bytes} (h : p.length < 4) :
    overwrite (fun _ => 255) 4 p = p ++ List.replicate (3 - p.length) 255 ++ [255] := by
  have hk : 4 - p.length = 3 - p.length + 1 := by omega
  rw [overwrite, List.map_const', List.length_range, List.drop_replicate, hk,
    List.replicate_succ', List.append_assoc]

/-- Four bytes of which the last is `0xFF` stand for a negative `int`. -/
theorem toInt_neg_of_high {front : Bytes} (h : front.length = 3) :
    (UInt32.ofNat (ofLeBytes (front ++ [255]))).toInt32.toInt < 0 := by
  have hlt := ofLeBytes_lt front
  rw [h] at hlt
  have hvalue : ofLeBytes (front ++ [255]) = ofLeBytes front + 256 ^ 3 * 255 := by
    rw [ofLeBytes_append, h]
    rfl
  have hword : ofLeBytes front + 256 ^ 3 * 255 < 2 ^ 32 := by omega
  rw [← toI32_toUInt32, hvalue, UInt32.toUInt32_toInt32, UInt32.toNat_ofNat_of_lt' hword]
  unfold toI32
  omega

/-- A size that is not negative whatever memory holds behind its part is there whole. -/
theorem getInt32_whole {x : Int32} (hx : 0 ≤ x.toInt)
    (h : getInt32 ⟨0, fun _ => 255⟩ (ps.map .ofPart) i = some x) :
    ps[i]? = some (intBytes x) := by
  simp only [getInt32, getUInt32, Option.map_map] at h
  obtain ⟨bs, hbs, rfl⟩ := Option.map_eq_some_iff.mp h
  rw [utilsGetFromListTo_eq] at hbs
  obtain ⟨p, hp, hbs⟩ := Option.bind_eq_some_iff.mp hbs
  split at hbs
  · next hle =>
      obtain rfl := Option.some.inj hbs
      rcases eq_or_lt_of_le hle with hlength | hlt
      · rw [hp, overwrite_of_length hlength, Function.comp_apply, intBytes, ← uint32Bytes,
          UInt32.toUInt32_toInt32, ← (ofNat_ofLeBytes_eq_iff p hlength _).mp rfl]
      · rw [overwrite_255 hlt] at hx
        have hfront : (p ++ List.replicate (3 - p.length) 255).length = 3 := by
          rw [List.length_append, List.length_replicate]
          omega
        have hneg := toInt_neg_of_high hfront
        rw [Function.comp_apply] at hx
        omega
  · cases hbs

end Inside

theorem fits_iff : (∀ u, ∃ package, Reads u (ps.map .ofPart) package ∧
    package.case = some protocol) ↔ Fits ps protocol := by
  constructor
  · intro h
    obtain ⟨package, hreads, hcase⟩ := h ⟨0, fun _ => 255⟩
    cases package with
    | malloc p =>
        obtain rfl := Option.some.inj hcase
        obtain ⟨hiter, htam, hid⟩ := hreads
        exact ⟨iterator_eq_some_iff.mp hiter, exists_getUInt32_iff.mp ⟨_, htam⟩,
          exists_getInt32_iff.mp ⟨_, hid⟩⟩
    | memfree p =>
        obtain rfl := Option.some.inj hcase
        obtain ⟨hdir, hid⟩ := hreads
        exact ⟨exists_getUInt32_iff.mp ⟨_, hdir⟩, exists_getInt32_iff.mp ⟨_, hid⟩⟩
    | get p =>
        obtain rfl := Option.some.inj hcase
        obtain ⟨hsrc, hid, hsize⟩ := hreads
        exact ⟨exists_getUInt32_iff.mp ⟨_, hsrc⟩, exists_getInt32_iff.mp ⟨_, hid⟩,
          exists_getInt32_iff.mp ⟨_, hsize⟩⟩
    | copy p =>
        obtain rfl := Option.some.inj hcase
        obtain ⟨hdst, hid, hsize, hcontent⟩ := hreads
        obtain ⟨hnonneg, hinside⟩ := exists_getContent_iff.mp ⟨_, hcontent⟩
        exact ⟨exists_getUInt32_iff.mp ⟨_, hdst⟩, exists_getInt32_iff.mp ⟨_, hid⟩, p.size,
          getInt32_whole hnonneg hsize, hnonneg, hinside⟩
    | mallocOk p =>
        obtain rfl := Option.some.inj hcase
        exact exists_getUInt32_iff.mp ⟨_, hreads⟩
    | freeResponse p =>
        obtain rfl := Option.some.inj hcase
        exact exists_getInt32_iff.mp ⟨_, hreads⟩
    | getOk p =>
        obtain rfl := Option.some.inj hcase
        obtain ⟨hres, htamres⟩ := hreads
        exact ⟨exists_field_iff.mp ⟨_, hres⟩, exists_getInt32_iff.mp ⟨_, htamres⟩⟩
    | copyResponse p | path p => cases hcase
  · intro h u
    cases protocol with
    | malloc =>
        obtain ⟨hiter, htam, hid⟩ := h
        obtain ⟨tam, htam⟩ := exists_getUInt32_iff.mpr htam
        obtain ⟨idLibmuse, hid⟩ := exists_getInt32_iff.mpr hid
        exact ⟨.malloc ⟨tam, idLibmuse⟩, ⟨iterator_eq_some_iff.mpr hiter, htam, hid⟩, rfl⟩
    | memfree =>
        obtain ⟨hdir, hid⟩ := h
        obtain ⟨dir, hdir⟩ := exists_getUInt32_iff.mpr hdir
        obtain ⟨selfId, hid⟩ := exists_getInt32_iff.mpr hid
        exact ⟨.memfree ⟨dir, selfId⟩, ⟨hdir, hid⟩, rfl⟩
    | get =>
        obtain ⟨hsrc, hid, hsize⟩ := h
        obtain ⟨src, hsrc⟩ := exists_getUInt32_iff.mpr hsrc
        obtain ⟨idLibmuse, hid⟩ := exists_getInt32_iff.mpr hid
        obtain ⟨size, hsize⟩ := exists_getInt32_iff.mpr hsize
        exact ⟨.get ⟨src, idLibmuse, size⟩, ⟨hsrc, hid, hsize⟩, rfl⟩
    | copy =>
        obtain ⟨hdst, hid, size, hsize, hcontent⟩ := h
        obtain ⟨dst, hdst⟩ := exists_getUInt32_iff.mpr hdst
        obtain ⟨selfId, hid⟩ := exists_getInt32_iff.mpr hid
        obtain ⟨content, hcontent⟩ := exists_getContent_iff.mpr hcontent
        exact ⟨.copy ⟨dst, selfId, size, content⟩,
          ⟨hdst, hid, forall_getInt32_iff.mpr hsize u, hcontent⟩, rfl⟩
    | mallocOk =>
        obtain ⟨ptr, hptr⟩ := exists_getUInt32_iff.mpr h
        exact ⟨.mallocOk ⟨ptr⟩, hptr, rfl⟩
    | freeResponse =>
        obtain ⟨res, hres⟩ := exists_getInt32_iff.mpr h
        exact ⟨.freeResponse ⟨res⟩, hres, rfl⟩
    | getOk =>
        obtain ⟨hres, htamres⟩ := h
        obtain ⟨res, hres⟩ := exists_field_iff.mpr hres
        obtain ⟨tamres, htamres⟩ := exists_getInt32_iff.mpr htamres
        exact ⟨.getOk ⟨res, tamres⟩, ⟨hres, htamres⟩, rfl⟩
    | _ => exact h.elim

end Structs

/-! ## Whole bodies -/

theorem encodeParts_injective {ps qs : List Bytes} (hp : (encodeParts ps).length < 2147483648)
    (h : encodeParts ps = encodeParts qs) : ps = qs := by
  have hps := receiveParts_encodeParts [] ps hp
  rw [h] at hp hps
  rw [receiveParts_encodeParts [] qs hp] at hps
  have hmap := congrArg (List.map TBuffer.stream) (Option.some.inj hps)
  simpa [Function.comp_def, TBuffer.ofPart] using hmap.symm

section Body
variable {n : Int32} {body : Bytes}

/-- A case that returns a struct has taken the whole body apart. -/
theorem encodeParts_of_deserialize {u : Uninit} {rest rest' : Bytes} {protocol : TProtocol}
    {package : Package} (h : body.length = n.toInt.toNat)
    (hdes : utilsReceiveAndDeserialize u (intBytes n ++ body ++ rest) protocol
      = some (some package, rest')) :
    ∃ ps, body = encodeParts ps := by
  rw [← not_lengthsLeadOut_iff body (length_lt h), ← receiveParts_eq_none_iff]
  intro hnone
  have hpack := utilsReceivePackage_body u rest h
  rw [hnone, Option.map_none] at hpack
  generalize intBytes n ++ body ++ rest = stream at hdes hpack
  cases protocol <;> simp [utilsReceiveAndDeserialize, hpack] at hdes

theorem utilsReceivePackage_encodeParts {ps : List Bytes} (u : Uninit) (rest : Bytes)
    (h : (encodeParts ps).length = n.toInt.toNat) :
    utilsReceivePackage u (intBytes n ++ encodeParts ps ++ rest) = some (ps.map .ofPart, rest) := by
  have hparts := receiveParts_encodeParts [] ps (length_lt h)
  rw [List.nil_append, List.length_nil] at hparts
  rw [utilsReceivePackage_body u rest h, hparts, Option.map_some]

theorem Message.case_package (m : Message) : m.package.case = some m.protocol := by
  cases m <;> rfl

end Body

/-- **The struct received is the bytes received exactly where a message leads them.**  A body of as
many bytes as its size says is turned into a struct with every copy inside its field, the same one
whatever memory held, if and only if its parts begin with those of that message; and it is turned
into some struct with every copy inside its field if and only if its parts fit the fields. -/
theorem deserialize_iff (protocol : TProtocol) (n : Int32) (body rest : Bytes)
    (h : body.length = n.toInt.toNat) :
    (∀ package rest', (∀ u, utilsReceiveAndDeserialize u (intBytes n ++ body ++ rest) protocol
        = some (some package, rest')) ↔
      ∃ (m : Message) (ps : List Bytes), m.protocol = protocol ∧ m.package = package ∧
        body = encodeParts ps ∧ m.Leads ps ∧ rest' = rest) ∧
    ((∀ u, ∃ package rest', utilsReceiveAndDeserialize u (intBytes n ++ body ++ rest) protocol
        = some (some package, rest')) ↔
      ∃ ps, body = encodeParts ps ∧ Fits ps protocol) := by
  by_cases hbody : ∃ ps, body = encodeParts ps
  · obtain ⟨ps, rfl⟩ := hbody
    have hinj : ∀ qs, encodeParts ps = encodeParts qs → ps = qs := fun qs =>
      encodeParts_injective (length_lt h)
    constructor
    · intro package rest'
      simp only [deserialize_eq_some_iff (utilsReceivePackage_encodeParts _ rest h), forall_and,
        forall_const, forall_reads_iff]
      constructor
      · rintro ⟨⟨m, rfl, hleads⟩, hcase, hrest⟩
        rw [m.case_package] at hcase
        exact ⟨m, ps, Option.some.inj hcase, rfl, rfl, hleads, hrest⟩
      · rintro ⟨m, qs, rfl, rfl, hqs, hleads, hrest⟩
        obtain rfl := hinj qs hqs
        exact ⟨⟨m, rfl, hleads⟩, m.case_package, hrest⟩
    · simp only [deserialize_eq_some_iff (utilsReceivePackage_encodeParts _ rest h)]
      have hstruct : (∀ u, ∃ package rest', Reads u (ps.map .ofPart) package ∧
          package.case = some protocol ∧ rest' = rest) ↔ Fits ps protocol := by
        rw [← fits_iff]
        exact forall_congr' fun u => exists_congr fun package => by simp
      rw [hstruct]
      constructor
      · intro hfits
        exact ⟨ps, rfl, hfits⟩
      · rintro ⟨qs, hqs, hfits⟩
        rwa [hinj qs hqs]
  · constructor
    · intro package rest'
      constructor
      · intro hdes
        exact absurd (encodeParts_of_deserialize h (hdes ⟨0, fun _ => 0⟩)) hbody
      · rintro ⟨m, ps, -, -, hps, -⟩
        exact absurd ⟨ps, hps⟩ hbody
    · constructor
      · intro hdes
        obtain ⟨package, rest', hdes⟩ := hdes ⟨0, fun _ => 0⟩
        exact absurd (encodeParts_of_deserialize h hdes) hbody
      · rintro ⟨ps, hps, -⟩
        exact absurd ⟨ps, hps⟩ hbody

/-- The body of a `FREE_RESPONSE` with a part behind it that no field takes. -/
theorem deserialize_iff_freeResponse :
    (encodeParts [intBytes 7, [9]]).length = (13 : Int32).toInt.toNat ∧
      (∀ u, ∃ package rest', utilsReceiveAndDeserialize u
          (intBytes 13 ++ encodeParts [intBytes 7, [9]] ++ []) .freeResponse
            = some (some package, rest')) := by
  have hlength : (encodeParts [intBytes 7, [9]]).length = (13 : Int32).toInt.toNat := by decide
  refine ⟨hlength, (deserialize_iff .freeResponse 13 _ [] hlength).2.mpr ?_⟩
  exact ⟨_, rfl, intBytes 7, rfl, by decide⟩

end Threaders.Common
