import Threaders.Lib.Word

/-!
# The message types

`protocols.h`: the operation codes, the buffer and the package that carry a message
on the wire, and the struct of each message kind.  A struct field is kept at its
machine type, so that every value of a struct is one the program can hold.  The
structs of the unimplemented messages are empty and are left out.

A `void*` package is a value of `Package`, which remembers what struct it points to.

## Main definitions

* `TProtocol` — the operation codes, with their wire values `TProtocol.code`.
* `TBuffer`, `TPackage` — a length-prefixed part list under construction.
* `Package` — the struct behind a `void*` package.
-/

namespace Threaders.Common

/-- Raw bytes, as they lie in memory or travel on a socket. -/
abbrev Bytes := List UInt8

/-- `t_protocol`, in the order of the enumeration. -/
inductive TProtocol
  | handshake | malloc | memfree | copy | get | map | unmap | sync
  | mallocOk | freeResponse | getOk | copyResponse | mapOk | unmapOk | syncOk | segFault
  | getAttr | readDir | read | openFile | mkDir | createDir | write | rmDir
  deriving DecidableEq

namespace TProtocol

/-- The value the enumeration gives to each operation code. -/
def code : TProtocol → ℕ
  | handshake => 0 | malloc => 1 | memfree => 2 | copy => 3
  | get => 4 | map => 5 | unmap => 6 | sync => 7
  | mallocOk => 8 | freeResponse => 9 | getOk => 10 | copyResponse => 11
  | mapOk => 12 | unmapOk => 13 | syncOk => 14 | segFault => 15
  | getAttr => 16 | readDir => 17 | read => 18 | openFile => 19
  | mkDir => 20 | createDir => 21 | write => 22 | rmDir => 23

/-- The operation code a `switch` on a received integer selects, if any. -/
def ofCode : ℕ → Option TProtocol
  | 0 => some handshake | 1 => some malloc | 2 => some memfree | 3 => some copy
  | 4 => some get | 5 => some map | 6 => some unmap | 7 => some sync
  | 8 => some mallocOk | 9 => some freeResponse | 10 => some getOk | 11 => some copyResponse
  | 12 => some mapOk | 13 => some unmapOk | 14 => some syncOk | 15 => some segFault
  | 16 => some getAttr | 17 => some readDir | 18 => some read | 19 => some openFile
  | 20 => some mkDir | 21 => some createDir | 22 => some write | 23 => some rmDir
  | _ => none

@[simp] theorem ofCode_code (p : TProtocol) : ofCode p.code = some p := by
  cases p <;> rfl

theorem code_lt (p : TProtocol) : p.code < 24 := by
  cases p <;> decide

/-- The operation code of a received `int`. -/
def ofInt (x : ℤ) : Option TProtocol := if 0 ≤ x then ofCode x.toNat else none

@[simp] theorem ofInt_code (p : TProtocol) : ofInt p.code = some p := by
  simp [ofInt]

theorem code_of_ofCode {n : ℕ} {p : TProtocol} (h : ofCode n = some p) : n = p.code := by
  unfold ofCode at h
  split at h <;> cases h <;> rfl

theorem code_of_ofInt {x : ℤ} {p : TProtocol} (h : ofInt x = some p) : x = p.code := by
  unfold ofInt at h
  split at h
  · next hx => rw [← code_of_ofCode h, Int.toNat_of_nonneg hx]
  · cases h

end TProtocol

/-! ## Buffers and packages -/

/-- `t_buffer`. -/
structure TBuffer where
  size : ℤ
  stream : Bytes
  deriving DecidableEq

/-- `t_package`. -/
structure TPackage where
  operationCode : TProtocol
  buffer : TBuffer
  deriving DecidableEq

/-! ## Message structs -/

structure TMalloc where
  tam : UInt32
  idLibmuse : Int32
  deriving DecidableEq

structure TGet where
  src : UInt32
  idLibmuse : Int32
  size : Int32
  deriving DecidableEq

/-- `t_copy`, with the bytes its `content` pointer leads to. -/
structure TCopy where
  dst : UInt32
  selfId : Int32
  size : Int32
  content : Bytes
  deriving DecidableEq

structure TFree where
  dir : UInt32
  selfId : Int32
  deriving DecidableEq

structure TMallocOk where
  ptr : UInt32
  deriving DecidableEq

structure TFreeResponse where
  res : Int32
  deriving DecidableEq

/-- `t_get_ok`.  The pointer `res` is used as a word of eight data bytes. -/
structure TGetOk where
  res : UInt64
  tamres : Int32
  deriving DecidableEq

structure TCopyResponse where
  res : Int32
  deriving DecidableEq

/-- The struct that the eight file system messages share: `t_read_dir`, `t_read`,
`t_open`, `t_get_attr`, `t_create_directory`, `t_write`, `t_rm_directory` and
`t_mk_directory`.  `pathname` is a pointer, kept as the address it holds and the
string stored there, without its terminator. -/
structure TPathRequest where
  pathname : UInt64
  pathnameStr : Bytes
  idSacCli : Int32
  deriving DecidableEq

/-- What a `void*` package points to. -/
inductive Package
  | malloc (p : TMalloc)
  | memfree (p : TFree)
  | get (p : TGet)
  | copy (p : TCopy)
  | mallocOk (p : TMallocOk)
  | freeResponse (p : TFreeResponse)
  | getOk (p : TGetOk)
  | copyResponse (p : TCopyResponse)
  | path (p : TPathRequest)
  deriving DecidableEq

/-- The file system operations, whose packages are all path requests. -/
def TProtocol.isPathRequest : TProtocol → Bool
  | .getAttr | .readDir | .read | .openFile | .mkDir | .createDir | .write | .rmDir => true
  | _ => false

end Threaders.Common
