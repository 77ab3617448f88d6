import Mathlib.Algebra.Order.Ring.Int
import Mathlib.Tactic.Ring
import Mathlib.Tactic.NormNum

/-!
# Machine words: conversions and little-endian bytes

A program with fixed-width integers computes over the unbounded ones and converts
after each operation.  `toI32` and `toU32` are the two conversions of a 32-bit
two's complement machine, stated so that linear arithmetic can see through them.

`leBytes k n` lays the low `k` bytes of `n` out least significant first, and
`ofLeBytes` reads any byte string back as a number.

## Main definitions

* `toI32`, `toU32` — conversion to a signed and to an unsigned 32-bit integer.
* `leBytes`, `ofLeBytes` — little-endian layout of a number and its inverse.
-/

namespace Threaders.Lib

/-! ## Conversions -/

/-- The signed 32-bit integer congruent to `x`. -/
def toI32 (x : ℤ) : ℤ := (x + 2147483648) % 4294967296 - 2147483648

/-- The unsigned 32-bit integer congruent to `x`. -/
def toU32 (x : ℤ) : ℤ := x % 4294967296

theorem toI32_of_mem {x : ℤ} (hlo : -2147483648 ≤ x) (hhi : x < 2147483648) : toI32 x = x := by
  unfold toI32
  omega

theorem toU32_of_mem {x : ℤ} (hlo : 0 ≤ x) (hhi : x < 4294967296) : toU32 x = x := by
  unfold toU32
  omega

theorem toI32_mem (x : ℤ) : -2147483648 ≤ toI32 x ∧ toI32 x < 2147483648 := by
  unfold toI32
  omega

theorem toU32_mem (x : ℤ) : 0 ≤ toU32 x ∧ toU32 x < 4294967296 := by
  unfold toU32
  omega

@[simp] theorem toI32_toU32 (x : ℤ) : toI32 (toU32 x) = toI32 x := by
  unfold toI32 toU32
  omega

@[simp] theorem toU32_toI32 (x : ℤ) : toU32 (toI32 x) = toU32 x := by
  unfold toI32 toU32
  omega

theorem toU32_eq_toNat (x : ℤ) : toU32 x = ((UInt32.ofInt x).toNat : ℤ) := by
  unfold toU32
  rw [UInt32.ofInt, UInt32.toNat_ofNat']
  omega

/-- The bits of an `int` read as a signed number are the `int`. -/
theorem toI32_toUInt32 (x : Int32) : toI32 x.toUInt32.toNat = x.toInt := by
  have hint : x.toInt = x.toBitVec.toInt := rfl
  have hnat : x.toUInt32.toNat = x.toBitVec.toNat := rfl
  have hlt := x.toBitVec.isLt
  rw [hint, hnat, BitVec.toInt_eq_toNat_cond]
  unfold toI32
  split <;> omega

/-! ## Little-endian layout -/

/-- The low `k` bytes of `n`, least significant first. -/
def leBytes : ℕ → ℕ → List UInt8
  | 0, _ => []
  | k + 1, n => UInt8.ofNat n :: leBytes k (n / 256)

/-- The number whose little-endian layout is the given byte string. -/
def ofLeBytes : List UInt8 → ℕ
  | [] => 0
  | b :: bs => b.toNat + 256 * ofLeBytes bs

@[simp] theorem length_leBytes (k n : ℕ) : (leBytes k n).length = k := by
  induction k generalizing n with
  | zero => rfl
  | succ k ih => simp [leBytes, ih]

theorem getElem_leBytes {k n j : ℕ} (h : j < (leBytes k n).length) :
    (leBytes k n)[j] = UInt8.ofNat (n / 256 ^ j) := by
  induction k generalizing n j with
  | zero => simp [leBytes] at h
  | succ k ih =>
      cases j with
      | zero => simp [leBytes]
      | succ j =>
          have hj := ih (n := n / 256) (j := j) (by simpa [leBytes] using h)
          simp only [leBytes, List.getElem_cons_succ, hj, Nat.div_div_eq_div_mul, pow_succ']

theorem ofLeBytes_lt (bs : List UInt8) : ofLeBytes bs < 256 ^ bs.length := by
  induction bs with
  | nil => simp [ofLeBytes]
  | cons b bs ih =>
      have hb : b.toNat < 256 := b.toNat_lt
      simp only [ofLeBytes, List.length_cons, pow_succ]
      omega

@[simp] theorem ofLeBytes_leBytes (k n : ℕ) : ofLeBytes (leBytes k n) = n % 256 ^ k := by
  induction k generalizing n with
  | zero => simp [leBytes, ofLeBytes, Nat.mod_one]
  | succ k ih =>
      have hpow : 256 ^ (k + 1) = 256 * 256 ^ k := Nat.pow_succ'
      rw [leBytes, ofLeBytes, ih, UInt8.toNat_ofNat', hpow, Nat.mod_mul]

theorem ofLeBytes_leBytes_of_lt {k n : ℕ} (h : n < 256 ^ k) : ofLeBytes (leBytes k n) = n := by
  rw [ofLeBytes_leBytes, Nat.mod_eq_of_lt h]

theorem ofLeBytes_append (bs cs : List UInt8) :
    ofLeBytes (bs ++ cs) = ofLeBytes bs + 256 ^ bs.length * ofLeBytes cs := by
  induction bs with
  | nil => simp [ofLeBytes]
  | cons b bs ih =>
      rw [List.cons_append, ofLeBytes, ih, ofLeBytes, List.length_cons, pow_succ']
      ring

/-- Reading a byte string as a number loses nothing but its length. -/
theorem leBytes_ofLeBytes {k : ℕ} {bs : List UInt8} (h : bs.length = k) :
    leBytes k (ofLeBytes bs) = bs := by
  subst h
  induction bs with
  | nil => rfl
  | cons b bs ih =>
      have hb : b.toNat < 256 := b.toNat_lt
      have hhead : UInt8.ofNat (b.toNat + 256 * ofLeBytes bs) = b := by
        apply UInt8.toNat_inj.mp
        rw [UInt8.toNat_ofNat']
        omega
      have htail : (b.toNat + 256 * ofLeBytes bs) / 256 = ofLeBytes bs := by omega
      simp only [List.length_cons, leBytes, ofLeBytes, hhead, htail, ih]

end Threaders.Lib
