import Mathlib

/-!
# Byte strings

Go `[]byte` values are lists of bytes. This module has the fixed-width integer
conversions of Go (`uint64(x)` of an `int64`, `int64(x)` of a `uint64`), the
big-endian encoding of `encoding/binary`, and positional reads and writes of a
file's contents.

* `ofBE_toBE`: decoding the `w` big-endian bytes of `n` gives `n mod 256^w`; `toBE_ofBE` is
  the other direction.
* `readAt_append`, `writeAt_tail`: reads and writes of a file that is a
  concatenation of sections.
-/

namespace MetricStore.Common

/-- A Go `[]byte`. -/
abbrev Bytes := List UInt8

/-- Byte strings are compared by their contents. -/
instance lawfulBEqBytes : LawfulBEq Bytes := inferInstance

/-- The bytes of a string literal. -/
def lit (s : String) : Bytes := s.toUTF8.data.toList

/-- `%d`. -/
def decimal (n : ℕ) : Bytes := (Nat.toDigits 10 n).map fun c => UInt8.ofNat c.toNat

/-- `%d` or `%v` of a signed integer. -/
def formatInt (z : ℤ) : Bytes := if z < 0 then 45 :: decimal (-z).toNat else decimal z.toNat

/-! ## Two's complement -/

/-- `uint64(z)` for an integer `z`. -/
def uint64 (z : ℤ) : ℕ := (z % 2 ^ 64).toNat

/-- `int64(n)` for a `uint64` value `n`. -/
def int64 (n : ℕ) : ℤ := if n < 2 ^ 63 then n else (n : ℤ) - 2 ^ 64

theorem uint64_of_nonneg {z : ℤ} (h0 : 0 ≤ z) (h1 : z < 2 ^ 64) : uint64 z = z.toNat := by
  unfold uint64; rw [Int.emod_eq_of_lt h0 h1]

theorem int64_of_lt {n : ℕ} (h : n < 2 ^ 63) : int64 n = n := by
  unfold int64; rw [if_pos h]

/-! ## Big-endian integers -/

/-- The `w` big-endian bytes of `n`; `binary.BigEndian.PutUint64` is `toBE 8`. -/
def toBE : ℕ → ℕ → Bytes
  | 0, _ => []
  | w + 1, n => toBE w (n / 256) ++ [UInt8.ofNat (n % 256)]

/-- The number with the given big-endian bytes; `binary.BigEndian.Uint64`. -/
def ofBE (l : Bytes) : ℕ := l.foldl (fun acc b => 256 * acc + b.toNat) 0

@[simp] theorem length_toBE (w n : ℕ) : (toBE w n).length = w := by
  induction w generalizing n with
  | zero => rfl
  | succ w ih => simp [toBE, ih]

theorem ofBE_concat (l : Bytes) (b : UInt8) : ofBE (l ++ [b]) = 256 * ofBE l + b.toNat := by
  simp [ofBE]

theorem ofBE_toBE (w n : ℕ) : ofBE (toBE w n) = n % 256 ^ w := by
  induction w generalizing n with
  | zero => simp [toBE, ofBE, Nat.mod_one]
  | succ w ih =>
    have hb : (UInt8.ofNat (n % 256)).toNat = n % 256 := by
      rw [UInt8.toNat_ofNat']; omega
    rw [toBE, ofBE_concat, ih, hb, pow_succ', Nat.mod_mul]
    omega

theorem ofBE_toBE_of_lt {n : ℕ} (h : n < 2 ^ 64) : ofBE (toBE 8 n) = n := by
  rw [ofBE_toBE, Nat.mod_eq_of_lt (by norm_num at h ⊢; exact h)]

theorem toBE_ofBE (l : Bytes) : toBE l.length (ofBE l) = l := by
  induction l using List.reverseRecOn with
  | nil => rfl
  | append_singleton l b ih =>
    have hb : b.toNat < 256 := UInt8.toNat_lt b
    rw [List.length_append, List.length_singleton, toBE, ofBE_concat,
      show (256 * ofBE l + b.toNat) / 256 = ofBE l by omega,
      show (256 * ofBE l + b.toNat) % 256 = b.toNat by omega, ih, UInt8.ofNat_toNat]

/-! ## Positional access -/

/-- The bytes a read of `n` bytes at offset `off` gets: fewer than `n` at the
    end of the file. -/
def readAt (f : Bytes) (off n : ℕ) : Bytes := (f.drop off).take n

/-- The file after writing `b` at offset `off`. A hole before `off` reads as
    zeros. -/
def writeAt (f : Bytes) (off : ℕ) (b : Bytes) : Bytes :=
  f.take off ++ List.replicate (off - f.length) 0 ++ b ++ f.drop (off + b.length)

theorem length_readAt (f : Bytes) (off n : ℕ) : (readAt f off n).length = min n (f.length - off) := by
  simp [readAt]

theorem readAt_append (a b c : Bytes) {off n : ℕ} (ho : off = a.length) (hn : n = b.length) :
    readAt (a ++ b ++ c) off n = b := by
  subst ho hn
  simp [readAt, List.take_left']

/-- A write over the last section of a file that may run past its end. -/
theorem writeAt_tail (a b c : Bytes) {off : ℕ} (ho : off = a.length) (hb : c.length ≤ b.length) :
    writeAt (a ++ c) off b = a ++ b := by
  subst ho
  simp [writeAt, List.drop_append, List.take_left', hb]

end MetricStore.Common
