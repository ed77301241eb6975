import Libcacard.Lib.Memory

/-!
# Bytes in and out of the program's buffers

A read at an index outside its buffer is a fault. Numbers of two bytes are little-endian.
-/

namespace Libcacard

open Machine

/-- An array of `n` bytes. -/
abbrev ByteArr (n : ℕ) := {b : Bytes // b.length = n}

/-- `memcpy(b + i, xs, ...)` -/
def ByteArr.write {n : ℕ} (b : ByteArr n) (i : ℕ) (xs : Bytes) (h : i + xs.length ≤ n) :
    ByteArr n :=
  ⟨splice b.1 i xs, by rw [length_splice (by rw [b.2]; exact h), b.2]⟩

/-- `buf[i]` -/
def readByte (buf : Bytes) (i : ℕ) : Except Fault UInt8 :=
  match buf[i]? with
  | some b => .ok b
  | none => .error .outOfBounds

/-- The `n` bytes of `buf` from `off` on, as a `memcpy` from `buf + off` reads them. -/
def readBytes (buf : Bytes) (off n : ℕ) : Except Fault Bytes :=
  if off + n ≤ buf.length then .ok ((buf.drop off).take n) else .error .outOfBounds

def ushort2lebytes (x : ℕ) : Bytes := [UInt8.ofNat x, UInt8.ofNat (x / 256)]

def lebytes2ushort (lo hi : UInt8) : ℕ := lo.toNat + 256 * hi.toNat

theorem readByte_of_lt {buf : Bytes} {i : ℕ} (h : i < buf.length) :
    readByte buf i = .ok buf[i] := by
  simp [readByte, h]

theorem readByte_append (pre : Bytes) {rest : Bytes} {b : UInt8} {i : ℕ} (h : pre.length = i) :
    readByte (pre ++ b :: rest) i = .ok b := by
  subst h
  simp [readByte]

theorem readBytes_of_le {buf : Bytes} {off n : ℕ} (h : off + n ≤ buf.length) :
    readBytes buf off n = .ok ((buf.drop off).take n) := by
  simp [readBytes, h]

theorem readBytes_append (pre : Bytes) {xs rest : Bytes} {off n : ℕ} (h : pre.length = off)
    (hn : xs.length = n) : readBytes (pre ++ (xs ++ rest)) off n = .ok xs := by
  subst h hn
  rw [readBytes_of_le (by simp)]
  simp

theorem length_ushort2lebytes (x : ℕ) : (ushort2lebytes x).length = 2 := rfl

theorem lebytes2ushort_lt (lo hi : UInt8) : lebytes2ushort lo hi < 65536 := by
  have := lo.toNat_lt
  have := hi.toNat_lt
  unfold lebytes2ushort
  omega

theorem lebytes2ushort_ofNat {x : ℕ} (h : x < 65536) :
    lebytes2ushort (UInt8.ofNat x) (UInt8.ofNat (x / 256)) = x := by
  simp only [lebytes2ushort, UInt8.toNat_ofNat']
  omega

end Libcacard
