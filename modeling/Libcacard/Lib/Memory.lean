import Libcacard.Lib.Heap
import Mathlib.Data.Int.ModEq
import Mathlib.Tactic.Ring

/-!
# Byte blocks and machine integers

Memory is a heap of byte blocks; a pointer is a block and an offset into it. A write outside its
block is a fault. `splice b i xs` is `b` with `xs` written over it from `i` on.

A length is a natural number until the code converts it: to `int`, which keeps the low 32 bits
as a signed number, or to `size_t`, which keeps 64 bits.
-/

namespace Machine

abbrev Bytes := List UInt8

/-- The value a conversion to a 32-bit `int` gives. -/
def toInt32 (n : ℤ) : ℤ := n.bmod (2 ^ 32)

/-- The value a conversion to a 64-bit `size_t` gives. -/
def toSize (n : ℤ) : ℕ := (n % 2 ^ 64).toNat

theorem toInt32_of_lt {n : ℤ} (h0 : -2 ^ 31 ≤ n) (h : n < 2 ^ 31) : toInt32 n = n := by
  simp only [toInt32, Int.bmod_def]
  split <;> omega

theorem toInt32_le (n : ℤ) : toInt32 n < 2 ^ 31 := by
  simp only [toInt32, Int.bmod_def]
  split <;> omega

theorem le_toInt32 (n : ℤ) : -2 ^ 31 ≤ toInt32 n := by
  simp only [toInt32, Int.bmod_def]
  split <;> omega

theorem toInt32_emod (n : ℤ) : ∃ k : ℤ, n = toInt32 n + k * 2 ^ 32 := by
  refine ⟨if n % 4294967296 < 2147483648 then n / 4294967296 else n / 4294967296 + 1, ?_⟩
  simp only [toInt32, Int.bmod_def]
  have := Int.emod_add_mul_ediv n 4294967296
  split <;> split <;> omega

theorem toSize_of_lt {n : ℤ} (h0 : 0 ≤ n) (h : n < 2 ^ 64) : toSize n = n.toNat := by
  rw [toSize, Int.emod_eq_of_lt h0 (by omega)]

section Splice

variable {α : Type*}

def splice (b : List α) (i : ℕ) (xs : List α) : List α :=
  b.take i ++ xs ++ b.drop (i + xs.length)

variable {b xs ys : List α} {i : ℕ}

theorem length_splice (h : i + xs.length ≤ b.length) : (splice b i xs).length = b.length := by
  simp only [splice, List.length_append, List.length_take, List.length_drop]
  omega

theorem splice_nil : splice b i [] = b := by
  simp [splice]

theorem splice_splice (h : i + xs.length ≤ b.length) :
    splice (splice b i xs) (i + xs.length) ys = splice b i (xs ++ ys) := by
  have hl : (b.take i ++ xs).length = i + xs.length := by
    simp only [List.length_append, List.length_take]
    omega
  simp only [splice, List.length_append, ← List.append_assoc]
  rw [List.take_left' hl, Nat.add_assoc, List.drop_append, hl, List.drop_drop,
    List.drop_eq_nil_of_le (by omega), List.nil_append]
  congr 2
  omega

/-- Writing from the front over the whole of a list leaves what was written. -/
theorem splice_whole (h : xs.length = b.length) : splice b 0 xs = xs := by
  simp [splice, h]

theorem splice_append_left {c : List α} (h : c.length = i) :
    splice (c ++ b) i xs = c ++ splice b 0 xs := by
  subst h
  simp [splice, List.drop_append]

theorem take_splice (h : i ≤ b.length) : (splice b i xs).take i = b.take i := by
  rw [splice, List.append_assoc, List.take_left' (by simp [h])]

theorem drop_splice (h : i + xs.length ≤ b.length) {j : ℕ} (hj : i + xs.length ≤ j) :
    (splice b i xs).drop j = b.drop j := by
  have hl : (b.take i ++ xs).length = i + xs.length := by
    simp only [List.length_append, List.length_take]
    omega
  rw [splice, List.drop_append, hl, List.drop_eq_nil_of_le (by omega), List.nil_append,
    List.drop_drop]
  congr 1
  omega

/-- What is written over the same place replaces what was written. -/
theorem splice_over (h : i + xs.length ≤ b.length) (hlen : ys.length = xs.length) :
    splice (splice b i xs) i ys = splice b i ys := by
  rw [splice, take_splice (by omega), drop_splice h (by omega)]
  rfl

end Splice

structure Ptr where
  block : ℕ
  off : ℕ
  deriving DecidableEq, Repr

def Ptr.add (p : Ptr) (n : ℕ) : Ptr := ⟨p.block, p.off + n⟩

@[simp] theorem Ptr.add_block (p : Ptr) (n : ℕ) : (p.add n).block = p.block := rfl
@[simp] theorem Ptr.add_off (p : Ptr) (n : ℕ) : (p.add n).off = p.off + n := rfl

theorem Ptr.add_zero (p : Ptr) : p.add 0 = p := rfl

theorem Ptr.add_add (p : Ptr) (m n : ℕ) : (p.add m).add n = p.add (m + n) := by
  simp [Ptr.add, Nat.add_assoc]

abbrev Memory := Heap Bytes

namespace Memory

/-- `malloc`: what a fresh block holds is not specified, and nothing below reads it. -/
def malloc (m : Memory) (n : ℕ) : Memory × Ptr := (Heap.alloc m (List.replicate n 0), ⟨m.length, 0⟩)

def store (m : Memory) (p : Ptr) (xs : Bytes) : Except Fault Memory :=
  match Heap.read m p.block with
  | .ok b => if p.off + xs.length ≤ b.length then
      Heap.write m p.block (splice b p.off xs) else .error .outOfBounds
  | .error e => .error e

/-- The distance from `q` to `p`, defined within one block only. -/
def diff (p q : Ptr) : Except Fault ℤ :=
  if p.block = q.block then .ok ((p.off : ℤ) - q.off) else .error .badAddress

theorem diff_add (p : Ptr) (n : ℕ) : diff (p.add n) p = .ok n := by
  simp [diff]

/-- `m` with `xs` written at `p`. -/
def stored (m : Memory) (p : Ptr) (b xs : Bytes) : Memory :=
  m.set p.block (some (splice b p.off xs))

variable {m : Memory} {p : Ptr} {b xs ys : Bytes}

theorem store_eq (hb : Heap.Holds m p.block b) (h : p.off + xs.length ≤ b.length) :
    store m p xs = .ok (stored m p b xs) := by
  simp only [store, Heap.read_of_holds hb, h, if_true, Heap.write_of_holds hb, stored]

theorem store_eq_ok {m' : Memory} (hb : Heap.Holds m p.block b) (h : store m p xs = .ok m') :
    p.off + xs.length ≤ b.length ∧ m' = stored m p b xs := by
  simp only [store, Heap.read_of_holds hb] at h
  split_ifs at h with hle
  rw [Heap.write_of_holds hb, Except.ok.injEq] at h
  exact ⟨hle, h.symm⟩

theorem stored_holds (xs : Bytes) (hb : Heap.Holds m p.block b) :
    Heap.Holds (stored m p b xs) p.block (splice b p.off xs) :=
  hb.set_same

theorem stored_nil (hb : Heap.Holds m p.block b) : stored m p b [] = m := by
  unfold Heap.Holds at hb
  rw [stored, splice_nil]
  apply List.ext_getElem?
  intro i
  rcases eq_or_ne p.block i with rfl | hne
  · rw [List.getElem?_set_self (Heap.Holds.lt hb), hb]
  · rw [List.getElem?_set_ne hne]

theorem stored_stored (h : p.off + xs.length ≤ b.length) :
    stored (stored m p b xs) (p.add xs.length) (splice b p.off xs) ys = stored m p b (xs ++ ys) := by
  simp only [stored, Ptr.add_block, Ptr.add_off, List.set_set, splice_splice h]

end Memory

end Machine
