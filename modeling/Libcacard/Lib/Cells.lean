import Libcacard.Lib.Memory

/-!
# Arrays

An array has a fixed number of cells, which hold nothing until they are written. To read such a
cell, or to go outside the array, is a fault. `filled n xs` is an array of `n` cells with `xs` in
the first of them.
-/

namespace Machine

variable {α β : Type}

abbrev Cells (α : Type) := List (Option α)

namespace Cells

def alloc (n : ℕ) : Cells α := List.replicate n none

def read (cells : Cells α) (i : ℕ) : Except Fault α :=
  match cells[i]? with
  | some (some x) => .ok x
  | some none => .error .badAddress
  | none => .error .outOfBounds

def write (c : Cells α) (i : ℕ) (x : α) : Except Fault (Cells α) :=
  if i < c.length then .ok (c.set i (some x)) else .error .outOfBounds

/-- `memmove` of `n` cells. -/
def move (c : Cells α) (dst src n : ℕ) : Except Fault (Cells α) :=
  if dst + n ≤ c.length ∧ src + n ≤ c.length then .ok (splice c dst ((c.drop src).take n))
  else .error .outOfBounds

def filled (n : ℕ) (xs : List α) : Cells α := xs.map some ++ List.replicate (n - xs.length) none

variable {n i : ℕ} {x : α} {xs : List α}

theorem length_filled (h : xs.length ≤ n) : (filled n xs).length = n := by
  rw [filled, List.length_append, List.length_map, List.length_replicate]
  omega

theorem read_filled (h : xs[i]? = some x) : read (filled n xs) i = .ok x := by
  have hlt : i < (xs.map some).length := by
    rw [List.length_map]
    exact (List.getElem?_eq_some_iff.1 h).1
  rw [read, filled, List.getElem?_append_left hlt, List.getElem?_map, h]
  rfl

/-- What is moved up by one leaves room for another. -/
theorem move_filled (hi : i < xs.length) (hn : xs.length < n) :
    ∃ c, move (filled n xs) (i + 1) i (xs.length - i) = .ok c
      ∧ write c i x = .ok (filled n (xs.take i ++ x :: xs.drop i)) := by
  have hlen : (filled n xs).length = n := length_filled (by omega)
  have hmoved : ((filled n xs).drop i).take (xs.length - i) = (xs.drop i).map some := by
    rw [filled, List.drop_append_of_le_length (by rw [List.length_map]; omega),
      List.take_append_of_le_length (by rw [List.length_drop, List.length_map]), ← List.map_drop,
      List.take_of_length_le (by rw [List.length_map, List.length_drop])]
  have hrest : (filled n xs).drop (xs.length + 1) = List.replicate (n - (xs.length + 1)) none := by
    rw [filled, List.drop_append, List.drop_eq_nil_of_le (by rw [List.length_map]; omega),
      List.length_map, List.drop_replicate, List.nil_append]
    congr 1
    omega
  have htake : (filled n xs).take (i + 1) = (xs.take i).map some ++ [some xs[i]] := by
    rw [filled, List.take_append_of_le_length (by rw [List.length_map]; omega), ← List.map_take,
      List.take_succ_eq_append_getElem hi, List.map_append]
    rfl
  have hxs : (xs.take i).length = i := by
    rw [List.length_take]
    omega
  refine ⟨splice (filled n xs) (i + 1) ((xs.drop i).map some), ?_, ?_⟩
  · rw [move, if_pos (by omega), hmoved]
  · rw [splice, List.length_map, List.length_drop, htake,
      show i + 1 + (xs.length - i) = xs.length + 1 by omega, hrest, write, if_pos]
    · rw [List.append_assoc, List.append_assoc, List.set_append_right _ _ (by simp),
        List.length_map, hxs, Nat.sub_self, List.singleton_append, List.set_cons_zero, filled,
        List.map_append, List.map_cons, List.append_assoc, List.cons_append, List.length_append,
        List.length_cons, hxs, List.length_drop,
        show i + (xs.length - i + 1) = xs.length + 1 by omega]
    · simp only [List.length_append, List.length_map, hxs, List.length_singleton,
        List.length_drop, List.length_replicate]
      omega

theorem write_filled (hn : xs.length < n) :
    write (filled n xs) xs.length x = .ok (filled n (xs ++ [x])) := by
  rw [write, if_pos (by rw [length_filled (by omega)]; exact hn), filled,
    List.set_append_right _ _ (by rw [List.length_map]), List.length_map, Nat.sub_self, filled,
    List.length_append, List.length_singleton, List.map_append, List.append_assoc]
  obtain ⟨k, hk⟩ : ∃ k, n - xs.length = k + 1 := ⟨n - xs.length - 1, by omega⟩
  rw [hk, show n - (xs.length + 1) = k by omega, List.replicate_succ, List.set_cons_zero]
  rfl

end Cells

end Machine
