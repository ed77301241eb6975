import Libcacard.Lib.Heap
import Mathlib.Data.List.Induction
import Mathlib.Data.List.Pairwise
import Mathlib.Data.List.Perm.Basic
import Mathlib.Data.List.Sort

/-!
# Insertion behind equals

What is inserted goes before the first that is greater. From a sorted list this makes a sorted one,
in which what compares equal stands in the order of its insertion.
-/

namespace Machine

open Std

variable {α : Type} (cmp : α → α → Ordering)

/-- Where it goes. -/
def stablePlace (x : α) (xs : List α) : ℕ := xs.findIdx fun y => cmp x y = .lt

def stableInsert (xs : List α) (x : α) : List α :=
  xs.take (stablePlace cmp x xs) ++ x :: xs.drop (stablePlace cmp x xs)

def stableSort (xs : List α) : List α := xs.foldl (stableInsert cmp) []

/-- Sorted in ascending order. -/
abbrev Ascending (xs : List α) : Prop := xs.Pairwise fun x y => (cmp x y).isLE

variable {x : α} {xs ys : List α}

theorem stablePlace_le (x : α) (xs : List α) : stablePlace cmp x xs ≤ xs.length :=
  List.findIdx_le_length

theorem stableInsert_perm (xs : List α) (x : α) : (stableInsert cmp xs x).Perm (x :: xs) := by
  have h := @List.perm_middle _ x (xs.take (stablePlace cmp x xs)) (xs.drop (stablePlace cmp x xs))
  rwa [List.take_append_drop] at h

theorem foldl_stableInsert_perm (xs ys : List α) :
    (xs.foldl (stableInsert cmp) ys).Perm (ys ++ xs) := by
  induction xs generalizing ys with
  | nil => rw [List.foldl_nil, List.append_nil]
  | cons x xs ih =>
    rw [List.foldl_cons]
    exact (ih _).trans (((stableInsert_perm cmp ys x).append_right xs).trans List.perm_middle.symm)

variable {cmp}

/-- What stands before its place is not greater. -/
theorem isLE_of_mem_take [TransCmp cmp] {y : α} (hy : y ∈ xs.take (stablePlace cmp x xs)) :
    (cmp y x).isLE := by
  obtain ⟨i, hi, rfl⟩ := List.getElem_of_mem hy
  rw [List.length_take, Nat.lt_min] at hi
  have hnot : cmp x xs[i] ≠ .lt := by
    simpa using List.not_of_lt_findIdx hi.1
  rw [List.getElem_take, ← OrientedCmp.isGE_iff_isLE]
  revert hnot
  cases cmp x xs[i] <;> simp

/-- What stands behind its place in a sorted list is greater. -/
theorem lt_of_mem_drop [TransCmp cmp] (hxs : Ascending cmp xs) {y : α}
    (hy : y ∈ xs.drop (stablePlace cmp x xs)) : cmp x y = .lt := by
  have hlt : stablePlace cmp x xs < xs.length := by
    by_contra h
    rw [List.drop_eq_nil_of_le (Nat.le_of_not_lt h)] at hy
    cases hy
  have hfirst : cmp x xs[stablePlace cmp x xs] = .lt := by
    have := @List.findIdx_getElem _ _ _ hlt
    rwa [decide_eq_true_eq] at this
  have hsorted := hxs.sublist (List.drop_sublist (stablePlace cmp x xs) xs)
  rw [List.drop_eq_getElem_cons hlt] at hy hsorted
  rcases List.mem_cons.1 hy with rfl | hy
  · exact hfirst
  · exact TransCmp.lt_of_lt_of_isLE hfirst (List.rel_of_pairwise_cons hsorted hy)

theorem stableInsert_ascending [TransCmp cmp] (hxs : Ascending cmp xs) (x : α) :
    Ascending cmp (stableInsert cmp xs x) := by
  have hparts := hxs
  rw [Ascending, ← List.take_append_drop (stablePlace cmp x xs) xs, List.pairwise_append] at hparts
  obtain ⟨htake, hdrop, hacross⟩ := hparts
  refine List.pairwise_append.2 ⟨htake, List.pairwise_cons.2 ⟨fun y hy => ?_, hdrop⟩, ?_⟩
  · exact Ordering.isLE_of_eq_lt (lt_of_mem_drop hxs hy)
  · intro y hy z hz
    rcases List.mem_cons.1 hz with rfl | hz
    · exact isLE_of_mem_take hy
    · exact hacross y hy z hz

/-- Among those that compare equal to some value it comes last. -/
theorem stableInsert_filter [TransCmp cmp] (hxs : Ascending cmp xs) (x z : α) :
    (stableInsert cmp xs x).filter (fun y => cmp y z = .eq)
      = (xs ++ [x]).filter fun y => cmp y z = .eq := by
  conv_rhs => rw [← List.take_append_drop (stablePlace cmp x xs) xs]
  simp only [stableInsert, List.filter_append, List.filter_cons, List.filter_nil, List.append_assoc]
  split_ifs with hx
  · have hnil : (xs.drop (stablePlace cmp x xs)).filter (fun y => cmp y z = .eq) = [] := by
      rw [List.filter_eq_nil_iff]
      intro y hy hz
      simp only [decide_eq_true_eq] at hx hz
      have hlt := TransCmp.lt_of_lt_of_eq (lt_of_mem_drop hxs hy) hz
      rw [hx] at hlt
      cases hlt
    rw [hnil, List.nil_append]
  · rw [List.append_nil]

variable (cmp) in
theorem stableSort_spec [TransCmp cmp] (xs : List α) : (stableSort cmp xs).Perm xs
    ∧ Ascending cmp (stableSort cmp xs)
    ∧ ∀ z, (stableSort cmp xs).filter (fun y => cmp y z = .eq)
      = xs.filter fun y => cmp y z = .eq := by
  refine ⟨foldl_stableInsert_perm cmp xs [], ?_⟩
  induction xs using List.reverseRecOn with
  | nil => exact ⟨.nil, fun z => rfl⟩
  | append_singleton xs x ih =>
    rw [stableSort, List.foldl_append]
    refine ⟨stableInsert_ascending ih.1 x, fun z => ?_⟩
    rw [List.foldl_cons, List.foldl_nil]
    refine (stableInsert_filter ih.1 x z).trans ?_
    rw [List.filter_append, List.filter_append]
    exact congrArg (· ++ _) (ih.2 z)

/-- Where nothing compares equal there is one sorted order. -/
theorem stableSort_eq_of_perm [TransCmp cmp] (hne : xs.Pairwise fun x y => cmp x y ≠ .eq)
    (hperm : xs.Perm ys) : stableSort cmp xs = stableSort cmp ys := by
  obtain ⟨hxs, hxsAsc, -⟩ := stableSort_spec cmp xs
  obtain ⟨hys, hysAsc, -⟩ := stableSort_spec cmp ys
  refine (hxs.trans (hperm.trans hys.symm)).eq_of_pairwise ?_ hxsAsc hysAsc
  intro x y hx hy hxy hyx
  by_contra hneq
  have hsymm : Symm fun x y => cmp x y ≠ .eq := ⟨fun _ _ h heq => h (OrientedCmp.eq_symm heq)⟩
  refine hne.forall (hxs.subset hx) (hperm.symm.subset (hys.subset hy)) hneq ?_
  rw [← OrientedCmp.isGE_iff_isLE] at hyx
  revert hxy hyx
  cases cmp x y <;> simp

end Machine
