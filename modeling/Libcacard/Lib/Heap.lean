import Mathlib.Data.List.Basic
import Mathlib.Tactic.Common

/-!
# A heap of cells

A cell is named by its address, the number of cells allocated before it. A freed cell is `none`,
and reading, writing or freeing it is a fault. `alloc` never hands its address out again; what
`allocAt` of a queue's heap puts there makes it a live cell again.
-/

namespace Machine

/-- What stops a C program without an answer. -/
inductive Fault
  | assertion
  | nullPointer
  | badAddress
  | outOfBounds
  | overflow
  | diverges
  deriving DecidableEq, Repr

section Bind

universe u

variable {α β : Type u} {x : Except Fault α} {f : α → Except Fault β} {a : α} {b : β}

theorem bind_eq_ok : (x >>= f) = .ok b ↔ ∃ a, x = .ok a ∧ f a = .ok b := by
  cases x <;> simp [bind, Except.bind]

@[simp] theorem ok_bind : ((.ok a : Except Fault α) >>= f) = f a := rfl

@[simp] theorem error_bind {e : Fault} : ((.error e : Except Fault α) >>= f) = .error e := rfl

@[simp] theorem pure_eq : (pure a : Except Fault α) = .ok a := rfl

/-- What `x` gives is good, if it gives anything. -/
def Always (P : α → Prop) (x : Except Fault α) : Prop := ∀ a, x = .ok a → P a

variable {P : α → Prop} {Q : β → Prop}

theorem always_ok (h : P a) : Always P (.ok a) := by
  rintro _ ⟨⟩
  exact h

theorem always_error {e : Fault} : Always P (.error e) := fun _ h => nomatch h

theorem always_ite {p : Prop} [Decidable p] {y : Except Fault α} (hx : Always P x)
    (hy : Always P y) : Always P (if p then x else y) := by
  split_ifs
  · exact hx
  · exact hy

theorem Always.bind (hx : Always P x) (hf : ∀ a, P a → Always Q (f a)) : Always Q (x >>= f) := by
  intro b hb
  obtain ⟨a, ha, hfa⟩ := bind_eq_ok.1 hb
  exact hf a (hx a ha) b hfa

theorem always_bind (hf : ∀ a, Always Q (f a)) : Always Q (x >>= f) :=
  Always.bind (P := fun _ => True) (fun _ _ => trivial) fun a _ => hf a

/-- `x` gives something, and that is good. -/
def Gives (P : α → Prop) (x : Except Fault α) : Prop := ∃ a, x = .ok a ∧ P a

theorem gives_ok (h : P a) : Gives P (.ok a) := ⟨a, rfl, h⟩

theorem Gives.bind (hx : Gives P x) (hf : ∀ a, P a → Gives Q (f a)) : Gives Q (x >>= f) := by
  obtain ⟨a, rfl, ha⟩ := hx
  exact hf a ha

theorem Gives.imp {P' : α → Prop} (hx : Gives P x) (h : ∀ a, P a → P' a) : Gives P' x := by
  obtain ⟨a, rfl, ha⟩ := hx
  exact ⟨a, rfl, h a ha⟩

end Bind

/-- The cells of one type, by address. -/
abbrev Heap (α : Type*) := List (Option α)

namespace Heap

variable {α : Type*} (h : Heap α)

def read (a : ℕ) : Except Fault α :=
  match h[a]? with
  | some (some x) => .ok x
  | _ => .error .badAddress

def write (a : ℕ) (x : α) : Except Fault (Heap α) :=
  match h[a]? with
  | some (some _) => .ok (h.set a (some x))
  | _ => .error .badAddress

/-- The heap with a new cell, whose address is `h.length`. -/
def alloc (x : α) : Heap α := h ++ [some x]

def free (a : ℕ) : Except Fault (Heap α) :=
  match h[a]? with
  | some (some _) => .ok (h.set a none)
  | _ => .error .badAddress

/-- The cell at `a` is allocated and holds `x`. -/
def Holds (a : ℕ) (x : α) : Prop := h[a]? = some (some x)

variable {h} {a b : ℕ} {x y : α}

instance (h : Heap α) (a : ℕ) : Decidable (∃ x, h.Holds a x) :=
  match hx : h[a]? with
  | some (some x) => .isTrue ⟨x, hx⟩
  | some none | none => .isFalse fun ⟨x, h'⟩ => by rw [Holds, hx] at h'; cases h'

theorem Holds.lt (ha : h.Holds a x) : a < h.length := by
  by_contra hge
  have : h[a]? = none := List.getElem?_eq_none (by omega)
  simp [Holds, this] at ha

theorem Holds.eq (ha : h.Holds a x) (hb : h.Holds a y) : x = y := by
  simpa [Holds] using ha.symm.trans hb

theorem read_of_holds (ha : h.Holds a x) : h.read a = .ok x := by
  simp only [Holds] at ha
  simp [read, ha]

theorem read_eq_ok : h.read a = .ok x ↔ h.Holds a x := by
  refine ⟨fun hr => ?_, read_of_holds⟩
  unfold read at hr
  split at hr
  · cases hr
    assumption
  · cases hr

theorem write_of_holds (ha : h.Holds a x) : h.write a y = .ok (h.set a (some y)) := by
  simp only [Holds] at ha
  simp [write, ha]

theorem free_of_holds (ha : h.Holds a x) : h.free a = .ok (h.set a none) := by
  simp only [Holds] at ha
  simp [free, ha]

theorem Holds.set_same (ha : h.Holds a x) : Holds (h.set a (some y)) a y := by
  simp [Holds, ha.lt]

theorem Holds.set_ne {c : Option α} (hb : h.Holds b y) (hne : a ≠ b) : Holds (h.set a c) b y := by
  simpa [Holds, List.getElem?_set_ne hne] using hb

theorem Holds.alloc (ha : h.Holds a x) : (h.alloc y).Holds a x := by
  have hlt := ha.lt
  simpa only [Holds, Heap.alloc, List.getElem?_append_left hlt] using ha

theorem holds_of_alloc (hb : (h.alloc y).Holds b x) : b = h.length ∨ h.Holds b x := by
  unfold Holds Heap.alloc at hb
  rcases Nat.lt_trichotomy b h.length with hlt | rfl | hgt
  · rw [List.getElem?_append_left hlt] at hb
    exact .inr hb
  · exact .inl rfl
  · rw [List.getElem?_eq_none (by simp only [List.length_append, List.length_singleton]; omega)]
      at hb
    cases hb

theorem alloc_holds : (h.alloc x).Holds h.length x := by
  simp [Holds, Heap.alloc]

theorem not_holds_free : ¬ Holds (h.set a none) a x := by
  by_cases ha : a < h.length <;> simp [Holds, ha]

theorem holds_of_set_ne {c : Option α} (hb : Holds (h.set a c) b y) (hne : a ≠ b) :
    h.Holds b y := by
  simpa [Holds, List.getElem?_set_ne hne] using hb

end Heap

end Machine
