import Libcacard.Lib.Run
import Mathlib.Data.List.ReduceOption

/-!
# Queues

A queue is a list that grows at its end and is taken from at its front. In a heap it is a chain of
nodes, each with the address of the next one.
-/

namespace Machine

namespace Fifo

variable {α : Type*}

inductive Op (α : Type*)
  | push (x : α)
  | pop

/-- What the pops give, and what is left in the queue. -/
def run : List α → List (Op α) → List (Option α) × List α
  | xs, [] => ([], xs)
  | xs, .push x :: ops => run (xs ++ [x]) ops
  | xs, .pop :: ops =>
    let (ys, rest) := run xs.tail ops
    (xs.head? :: ys, rest)

def pushed (ops : List (Op α)) : List α :=
  ops.filterMap fun op => match op with
    | .push x => some x
    | .pop => none

theorem run_append : ∀ (xs : List α) (ops ops' : List (Op α)), run xs (ops ++ ops')
    = ((run xs ops).1 ++ (run (run xs ops).2 ops').1, (run (run xs ops).2 ops').2)
  | _, [], _ => rfl
  | xs, .push x :: ops, ops' => run_append (xs ++ [x]) ops ops'
  | xs, .pop :: ops, ops' => by
    rw [List.cons_append, run, run_append xs.tail ops ops']
    rfl

/-- Everything comes out once, in the order in which it went in, or is still there. -/
theorem pushed_eq : ∀ (xs : List α) (ops : List (Op α)),
    xs ++ pushed ops = (run xs ops).1.reduceOption ++ (run xs ops).2
  | xs, [] => List.append_nil xs
  | xs, .push x :: ops => by
    rw [run, ← pushed_eq (xs ++ [x]) ops, List.append_assoc]
    rfl
  | [], .pop :: ops => by
    rw [run, List.head?_nil, List.reduceOption_cons_of_none]
    exact pushed_eq [] ops
  | x :: xs, .pop :: ops => by
    rw [run, List.head?_cons, List.reduceOption_cons_of_some, List.cons_append, List.cons_append]
    exact congrArg (x :: ·) (pushed_eq xs ops)

/-- A machine is a queue when each of its steps is. -/
theorem run_refines {σ ι ο : Type} {step : σ → ι → Except Fault (ο × σ)} {P : σ → ι → Prop}
    {I : σ → List α → Prop} {f : ι → Option (Op α)} {g : ο → Option (Option α)}
    (h : ∀ s xs i, I s xs → P s i → ∃ o s' xs', step s i = .ok (o, s') ∧ I s' xs'
      ∧ run xs (f i).toList = ((g o).toList, xs')) :
    ∀ {s : σ} {xs : List α} {is : List ι}, I s xs → Along step P s is →
      ∃ os s' xs', Machine.run step s is = .ok (os, s') ∧ I s' xs'
        ∧ run xs (is.filterMap f) = (os.filterMap g, xs')
  | s, xs, [], hs, _ => ⟨[], s, xs, rfl, hs, rfl⟩
  | s, xs, i :: is, hs, hP => by
    obtain ⟨o, s₁, xs₁, hstep, hs₁, hfirst⟩ := h s xs i hs hP.1
    obtain ⟨os, s', xs', hrun, hs', hrest⟩ := run_refines h hs₁ (hP.2 o s₁ hstep)
    refine ⟨o :: os, s', xs', run_cons_eq_ok.2 ⟨o, s₁, os, hstep, hrun, rfl⟩, hs', ?_⟩
    have hops : (i :: is).filterMap f = (f i).toList ++ is.filterMap f := by
      cases hf : f i <;> simp [hf]
    have hreplies : (o :: os).filterMap g = (g o).toList ++ os.filterMap g := by
      cases hg : g o <;> simp [hg]
    rw [hops, hreplies, run_append, hfirst, hrest]

end Fifo

namespace Heap

variable {α : Type*}

/-- An address without a cell, which may have had one. -/
def Vacant (h : Heap α) (a : ℕ) : Prop := a ≤ h.length ∧ ¬ ∃ x, h.Holds a x

instance (h : Heap α) (a : ℕ) : Decidable (h.Vacant a) := inferInstanceAs (Decidable (_ ∧ _))

/-- The heap with a new cell at a vacant address. -/
def allocAt (h : Heap α) (a : ℕ) (x : α) : Heap α :=
  if a < h.length then h.set a (some x) else h.alloc x

variable {h : Heap α} {a b : ℕ} {x y : α}

theorem allocAt_holds (ha : h.Vacant a) : (h.allocAt a x).Holds a x := by
  unfold allocAt
  split_ifs with hlt
  · simp [Holds, hlt]
  · obtain rfl : a = h.length := Nat.le_antisymm ha.1 (Nat.le_of_not_lt hlt)
    exact alloc_holds

theorem Holds.allocAt (hb : h.Holds b y) (ha : h.Vacant a) : (h.allocAt a x).Holds b y := by
  unfold Heap.allocAt
  split_ifs
  · refine hb.set_ne ?_
    rintro rfl
    exact ha.2 ⟨y, hb⟩
  · exact hb.alloc

end Heap

structure Node (α : Type*) where
  next : Option ℕ
  item : α

namespace Node

variable {α : Type*}

/-- The address of the first node of `es`. -/
def first (es : List (ℕ × α)) : Option ℕ := es.head?.map Prod.fst

/-- The address of the last node of `es`. -/
def last (es : List (ℕ × α)) : Option ℕ := es.getLast?.map Prod.fst

def Chained (h : Heap (Node α)) : List (ℕ × α) → Prop
  | [] => True
  | e :: es => h.Holds e.1 ⟨first es, e.2⟩ ∧ Chained h es

/-- `p->next = v` -/
def setNext (h : Heap (Node α)) (a : ℕ) (v : Option ℕ) : Except Fault (Heap (Node α)) := do
  let c ← h.read a
  h.write a { c with next := v }

variable {h h' : Heap (Node α)} {es : List (ℕ × α)} {a : ℕ}

theorem setNext_of_holds {c : Node α} {v : Option ℕ} (hc : h.Holds a c) :
    setNext h a v = .ok (h.set a (some { c with next := v })) := by
  simp only [setNext, Heap.read_of_holds hc, ok_bind, Heap.write_of_holds hc]

@[simp] theorem last_concat (es : List (ℕ × α)) (e : ℕ × α) : last (es ++ [e]) = some e.1 := by
  rw [last, List.getLast?_concat]
  rfl

/-- A chain is still there when its cells are. -/
theorem Chained.frame : ∀ {es : List (ℕ × α)}, Chained h es →
    (∀ e ∈ es, ∀ c, h.Holds e.1 c → h'.Holds e.1 c) → Chained h' es
  | [], _, _ => trivial
  | e :: _, hc, hh => ⟨hh e List.mem_cons_self _ hc.1,
    hc.2.frame fun x hx => hh x (List.mem_cons_of_mem _ hx)⟩

theorem Chained.holds : ∀ {es : List (ℕ × α)} {e : ℕ × α}, Chained h es → e ∈ es →
    ∃ c, h.Holds e.1 c
  | _ :: _, _, hc, he => by
    rcases List.mem_cons.1 he with rfl | he
    · exact ⟨_, hc.1⟩
    · exact hc.2.holds he

theorem Chained.set {c : Option (Node α)} (hc : Chained h es) (ha : a ∉ es.map Prod.fst) :
    Chained (h.set a c) es := by
  refine hc.frame fun e he _ hx => hx.set_ne ?_
  rintro rfl
  exact ha (List.mem_map_of_mem he)

theorem Chained.last {t : ℕ} {x : α} : ∀ {l : List (ℕ × α)}, Chained h (l ++ [(t, x)]) →
    h.Holds t ⟨none, x⟩
  | [], hc => hc.1
  | _ :: _, hc => hc.2.last

/-- A node without a next one put behind the last one. -/
theorem Chained.snoc {t : ℕ} {x y : α} : ∀ {l : List (ℕ × α)}, Chained h (l ++ [(t, x)]) →
    ((l ++ [(t, x)]).map Prod.fst ++ [a]).Nodup → h.Holds a ⟨none, y⟩ →
    Chained (h.set t (some ⟨some a, x⟩)) (l ++ [(t, x)] ++ [(a, y)])
  | [], hc, hnd, ha => by
    have hne : t ≠ a := by
      rintro rfl
      simp at hnd
    exact ⟨hc.1.set_same, ha.set_ne hne, trivial⟩
  | e :: l, hc, hnd, ha => by
    obtain ⟨he, hl⟩ := hc
    rw [List.cons_append, List.map_cons, List.cons_append, List.nodup_cons] at hnd
    have hne : t ≠ e.1 := by
      rintro rfl
      exact hnd.1 (by simp)
    have hfirst : first (l ++ [(t, x)] ++ [(a, y)]) = first (l ++ [(t, x)]) := by
      cases l <;> rfl
    have hhead : Heap.Holds (h.set t (some ⟨some a, x⟩)) e.1
        ⟨first (l ++ [(t, x)] ++ [(a, y)]), e.2⟩ := by
      rw [hfirst]
      exact he.set_ne hne
    exact ⟨hhead, hl.snoc hnd.2 ha⟩

end Node

end Machine
