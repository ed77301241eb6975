import Libcacard.Lib.Heap
import Mathlib.Data.List.Perm.Subperm

/-!
# Doubly linked lists

A list in a heap is described by its links in order, each with its address and its item. `before`
and `after` are what the first link's `prev` and the last link's `next` point to.
-/

namespace Machine

structure Link (α : Type*) where
  next : Option ℕ
  prev : Option ℕ
  item : α

namespace Link

variable {α : Type*}

/-- The address of the first link of `es`, or what follows it. -/
def firstOr (after : Option ℕ) : List (ℕ × α) → Option ℕ
  | [] => after
  | e :: _ => some e.1

/-- The address of the last link of `es`, or what comes before it. -/
def lastOr (before : Option ℕ) : List (ℕ × α) → Option ℕ
  | [] => before
  | e :: es => lastOr (some e.1) es

def Linked (h : Heap (Link α)) (before : Option ℕ) (after : Option ℕ) : List (ℕ × α) → Prop
  | [] => True
  | e :: es => h.Holds e.1 ⟨firstOr after es, before, e.2⟩ ∧ Linked h (some e.1) after es

/-- `p->next = v` -/
def setNext (h : Heap (Link α)) (a : ℕ) (v : Option ℕ) : Except Fault (Heap (Link α)) := do
  let c ← h.read a
  h.write a { c with next := v }

/-- `p->prev = v` -/
def setPrev (h : Heap (Link α)) (a : ℕ) (v : Option ℕ) : Except Fault (Heap (Link α)) := do
  let c ← h.read a
  h.write a { c with prev := v }

variable {h h' : Heap (Link α)} {before after : Option ℕ} {es fs : List (ℕ × α)}

theorem setNext_of_holds {a : ℕ} {c : Link α} {v : Option ℕ} (hc : h.Holds a c) :
    setNext h a v = .ok (h.set a (some { c with next := v })) := by
  simp only [setNext, Heap.read_of_holds hc, ok_bind, Heap.write_of_holds hc]

theorem setPrev_of_holds {a : ℕ} {c : Link α} {v : Option ℕ} (hc : h.Holds a c) :
    setPrev h a v = .ok (h.set a (some { c with prev := v })) := by
  simp only [setPrev, Heap.read_of_holds hc, ok_bind, Heap.write_of_holds hc]

theorem firstOr_append : firstOr after (es ++ fs) = firstOr (firstOr after fs) es := by
  cases es <;> rfl

theorem lastOr_append : ∀ (before : Option ℕ) {es : List (ℕ × α)},
    lastOr before (es ++ fs) = lastOr (lastOr before es) fs
  | _, [] => rfl
  | _, e :: _ => lastOr_append (some e.1)

theorem firstOr_eq_none (h : firstOr none es = none) : es = [] := by
  cases es
  · rfl
  · simp [firstOr] at h

theorem lastOr_ne_none : ∀ {e : ℕ × α} {es : List (ℕ × α)}, lastOr before (e :: es) ≠ none
  | _, [] => by simp [lastOr]
  | _, x :: es => lastOr_ne_none (e := x)

theorem lastOr_mem : ∀ (before : Option ℕ) (e : ℕ × α) (es : List (ℕ × α)),
    ∃ a ∈ (e :: es).map Prod.fst, lastOr before (e :: es) = some a
  | _, e, [] => ⟨e.1, by simp, rfl⟩
  | _, e, x :: es => by
    obtain ⟨a, ha, hlast⟩ := lastOr_mem (some e.1) x es
    exact ⟨a, List.mem_cons_of_mem _ ha, hlast⟩

section Ends

variable {l rest : List (ℕ × α)} {a : ℕ} {x : α}
  (hnd : ((l ++ (a, x) :: rest).map Prod.fst).Nodup)

include hnd

theorem not_mem_ends : a ∉ (l ++ rest).map Prod.fst :=
  (List.nodup_cons.1 ((List.perm_middle.map Prod.fst).nodup_iff.1 hnd)).1

/-- A link is the first one just if none comes before it. -/
theorem firstOr_eq_iff : firstOr none (l ++ (a, x) :: rest) = some a ↔ l = [] := by
  have hnot := not_mem_ends hnd
  rcases l with _ | ⟨e, l⟩
  · simp [firstOr]
  · simp only [List.cons_append, firstOr, Option.some.injEq, reduceCtorEq, iff_false]
    rintro rfl
    simp at hnot

/-- A link is the last one just if none comes after it. -/
theorem lastOr_eq_iff : lastOr none (l ++ (a, x) :: rest) = some a ↔ rest = [] := by
  have hnot := not_mem_ends hnd
  rw [lastOr_append, lastOr.eq_2]
  rcases rest with _ | ⟨e, rest⟩
  · simp [lastOr]
  · obtain ⟨b, hb, hlast⟩ := lastOr_mem (some a) e rest
    simp only [hlast, Option.some.injEq, reduceCtorEq, iff_false]
    rintro rfl
    rw [List.map_append] at hnot
    exact hnot (List.mem_append_right _ hb)

end Ends

theorem linked_append : ∀ {before : Option ℕ} {es : List (ℕ × α)},
    Linked h before after (es ++ fs)
      ↔ Linked h before (firstOr after fs) es ∧ Linked h (lastOr before es) after fs
  | _, [] => by simp [Linked, lastOr]
  | _, e :: es => by
    simp only [List.cons_append, Linked, lastOr, firstOr_append, linked_append,
      and_assoc]

/-- A list is still there when no address of it was written to. -/
theorem Linked.frame (hh : ∀ e ∈ es, h'[e.1]? = h[e.1]?) : ∀ {before : Option ℕ},
    Linked h before after es → Linked h' before after es := by
  induction es with
  | nil => exact fun _ => trivial
  | cons e es ih =>
    rintro before ⟨he, hes⟩
    refine ⟨?_, ih (fun x hx => hh x (List.mem_cons_of_mem _ hx)) hes⟩
    rw [Heap.Holds, hh e (List.mem_cons_self ..)]
    exact he

theorem Linked.holds : ∀ {before : Option ℕ} {es : List (ℕ × α)} {e : ℕ × α},
    Linked h before after es → e ∈ es → ∃ c, h.Holds e.1 c ∧ c.item = e.2
  | _, x :: es, e, hl, he => by
    rcases List.mem_cons.1 he with rfl | he
    · exact ⟨_, hl.1, rfl⟩
    · exact hl.2.holds he

theorem Linked.lt (hl : Linked h before after es) {e : ℕ × α} (he : e ∈ es) : e.1 < h.length := by
  obtain ⟨c, hc, -⟩ := hl.holds he
  exact hc.lt

theorem Linked.set {a : ℕ} {c : Option (Link α)} (hl : Linked h before after es)
    (ha : ∀ e ∈ es, e.1 ≠ a) : Linked (h.set a c) before after es :=
  hl.frame fun e he => List.getElem?_set_ne (ha e he).symm

theorem Linked.alloc {c : Link α} (hl : Linked h before after es) :
    Linked (h.alloc c) before after es :=
  hl.frame fun _ he => List.getElem?_append_left (hl.lt he)

/-- A fresh link put behind the last one. -/
theorem Linked.snoc {l : List (ℕ × α)} {t a : ℕ} {x y : α} (hl : Linked h before none (l ++ [(t, x)]))
    (hnd : ((l ++ [(t, x)]).map Prod.fst).Nodup) (ha : h.Holds a ⟨none, some t, y⟩) (hne : t ≠ a) :
    Linked (h.set t (some ⟨some a, lastOr before l, x⟩)) before none (l ++ [(t, x)] ++ [(a, y)]) := by
  simp only [List.map_append, List.map_cons, List.map_nil, List.nodup_append, List.mem_map,
    List.mem_singleton] at hnd
  obtain ⟨hinit, hlast⟩ := linked_append.1 hl
  rw [List.append_assoc, linked_append]
  refine ⟨hinit.set fun e he heq => hnd.2.2 e.1 ⟨e, he, rfl⟩ t rfl heq, ?_, ?_, trivial⟩
  · exact hlast.1.set_same
  · exact ha.set_ne hne

/-- A link between two others taken out. -/
theorem Linked.unlink {l rest : List (ℕ × α)} {p a n : ℕ} {x y z : α}
    (hl : Linked h before after (l ++ (p, x) :: (a, y) :: (n, z) :: rest))
    (hnd : ((l ++ (p, x) :: (a, y) :: (n, z) :: rest).map Prod.fst).Nodup) :
    Linked ((h.set p (some ⟨some n, lastOr before l, x⟩)).set n
      (some ⟨firstOr after rest, some p, z⟩)) before after (l ++ (p, x) :: (n, z) :: rest) := by
  simp only [List.map_append, List.map_cons, List.nodup_append, List.nodup_cons, List.mem_cons,
    List.mem_map, not_or] at hnd
  obtain ⟨-, ⟨⟨hpa, hpn, hpr⟩, -, hnr, -⟩, hdisj⟩ := hnd
  obtain ⟨hinit, hp, ha, hn, hrest⟩ := linked_append.1 hl
  rw [linked_append]
  refine ⟨(hinit.set ?_).set ?_, hp.set_same.set_ne (Ne.symm hpn), (hn.set_ne hpn).set_same,
    (hrest.set ?_).set ?_⟩
  · exact fun e he heq => hdisj e.1 ⟨e, he, rfl⟩ p (.inl rfl) heq
  · exact fun e he heq => hdisj e.1 ⟨e, he, rfl⟩ n (.inr (.inr (.inl rfl))) heq
  · exact fun e he heq => hpr ⟨e, he, heq⟩
  · exact fun e he heq => hnr ⟨e, he, heq⟩

section TakingOut

/-- The link at `a` taken out of its list, with its own links cleared. -/
def unlink (h : Heap (Link α)) (a : ℕ) : Except Fault (Heap (Link α)) := do
  let c ← h.read a
  let h ← c.prev.elim (.ok h) (setNext h · c.next)
  let h ← c.next.elim (.ok h) (setPrev h · c.prev)
  h.write a ⟨none, none, c.item⟩

/-- What follows a list is changed in its last link. -/
theorem Linked.setAfter {after' : Option ℕ} (hl : Linked h none after es)
    (hnd : (es.map Prod.fst).Nodup) :
    ∃ h', (lastOr none es).elim (.ok h) (setNext h · after') = .ok h'
      ∧ Linked h' none after' es ∧ ∀ b ∉ es.map Prod.fst, h'[b]? = h[b]? := by
  rcases List.eq_nil_or_concat es with rfl | ⟨l, ⟨a, x⟩, rfl⟩
  · exact ⟨h, rfl, trivial, fun _ _ => rfl⟩
  rw [List.concat_eq_append] at hl hnd ⊢
  obtain ⟨hinit, ha, -⟩ := linked_append.1 hl
  have hset := @setNext_of_holds _ h a _ after' ha
  rw [List.map_append, List.nodup_append] at hnd
  refine ⟨_, by rw [lastOr_append]; exact hset, linked_append.2 ⟨?_, ha.set_same, trivial⟩, ?_⟩
  · exact hinit.set fun e he => hnd.2.2 e.1 (List.mem_map_of_mem he) a (by simp)
  · intro b hb
    rw [List.getElem?_set_ne]
    rintro rfl
    exact hb (by simp)

/-- What comes before a list is changed in its first link. -/
theorem Linked.setBefore {before' : Option ℕ} (hl : Linked h before none es)
    (hnd : (es.map Prod.fst).Nodup) :
    ∃ h', (firstOr none es).elim (.ok h) (setPrev h · before') = .ok h'
      ∧ Linked h' before' none es ∧ ∀ b ∉ es.map Prod.fst, h'[b]? = h[b]? := by
  rcases es with _ | ⟨⟨a, x⟩, rest⟩
  · exact ⟨h, rfl, trivial, fun _ _ => rfl⟩
  obtain ⟨ha, hrest⟩ := hl
  have hset := @setPrev_of_holds _ h a _ before' ha
  rw [List.map_cons, List.nodup_cons] at hnd
  refine ⟨_, hset, ⟨ha.set_same, hrest.set ?_⟩, ?_⟩
  · rintro e he rfl
    exact hnd.1 (List.mem_map.2 ⟨e, he, rfl⟩)
  · intro b hb
    rw [List.getElem?_set_ne]
    rintro rfl
    exact hb (by simp)

theorem unlink_of_linked {l rest : List (ℕ × α)} {a : ℕ} {x : α}
    (hl : Linked h none none (l ++ (a, x) :: rest))
    (hnd : ((l ++ (a, x) :: rest).map Prod.fst).Nodup) :
    ∃ h', unlink h a = .ok h' ∧ Linked h' none none (l ++ rest) ∧ h'.Holds a ⟨none, none, x⟩
      ∧ ∀ b ∉ (l ++ (a, x) :: rest).map Prod.fst, h'[b]? = h[b]? := by
  have hnot := not_mem_ends hnd
  rw [List.map_append, List.mem_append, not_or] at hnot
  rw [List.map_append, List.map_cons, List.nodup_append, List.nodup_cons] at hnd
  obtain ⟨hndl, ⟨-, hndr⟩, hdisj⟩ := hnd
  have hlr : ∀ b ∈ l.map Prod.fst, b ∉ rest.map Prod.fst := fun b hb hb' =>
    hdisj b hb b (List.mem_cons_of_mem _ hb') rfl
  obtain ⟨hinit, ha, hrest⟩ := linked_append.1 hl
  obtain ⟨h₁, hnext, hinit₁, hframe₁⟩ := @Linked.setAfter _ h _ l (firstOr none rest) hinit hndl
  have hrest₁ : Linked h₁ (some a) none rest := hrest.frame fun e he =>
    hframe₁ e.1 fun hb => hlr e.1 hb (List.mem_map_of_mem he)
  obtain ⟨h₂, hprev, hrest₂, hframe₂⟩ := @Linked.setBefore _ h₁ _ rest (lastOr none l) hrest₁ hndr
  have hinit₂ : Linked h₂ none (firstOr none rest) l := hinit₁.frame fun e he =>
    hframe₂ e.1 (hlr e.1 (List.mem_map_of_mem he))
  have ha₂ : h₂.Holds a ⟨firstOr none rest, lastOr none l, x⟩ :=
    (hframe₂ a hnot.2).trans ((hframe₁ a hnot.1).trans ha)
  refine ⟨h₂.set a (some ⟨none, none, x⟩), ?_, ?_, ha₂.set_same, fun b hb => ?_⟩
  · rw [unlink, Heap.read_of_holds ha]
    simp only [ok_bind, hnext, hprev, Heap.write_of_holds ha₂]
  · refine linked_append.2 ⟨hinit₂.set ?_, hrest₂.set ?_⟩
    · rintro e he rfl
      exact hnot.1 (List.mem_map_of_mem he)
    · rintro e he rfl
      exact hnot.2 (List.mem_map_of_mem he)
  · simp only [List.map_append, List.map_cons, List.mem_append, List.mem_cons, not_or] at hb
    rw [List.getElem?_set_ne (Ne.symm hb.2.1), hframe₂ b hb.2.2, hframe₁ b hb.1]

/-- From one first link on there is one list. -/
theorem Linked.unique : ∀ {before before' : Option ℕ} {es fs : List (ℕ × α)},
    Linked h before none es → Linked h before' none fs → firstOr none es = firstOr none fs → es = fs
  | _, _, [], _, _, _, heq => (firstOr_eq_none heq.symm).symm
  | _, _, e :: es, [], _, _, heq => by cases heq
  | _, _, e :: es, f :: fs, hes, hfs, heq => by
    have haddr : e.1 = f.1 := Option.some.inj heq
    have hcell := hes.1
    rw [haddr] at hcell
    have hlink := hcell.eq hfs.1
    rw [Link.mk.injEq] at hlink
    obtain ⟨hnext, -, hitem⟩ := hlink
    rw [Linked.unique hes.2 hfs.2 hnext, Prod.ext haddr hitem]

/-- Links with different addresses are no more than the cells there are. -/
theorem Linked.length_le (hl : Linked h before after es) (hnd : (es.map Prod.fst).Nodup) :
    es.length ≤ h.length := by
  have hsub : es.map Prod.fst ⊆ List.range h.length := by
    intro a ha
    obtain ⟨e, he, rfl⟩ := List.mem_map.1 ha
    exact List.mem_range.2 (hl.lt he)
  simpa using (List.subperm_of_subset hnd hsub).length_le

end TakingOut

end Link

end Machine
