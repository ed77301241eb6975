import Libcacard.DataObjects

/-!
# Reading a data object uses a destroyed handle just if it is the first

The object that is read is taken out of the list, and then what is linked to the first object is
destroyed. Taken out itself, the first object is linked to nothing, and it is the one destroyed.
-/

namespace Libcacard

open Machine Link

variable {nss : GenericObjects} {h h' : ObjectHeap} {label : Bytes}
  {es l rest : List (ℕ × Pk11GenericObject)} {a : ℕ} {x : Pk11GenericObject}

section Finding

theorem labelledValue_unreadable {objs : List Pk11GenericObject} (hx : x.label = none) :
    labelledValue label (x :: objs) = none := by
  rw [labelledValue, List.takeWhile_cons_of_pos (by rw [hx]; rfl), List.all_cons, hx]
  rfl

theorem labelledValue_here {objs : List Pk11GenericObject} (hx : x.label = some label) :
    labelledValue label (x :: objs) = x.value := by
  rw [labelledValue, List.takeWhile_cons_of_neg (by simp [hx]),
    List.find?_cons_of_pos (by simpa using hx)]
  rfl

theorem labelledValue_other {objs : List Pk11GenericObject} {other : Bytes}
    (hx : x.label = some other) (hne : other ≠ label) :
    labelledValue label (x :: objs) = labelledValue label objs := by
  have hother : x.label ≠ some label := by
    rw [hx]
    exact fun heq => hne (Option.some.inj heq)
  rw [labelledValue, List.takeWhile_cons_of_pos (by simpa using hother), List.all_cons, hx,
    List.find?_cons_of_neg (by simpa using hother), Option.isSome_some, Bool.true_and]
  rfl

/-- The search of the model of the card finds the same. -/
theorem findValue_eq_labelledValue (objs : List Pk11GenericObject) :
    findValue label objs = labelledValue label objs := by
  induction objs with
  | nil => rfl
  | cons x objs ih =>
    rw [findValue]
    rcases hx : x.label with _ | other
    · rw [labelledValue_unreadable hx]
    · dsimp only
      split_ifs with heq
      · rw [labelledValue_here (heq ▸ hx)]
      · rw [labelledValue_other hx heq, ih]

/-- The search ends at the first object with the label, or without one. -/
theorem searchObjects_cases (hnss : nss.Lawful) {before : Option ℕ} {fuel : ℕ}
    (hfuel : es.length ≤ fuel) (hl : Linked h before none es) :
    (∃ s, searchObjects nss h label fuel (firstOr none es) = .ok s ∧ (∀ b, s ≠ .found b)
        ∧ labelledValue label (es.map Prod.snd) = none
        ∧ (es.head?.bind (·.2.label)) ≠ some label)
      ∨ ∃ l a x rest, es = l ++ (a, x) :: rest
        ∧ searchObjects nss h label fuel (firstOr none es) = .ok (.found a)
        ∧ labelledValue label (es.map Prod.snd) = x.value
        ∧ ((es.head?.bind (·.2.label)) = some label ↔ l = []) := by
  induction es generalizing before fuel with
  | nil =>
    refine .inl ⟨.absent, ?_, fun b => ObjectSearch.noConfusion, rfl,
      (Option.some_ne_none _).symm⟩
    rw [firstOr, searchObjects]
  | cons e es ih =>
    obtain ⟨fuel, rfl⟩ : ∃ n, fuel = n + 1 := ⟨fuel - 1, by simp at hfuel; omega⟩
    obtain ⟨he, hes⟩ := hl
    have hread := hnss.readRawAttribute .label he
    rw [firstOr, searchObjects, hread, ok_bind, List.map_cons, List.head?_cons, Option.bind_some]
    dsimp only [Pk11GenericObject.attribute]
    rcases hlabel : e.2.label with _ | other
    · exact .inl ⟨.failed, rfl, fun b => ObjectSearch.noConfusion, labelledValue_unreadable hlabel,
        (Option.some_ne_none _).symm⟩
    dsimp only
    by_cases heq : other = label
    · subst heq
      refine .inr ⟨[], e.1, e.2, es, rfl, ?_, labelledValue_here hlabel, by simp⟩
      rw [if_pos rfl]
      rfl
    · have hne : some other ≠ some label := fun h => heq (Option.some.inj h)
      rw [if_neg heq, hnss.getNext he, labelledValue_other hlabel heq]
      rcases ih (by simp at hfuel; omega) hes with
        ⟨s, hs, hmiss, hvalue, -⟩ | ⟨l, a, x, rest, rfl, hs, hvalue, -⟩
      · exact .inl ⟨s, hs, hmiss, hvalue, hne⟩
      · refine .inr ⟨e :: l, a, x, rest, rfl, hs, hvalue, ?_⟩
        simp [heq]

end Finding

section Destroying

theorem destroyObjects_firstOr (hnss : nss.Lawful) (hl : Linked h none none es)
    (hnd : (es.map Prod.fst).Nodup) :
    ∃ h', nss.destroyObjects h (firstOr none es) = .ok h' ∧ Destroyed h h' (es.map Prod.fst) := by
  rcases es with _ | ⟨⟨a, x⟩, es⟩
  · exact ⟨h, hnss.destroyObjects_null h, fun _ ha => absurd ha List.not_mem_nil, fun _ _ => rfl⟩
  · exact hnss.destroyObjects (l := []) hl hnd

/-- A search without a find destroys everything. -/
theorem readsObject_of_missing (hnss : nss.Lawful) (hl : Linked h none none es)
    (hnd : (es.map Prod.fst).Nodup) {s : ObjectSearch}
    (hs : searchObjects nss h label h.length (firstOr none es) = .ok s) (hmiss : ∀ b, s ≠ .found b)
    (hvalue : labelledValue label (es.map Prod.snd) = none) : ReadsObject nss h es label := by
  obtain ⟨h', hdestroy, hgone⟩ := destroyObjects_firstOr hnss hl hnd
  refine ⟨.null, h', ?_, ?_, fun e he => hgone.gone e.1 (List.mem_map_of_mem he)⟩
  · rw [readObjectHandles, hs, ok_bind]
    cases s with
    | found b => exact absurd rfl (hmiss b)
    | absent | failed => simp only [hdestroy, ok_bind, pure_eq]
  · rw [hvalue]
    rfl

theorem gives_value (value : Option Bytes) :
    (value.elim .null ReadObject.ofResult : ReadObject).Gives value := by
  rcases value with _ | value
  · rfl
  · refine ⟨?_, rfl⟩
    change (if value = [] then none else some value).getD [] = value
    split_ifs with hempty
    · exact hempty.symm
    · rfl

/-- An object behind another one outlives the rest. -/
theorem readsObject_of_later (hnss : nss.Lawful) {e : ℕ × Pk11GenericObject}
    (hl : Linked h none none (e :: l ++ (a, x) :: rest))
    (hnd : ((e :: l ++ (a, x) :: rest).map Prod.fst).Nodup)
    (hs : searchObjects nss h label h.length (some e.1) = .ok (.found a))
    (hvalue : labelledValue label ((e :: l ++ (a, x) :: rest).map Prod.snd) = x.value) :
    ReadsObject nss h (e :: l ++ (a, x) :: rest) label := by
  have hnot := not_mem_ends hnd
  obtain ⟨h₁, hunlink, hrest, ha, -⟩ := hnss.unlink hl hnd
  have hnd' : ((e :: l ++ rest).map Prod.fst).Nodup :=
    (List.nodup_cons.1 ((List.perm_middle.map Prod.fst).nodup_iff.1 hnd)).2
  obtain ⟨h₂, hdestroy, hgone⟩ := destroyObjects_firstOr hnss hrest hnd'
  have ha' : h₂.Holds a ⟨none, none, x⟩ := (hgone.frame a hnot).trans ha
  obtain ⟨h₃, hlast, hgone'⟩ := hnss.destroyObject ha'
  refine ⟨x.value.elim .null .ofResult, h₃, ?_, ?_, fun y hy => ?_⟩
  · rw [List.cons_append, firstOr, readObjectHandles, hs, ok_bind]
    have hread := hnss.readRawAttribute .value ha'
    rw [List.cons_append, firstOr] at hdestroy
    simp only [hunlink, hdestroy, hread, hlast, ok_bind, Pk11GenericObject.attribute]
    rcases x.value with _ | value <;> rfl
  · rw [hvalue]
    exact gives_value x.value
  · by_cases hya : y.1 = a
    · rw [hya]
      exact hgone'.gone a (List.mem_singleton_self a)
    · have hmem : y ∈ e :: l ++ rest := by
        rcases List.mem_append.1 hy with hy | hy
        · exact List.mem_append_left _ hy
        · rcases List.mem_cons.1 hy with rfl | hy
          · exact absurd rfl hya
          · exact List.mem_append_right _ hy
      rw [hgone'.frame y.1 (by simpa using hya)]
      exact hgone.gone y.1 (List.mem_map_of_mem hmem)

/-- The first object is destroyed before its value is read. -/
theorem readObjectHandles_first (hnss : nss.Lawful) (hl : Linked h none none ((a, x) :: rest))
    (hnd : (((a, x) :: rest).map Prod.fst).Nodup)
    (hs : searchObjects nss h label h.length (some a) = .ok (.found a)) :
    readObjectHandles nss h (some a) label = .error .badAddress := by
  obtain ⟨h₁, hunlink, -, ha, -⟩ := hnss.unlink (l := []) hl hnd
  have halone : Linked h₁ none none [(a, x)] := ⟨ha, trivial⟩
  obtain ⟨h₂, hdestroy, hgone⟩ := hnss.destroyObjects (l := []) halone (List.pairwise_singleton _ a)
  have hread := hnss.read_destroyed .value (hgone.gone a (List.mem_singleton_self a))
  rw [readObjectHandles, hs, ok_bind]
  simp only [hunlink, hdestroy, hread, ok_bind]
  rfl

theorem readsObject_iff (hnss : nss.Lawful) (hl : Linked h none none es)
    (hnd : (es.map Prod.fst).Nodup) (label : Bytes) :
    ReadsObject nss h es label ↔ (es.head?.bind (·.2.label)) ≠ some label := by
  rcases @searchObjects_cases nss h label es hnss none h.length (hl.length_le hnd) hl with
    ⟨s, hs, hmiss, hvalue, hhead⟩ | ⟨l, a, x, rest, rfl, hs, hvalue, hhead⟩
  · exact ⟨fun _ => hhead, fun _ => readsObject_of_missing hnss hl hnd hs hmiss hvalue⟩
  · rcases l with _ | ⟨e, l⟩
    · refine ⟨fun hreads => ?_, fun hne => absurd (hhead.2 rfl) hne⟩
      obtain ⟨r, h', heq, -⟩ := hreads
      rw [List.nil_append, firstOr, readObjectHandles_first hnss hl hnd hs] at heq
      cases heq
    · refine ⟨fun _ heq => List.cons_ne_nil _ _ (hhead.1 heq), fun _ => ?_⟩
      exact readsObject_of_later hnss hl hnd hs hvalue

end Destroying

section Linked

def destroyLinked (h : ObjectHeap) (a : ℕ) : Except Fault ObjectHeap := do
  let h ← unlink h a
  h.free a

/-- From a handle on, one after the other in one direction. -/
def destroyAlong (dir : Link Pk11GenericObject → Option ℕ) :
    ℕ → ObjectHeap → Option ℕ → Except Fault ObjectHeap
  | _, h, none => .ok h
  | 0, _, some _ => .error .diverges
  | fuel + 1, h, some a => do
    let c ← h.read a
    let h ← destroyLinked h a
    destroyAlong dir fuel h (dir c)

/-- Objects that hold nothing but their links, destroyed from the argument on and then back. -/
def GenericObjects.linked : GenericObjects where
  getNext h a := do return (← h.read a).next
  readRawAttribute h a attr := do return (← h.read a).item.attribute attr
  unlink := Link.unlink
  destroyObjects
    | h, none => .ok h
    | h, some a => do
      let c ← h.read a
      let h' ← destroyAlong Link.next h.length h (some a)
      destroyAlong Link.prev h.length h' c.prev
  destroyObject := destroyLinked

theorem destroyLinked_of_linked (hl : Linked h none none (l ++ (a, x) :: rest))
    (hnd : ((l ++ (a, x) :: rest).map Prod.fst).Nodup) :
    ∃ h', destroyLinked h a = .ok h' ∧ Linked h' none none (l ++ rest) ∧ h'[a]? = some none
      ∧ ∀ b ∉ (l ++ (a, x) :: rest).map Prod.fst, h'[b]? = h[b]? := by
  have hnot := not_mem_ends hnd
  obtain ⟨h₁, hunlink, hrest, ha, hframe⟩ := unlink_of_linked hl hnd
  refine ⟨h₁.set a none, ?_, hrest.set ?_, ?_, fun b hb => ?_⟩
  · rw [destroyLinked, hunlink, ok_bind, Heap.free_of_holds ha]
  · rintro e he rfl
    exact hnot (List.mem_map_of_mem he)
  · rw [List.getElem?_set_self ha.lt]
  · rw [List.getElem?_set_ne, hframe b hb]
    rintro rfl
    exact hb (by simp)

theorem destroyAlong_next {fuel : ℕ} (hfuel : rest.length ≤ fuel)
    (hl : Linked h none none (l ++ rest)) (hnd : ((l ++ rest).map Prod.fst).Nodup) :
    ∃ h', destroyAlong Link.next fuel h (firstOr none rest) = .ok h' ∧ Linked h' none none l
      ∧ (∀ b ∈ rest.map Prod.fst, h'[b]? = some none)
      ∧ ∀ b ∉ (l ++ rest).map Prod.fst, h'[b]? = h[b]? := by
  induction rest generalizing h fuel with
  | nil =>
    rw [List.append_nil] at hl
    exact ⟨h, by rw [firstOr, destroyAlong], hl, fun _ hb => absurd hb List.not_mem_nil,
      fun _ _ => rfl⟩
  | cons e rest ih =>
    obtain ⟨fuel, rfl⟩ : ∃ n, fuel = n + 1 := ⟨fuel - 1, by simp at hfuel; omega⟩
    have hnot := not_mem_ends hnd
    have hnd' : ((l ++ rest).map Prod.fst).Nodup :=
      (List.nodup_cons.1 ((List.perm_middle.map Prod.fst).nodup_iff.1 hnd)).2
    have he := (linked_append.1 hl).2.1
    obtain ⟨h₁, hdestroy, hrest, hgone, hframe⟩ := destroyLinked_of_linked hl hnd
    obtain ⟨h₂, hmore, hl₂, hgone₂, hframe₂⟩ := @ih h₁ fuel (by simp at hfuel; omega) hrest hnd'
    refine ⟨h₂, ?_, hl₂, fun b hb => ?_, fun b hb => ?_⟩
    · rw [firstOr, destroyAlong, Heap.read_of_holds he, ok_bind, hdestroy, ok_bind]
      exact hmore
    · rcases List.mem_cons.1 hb with rfl | hb
      · rw [hframe₂ _ hnot, hgone]
      · exact hgone₂ b hb
    · have hb' : b ∉ (l ++ rest).map Prod.fst := fun h => hb (by
        rw [List.map_append, List.mem_append] at h ⊢
        exact h.imp_right (List.mem_cons_of_mem _))
      rw [hframe₂ b hb', hframe b hb]

theorem destroyAlong_prev {fuel : ℕ} (hfuel : l.length ≤ fuel) (hl : Linked h none none l)
    (hnd : (l.map Prod.fst).Nodup) :
    ∃ h', destroyAlong Link.prev fuel h (lastOr none l) = .ok h'
      ∧ (∀ b ∈ l.map Prod.fst, h'[b]? = some none) ∧ ∀ b ∉ l.map Prod.fst, h'[b]? = h[b]? := by
  induction l using List.reverseRecOn generalizing h fuel with
  | nil =>
    exact ⟨h, by rw [lastOr, destroyAlong], fun _ hb => absurd hb List.not_mem_nil, fun _ _ => rfl⟩
  | append_singleton l e ih =>
    obtain ⟨fuel, rfl⟩ : ∃ n, fuel = n + 1 := ⟨fuel - 1, by simp at hfuel; omega⟩
    have hnot := not_mem_ends hnd
    rw [List.append_nil] at hnot
    have hnd' : (l.map Prod.fst).Nodup := by
      rw [List.map_append, List.nodup_append] at hnd
      exact hnd.1
    have he := (linked_append.1 hl).2.1
    obtain ⟨h₁, hdestroy, hrest, hgone, hframe⟩ := destroyLinked_of_linked hl hnd
    rw [List.append_nil] at hrest
    obtain ⟨h₂, hmore, hgone₂, hframe₂⟩ := @ih h₁ fuel (by simp at hfuel; omega) hrest hnd'
    refine ⟨h₂, ?_, fun b hb => ?_, fun b hb => ?_⟩
    · rw [lastOr_append, lastOr, lastOr, destroyAlong, Heap.read_of_holds he, ok_bind, hdestroy,
        ok_bind]
      exact hmore
    · rw [List.map_append, List.mem_append] at hb
      rcases hb with hb | hb
      · exact hgone₂ b hb
      · obtain rfl : b = e.1 := by simpa using hb
        rw [hframe₂ _ hnot, hgone]
    · have hb' : b ∉ l.map Prod.fst := fun h => hb (by
        rw [List.map_append, List.mem_append]
        exact .inl h)
      rw [hframe₂ b hb', hframe b hb]

theorem GenericObjects.lawful_linked : GenericObjects.linked.Lawful where
  getNext ha := by
    simp only [GenericObjects.linked, Heap.read_of_holds ha, ok_bind, pure_eq]
  readRawAttribute attr ha := by
    simp only [GenericObjects.linked, Heap.read_of_holds ha, ok_bind, pure_eq]
  read_destroyed attr ha := by
    simp only [GenericObjects.linked, Heap.read, ha]
    rfl
  unlink := unlink_of_linked
  destroyObjects_null _ := rfl
  destroyObjects {h l a x rest} hl hnd := by
    have hlen := hl.length_le hnd
    rw [List.length_append, List.length_cons] at hlen
    have ha := (linked_append.1 hl).2.1
    obtain ⟨h₁, hnext, hl₁, hgone₁, hframe₁⟩ :=
      @destroyAlong_next h l ((a, x) :: rest) h.length (by simp; omega) hl hnd
    have hdisj := hnd
    rw [List.map_append, List.nodup_append] at hdisj
    obtain ⟨h₂, hprev, hgone₂, hframe₂⟩ :=
      @destroyAlong_prev h₁ l h.length (by omega) hl₁ hdisj.1
    refine ⟨h₂, ?_, fun b hb => ?_, fun b hb => ?_⟩
    · rw [firstOr] at hnext
      simp only [GenericObjects.linked, Heap.read_of_holds ha, ok_bind, hnext, hprev]
    · rw [List.map_append, List.mem_append] at hb
      rcases hb with hb | hb
      · exact hgone₂ b hb
      · rw [hframe₂ b fun hb' => hdisj.2.2 b hb' b hb rfl, hgone₁ b hb]
    · have hb' : b ∉ l.map Prod.fst := fun h => hb (by
        rw [List.map_append, List.mem_append]
        exact .inl h)
      rw [hframe₂ b hb', hframe₁ b hb]
  destroyObject {h a x} ha := by
    have hl : Linked h none none [(a, x)] := ⟨ha, trivial⟩
    obtain ⟨h', hdestroy, -, hgone, hframe⟩ :=
      @destroyLinked_of_linked h [] [] a x hl (List.pairwise_singleton _ a)
    exact ⟨h', hdestroy, fun b hb => by rw [List.mem_singleton.1 hb, hgone],
      fun b hb => hframe b (by simpa using hb)⟩

/-- Two objects, labelled `A` and `B`. -/
def twoDataObjects : List (ℕ × Pk11GenericObject) :=
  [(0, ⟨some [0x41], some [0x01]⟩), (1, ⟨some [0x42], some [0x02]⟩)]

def twoHandles : ObjectHeap :=
  [some ⟨some 1, none, ⟨some [0x41], some [0x01]⟩⟩, some ⟨none, some 0, ⟨some [0x42], some [0x02]⟩⟩]

theorem readsObject_iff_second :
    ReadsObject GenericObjects.linked twoHandles twoDataObjects [0x42]
      ↔ (twoDataObjects.head?.bind (·.2.label)) ≠ some [0x42] :=
  @readsObject_iff _ twoHandles twoDataObjects GenericObjects.lawful_linked ⟨rfl, rfl, trivial⟩
    (by decide) [0x42]

/-- The first object is read when it has been destroyed. -/
theorem readsObject_first_fails :
    ¬ ReadsObject GenericObjects.linked twoHandles twoDataObjects [0x41] := by
  rintro ⟨r, h', hreads, -⟩
  have hfault : readObjectHandles GenericObjects.linked twoHandles (some 0) [0x41]
      = .error .badAddress := rfl
  rw [show firstOr none twoDataObjects = some 0 from rfl, hfault] at hreads
  cases hreads

end Linked

end Libcacard
