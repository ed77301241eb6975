import Libcacard.Lib.RefCount

/-!
# Cells that own references

A counted cell may itself hold references to cells of another heap, and gives them back when it
goes. The references the cells of a heap own are a list like any other, and a change to one cell
changes its own part of that list.
-/

namespace Machine.Counted

variable {α ρ : Type*} {h : Heap (Counted α)} {refs refs' : List ℕ} {a : ℕ}

theorem Exact.of_count (he : Exact h refs) (hcount : ∀ b, refs.count b = refs'.count b) :
    Exact h refs' :=
  he.perm (List.perm_iff_count.2 hcount)

section Null

def retainOpt (h : Heap (Counted α)) : Option ℕ → Except Fault (Heap (Counted α))
  | none => .ok h
  | some a => retain h a

def releaseOpt (h : Heap (Counted α)) : Option ℕ → Except Fault (Heap (Counted α))
  | none => .ok h
  | some a => release h a

theorem Exact.retainOpt {o : Option ℕ} (he : Exact h refs) (ho : ∀ a ∈ o, a ∈ refs) :
    ∃ h', retainOpt h o = .ok h' ∧ Exact h' (o.toList ++ refs) := by
  rcases o with _ | a
  · exact ⟨h, rfl, he⟩
  · obtain ⟨h', hr, he', -⟩ := he.retain (ho a rfl)
    exact ⟨h', hr, he'⟩

theorem Exact.releaseOpt {o : Option ℕ} (he : Exact h (o.toList ++ refs)) :
    ∃ h', releaseOpt h o = .ok h' ∧ Exact h' refs := by
  rcases o with _ | a
  · exact ⟨h, rfl, he⟩
  · obtain ⟨h', hr, he', -⟩ := Exact.release he
    exact ⟨h', hr, he'⟩

end Null

/-- The cells that are there hold the items at their places in `xs`. -/
structure Sees (h : Heap (Counted α)) (xs : List α) : Prop where
  length : h.length = xs.length
  item : ∀ a c, h.Holds a c → xs[a]? = some c.item

section Sees

variable {xs : List α} {h' : Heap (Counted α)} {c : Counted α}

theorem Sees.nil : Sees ([] : Heap (Counted α)) [] :=
  ⟨rfl, fun a c hc => by simp [Heap.Holds] at hc⟩

theorem Sees.new (hs : Sees h xs) (x : α) : Sees (Counted.new h x) (xs ++ [x]) := by
  refine ⟨by simp [Counted.new, Heap.alloc, hs.length], fun b d hd => ?_⟩
  rcases Heap.holds_of_alloc hd with rfl | hd
  · obtain rfl := hd.eq Heap.alloc_holds
    rw [hs.length, List.getElem?_concat_length]
  · rw [List.getElem?_append_left (hs.length ▸ hd.lt)]
    exact hs.item b d hd

/-- A cell is written, or goes. -/
theorem Sees.set (hs : Sees h xs) {o : Option (Counted α)} (x : α)
    (ho : ∀ c ∈ o, c.item = x) : Sees (h.set a o) (xs.set a x) := by
  refine ⟨by simp [hs.length], fun b d hd => ?_⟩
  rcases eq_or_ne a b with rfl | hne
  · have hlt : a < xs.length := by
      simpa [hs.length] using hd.lt
    have hd : o = some d := by
      simpa [Heap.Holds, hs.length, hlt] using hd
    rw [List.getElem?_set_self hlt, ho d hd]
  · rw [List.getElem?_set_ne hne]
    exact hs.item b d (Heap.holds_of_set_ne hd hne)

theorem Sees.set_same (hs : Sees h xs) (hc : h.Holds a c) {o : Option (Counted α)}
    (ho : ∀ d ∈ o, d.item = c.item) : Sees (h.set a o) xs := by
  have hset := hs.set (a := a) c.item ho
  obtain ⟨hlt, hget⟩ := List.getElem?_eq_some_iff.1 (hs.item a c hc)
  rwa [← hget, List.set_getElem_self] at hset

theorem Sees.modify (hs : Sees h xs) (hc : h.Holds a c) (f : α → α) :
    Sees (h.set a (some { c with item := f c.item })) (xs.modify a f) := by
  have hset := hs.set (a := a) (o := some { c with item := f c.item }) (f c.item)
    fun d hd => Option.some.inj hd ▸ rfl
  have heq : xs.modify a f = xs.set a (f c.item) := by
    refine List.ext_getElem? fun b => ?_
    have hitem := hs.item a c hc
    rw [List.getElem?_modify, List.getElem?_set]
    split_ifs with h₁ h₂
    · rw [← h₁, hitem]
      rfl
    · rw [List.getElem?_eq_none (h₁ ▸ Nat.not_lt.1 h₂)]
      rfl
    · simp
  rwa [heq]

theorem Sees.retain (hs : Sees h xs) (hr : retain h a = .ok h') : Sees h' xs := by
  obtain ⟨c, hc, hr⟩ := bind_eq_ok.1 hr
  have hc := Heap.read_eq_ok.1 hc
  rw [Heap.write_of_holds hc] at hr
  cases hr
  exact hs.set_same hc fun d hd => Option.some.inj hd ▸ rfl

theorem Sees.release (hs : Sees h xs) (hr : release h a = .ok h') : Sees h' xs := by
  obtain ⟨c, hc, hr⟩ := bind_eq_ok.1 hr
  have hc := Heap.read_eq_ok.1 hc
  split_ifs at hr
  · rw [Heap.write_of_holds hc] at hr
    cases hr
    exact hs.set_same hc fun d hd => Option.some.inj hd ▸ rfl
  · rw [Heap.free_of_holds hc] at hr
    cases hr
    exact hs.set_same hc fun d hd => nomatch hd

theorem Sees.retainOpt {o : Option ℕ} (hs : Sees h xs) (hr : Counted.retainOpt h o = .ok h') :
    Sees h' xs := by
  rcases o with _ | a
  · cases hr
    exact hs
  · exact hs.retain hr

theorem Sees.releaseOpt {o : Option ℕ} (hs : Sees h xs)
    (hr : Counted.releaseOpt h o = .ok h') : Sees h' xs := by
  rcases o with _ | a
  · cases hr
    exact hs
  · exact hs.release hr

end Sees

section Owned

variable (owns : ρ → List ℕ)

def ownedBy : Option (Counted ρ) → List ℕ
  | none => []
  | some c => owns c.item

/-- The references that the cells of a heap hold. -/
def owned (h : Heap (Counted ρ)) : List ℕ := h.flatMap (ownedBy owns)

variable {g g' : Heap (Counted ρ)} {c : Counted ρ}

/-- One cell's part of what is owned, and what is owned when that cell changes or goes. -/
theorem owned_set (hc : g.Holds a c) : ∃ rest, (owned owns g).Perm (owns c.item ++ rest)
    ∧ ∀ o : Option (Counted ρ),
      (owned owns (g.set a o)).Perm (ownedBy owns o ++ rest) := by
  obtain ⟨hlt, hget⟩ := List.getElem?_eq_some_iff.1 hc
  have hsplit : g = g.take a ++ some c :: g.drop (a + 1) := by
    rw [← hget, List.getElem_cons_drop, List.take_append_drop]
  refine ⟨owned owns (g.take a) ++ owned owns (g.drop (a + 1)), ?_, fun o => ?_⟩
  · conv_lhs => rw [hsplit]
    simp only [owned, List.flatMap_append, List.flatMap_cons, ownedBy]
    exact List.perm_append_comm_assoc _ _ _
  · rw [List.set_eq_take_append_cons_drop, if_pos hlt]
    simp only [owned, List.flatMap_append, List.flatMap_cons]
    exact List.perm_append_comm_assoc _ _ _

variable {owns} in
theorem owned_new (x : ρ) : owned owns (Counted.new g x) = owned owns g ++ owns x := by
  simp [owned, ownedBy, Counted.new, Heap.alloc]

variable {owns} in
theorem mem_owned (hc : g.Holds a c) {b : ℕ} (hb : b ∈ owns c.item) : b ∈ owned owns g :=
  List.mem_flatMap.2 ⟨some c, List.mem_of_getElem? hc, hb⟩

theorem owned_retain (hr : retain g a = .ok g') : (owned owns g').Perm (owned owns g) := by
  obtain ⟨c, hc, hr⟩ := bind_eq_ok.1 hr
  have hc := Heap.read_eq_ok.1 hc
  rw [Heap.write_of_holds hc] at hr
  cases hr
  obtain ⟨rest, hall, hset⟩ := owned_set owns hc
  exact (hset _).trans hall.symm

/-- With the last reference to a cell, what it owns is left over. -/
theorem owned_release (hc : g.Holds a c) (hr : release g a = .ok g') :
    (owned owns g).Perm ((if 1 < c.references then [] else owns c.item) ++ owned owns g') := by
  obtain ⟨rest, hall, hset⟩ := owned_set owns hc
  rw [release, Heap.read_of_holds hc, ok_bind] at hr
  split_ifs at hr ⊢
  · rw [Heap.write_of_holds hc] at hr
    cases hr
    rw [List.nil_append]
    exact hall.trans (hset (some { c with references := c.references - 1 })).symm
  · rw [Heap.free_of_holds hc] at hr
    cases hr
    exact hall.trans ((hset none).symm.append_left _)

end Owned

end Machine.Counted
