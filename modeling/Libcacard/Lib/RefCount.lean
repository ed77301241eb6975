import Libcacard.Lib.Heap
import Mathlib.Data.List.Count
import Mathlib.Tactic.SplitIfs

/-!
# Reference counts

A cell counts the references to it and is freed with the last one. The references are a list of
addresses, in whatever places they are kept: the counts are exact when each cell of the heap counts
how often its address is in the list, and only addresses in the list have a cell.
-/

namespace Machine

structure Counted (α : Type*) where
  references : ℕ
  item : α

namespace Counted

variable {α : Type*}

/-- A fresh cell, to which there is one reference. -/
def new (h : Heap (Counted α)) (x : α) : Heap (Counted α) := h.alloc ⟨1, x⟩

def retain (h : Heap (Counted α)) (a : ℕ) : Except Fault (Heap (Counted α)) := do
  let c ← h.read a
  h.write a { c with references := c.references + 1 }

def release (h : Heap (Counted α)) (a : ℕ) : Except Fault (Heap (Counted α)) := do
  let c ← h.read a
  if 1 < c.references then h.write a { c with references := c.references - 1 } else h.free a

/-- The counts tell the references in `refs`, and no cell outlives them. -/
structure Exact (h : Heap (Counted α)) (refs : List ℕ) : Prop where
  live : ∀ a ∈ refs, ∃ c, h.Holds a c
  counts : ∀ a c, h.Holds a c → a ∈ refs ∧ c.references = refs.count a

variable {h : Heap (Counted α)} {refs refs' : List ℕ} {a : ℕ} {c : Counted α}

theorem Exact.nil : Exact ([] : Heap (Counted α)) [] :=
  ⟨by simp, fun a c hc => by simp [Heap.Holds] at hc⟩

theorem Exact.perm (he : Exact h refs) (hp : refs.Perm refs') : Exact h refs' :=
  ⟨fun a ha => he.live a (hp.mem_iff.2 ha),
    fun a c hc => ⟨hp.mem_iff.1 (he.counts a c hc).1, hp.count_eq a ▸ (he.counts a c hc).2⟩⟩

theorem Exact.lt (he : Exact h refs) (ha : a ∈ refs) : a < h.length := by
  obtain ⟨c, hc⟩ := he.live a ha
  exact hc.lt

/-- A cell changes and nothing else does. -/
theorem Exact.set (he : Exact h refs) (hc : h.Holds a c) {c' : Counted α}
    (hcount : c'.references = refs'.count a) (ha : a ∈ refs')
    (hsame : ∀ b, b ≠ a → refs'.count b = refs.count b) : Exact (h.set a (some c')) refs' := by
  have hmem : ∀ b, b ≠ a → (b ∈ refs' ↔ b ∈ refs) := fun b hb => by
    rw [← List.count_pos_iff, ← List.count_pos_iff, hsame b hb]
  refine ⟨fun b hb => ?_, fun b d hd => ?_⟩
  · rcases eq_or_ne b a with rfl | hne
    · exact ⟨_, hc.set_same⟩
    · obtain ⟨d, hd⟩ := he.live b ((hmem b hne).1 hb)
      exact ⟨d, hd.set_ne hne.symm⟩
  · rcases eq_or_ne b a with rfl | hne
    · obtain rfl := hd.eq hc.set_same
      exact ⟨ha, hcount⟩
    · obtain ⟨hb, hcount⟩ := he.counts b d (Heap.holds_of_set_ne hd hne.symm)
      exact ⟨(hmem b hne).2 hb, hcount.trans (hsame b hne).symm⟩

theorem Exact.new (he : Exact h refs) (x : α) : Exact (new h x) (h.length :: refs) := by
  have hfresh : h.length ∉ refs := fun ha => Nat.lt_irrefl _ (he.lt ha)
  refine ⟨fun b hb => ?_, fun b d hd => ?_⟩
  · rcases List.mem_cons.1 hb with rfl | hb
    · exact ⟨_, Heap.alloc_holds⟩
    · obtain ⟨d, hd⟩ := he.live b hb
      exact ⟨d, hd.alloc⟩
  · rcases Heap.holds_of_alloc hd with rfl | hd
    · obtain rfl := hd.eq Heap.alloc_holds
      exact ⟨List.mem_cons_self, by simp [List.count_eq_zero_of_not_mem hfresh]⟩
    · obtain ⟨hb, hcount⟩ := he.counts b d hd
      exact ⟨List.mem_cons_of_mem _ hb, hcount.trans (List.count_cons_of_ne (Nat.ne_of_gt hd.lt)).symm⟩

/-- A reference is taken to a cell that is there. -/
theorem Exact.retain (he : Exact h refs) (ha : a ∈ refs) :
    ∃ h', retain h a = .ok h' ∧ Exact h' (a :: refs) ∧ h'.length = h.length
      ∧ ∀ b c, h.Holds b c → ∃ c', h'.Holds b c' ∧ c'.item = c.item := by
  obtain ⟨c, hc⟩ := he.live a ha
  have hcount := (he.counts a c hc).2
  refine ⟨h.set a (some { c with references := c.references + 1 }), ?_, ?_, List.length_set, ?_⟩
  · rw [Counted.retain, Heap.read_of_holds hc]
    exact Heap.write_of_holds hc
  · refine he.set hc ?_ List.mem_cons_self fun b hb => List.count_cons_of_ne hb.symm
    rw [List.count_cons_self, hcount]
  · intro b d hd
    rcases eq_or_ne a b with rfl | hne
    · obtain rfl := hd.eq hc
      exact ⟨_, hc.set_same, rfl⟩
    · exact ⟨d, hd.set_ne hne, rfl⟩

/-- A reference is given back, and the cell goes with the last one. -/
theorem Exact.release (he : Exact h (a :: refs)) :
    ∃ h', release h a = .ok h' ∧ Exact h' refs ∧ h'.length = h.length
      ∧ ∀ b ∈ refs, ∀ c, h.Holds b c → ∃ c', h'.Holds b c' ∧ c'.item = c.item := by
  obtain ⟨c, hc⟩ := he.live a List.mem_cons_self
  have hcount := (he.counts a c hc).2
  rw [List.count_cons_self] at hcount
  unfold Counted.release
  rw [Heap.read_of_holds hc, ok_bind]
  by_cases ha : a ∈ refs
  · have hpos := List.count_pos_iff.2 ha
    rw [if_pos (by omega), Heap.write_of_holds hc]
    refine ⟨_, rfl, he.set hc ?_ ha fun b hb => (List.count_cons_of_ne hb.symm).symm,
      List.length_set, fun b _ d hd => ?_⟩
    · simp only
      omega
    · rcases eq_or_ne a b with rfl | hne
      · obtain rfl := hd.eq hc
        exact ⟨_, hc.set_same, rfl⟩
      · exact ⟨d, hd.set_ne hne, rfl⟩
  · have hzero := List.count_eq_zero_of_not_mem ha
    rw [if_neg (by omega), Heap.free_of_holds hc]
    refine ⟨_, rfl, ⟨fun b hb => ?_, fun b d hd => ?_⟩, List.length_set, fun b hb d hd => ?_⟩
    · have hne : a ≠ b := fun heq => ha (heq ▸ hb)
      obtain ⟨d, hd⟩ := he.live b (List.mem_cons_of_mem _ hb)
      exact ⟨d, hd.set_ne hne⟩
    · have hne : a ≠ b := by
        rintro rfl
        exact Heap.not_holds_free hd
      obtain ⟨hb, hcount⟩ := he.counts b d (Heap.holds_of_set_ne hd hne)
      refine ⟨(List.mem_cons.1 hb).resolve_left hne.symm, ?_⟩
      rw [hcount, List.count_cons_of_ne hne]
    · have hne : a ≠ b := fun heq => ha (heq ▸ hb)
      exact ⟨d, hd.set_ne hne, rfl⟩

/-- The item of a cell changes. -/
theorem Exact.setItem (he : Exact h refs) (hc : h.Holds a c) (x : α) :
    Exact (h.set a (some { c with item := x })) refs :=
  he.set hc (he.counts a c hc).2 (he.counts a c hc).1 fun _ _ => rfl

section Items

/-- A cell there is now was there before, with the same item. -/
def Left (h h' : Heap (Counted α)) : Prop :=
  ∀ a c', h'.Holds a c' → ∃ c, h.Holds a c ∧ c.item = c'.item

theorem Left.refl (h : Heap (Counted α)) : Left h h := fun _ c hc => ⟨c, hc, rfl⟩

theorem Left.trans {h₁ h₂ h₃ : Heap (Counted α)} (h : Left h₁ h₂) (h' : Left h₂ h₃) :
    Left h₁ h₃ := by
  intro a c hc
  obtain ⟨c', hc', heq'⟩ := h' a c hc
  obtain ⟨c'', hc'', heq''⟩ := h a c' hc'
  exact ⟨c'', hc'', heq''.trans heq'⟩

theorem left_set {c' : Option (Counted α)} (hc : h.Holds a c)
    (hitem : ∀ d, c' = some d → d.item = c.item) : Left h (h.set a c') := by
  intro b d hd
  rcases eq_or_ne a b with rfl | hne
  · have hset : (h.set a c')[a]? = some c' := List.getElem?_set_self hc.lt
    have hcell : c' = some d := Option.some.inj (hset.symm.trans hd)
    exact ⟨c, hc, (hitem d hcell).symm⟩
  · exact ⟨d, Heap.holds_of_set_ne hd hne, rfl⟩

theorem left_retain {h' : Heap (Counted α)} (hr : retain h a = .ok h') : Left h h' := by
  obtain ⟨c, hc, hw⟩ := bind_eq_ok.1 hr
  have hc := Heap.read_eq_ok.1 hc
  rw [Heap.write_of_holds hc] at hw
  obtain rfl := Except.ok.inj hw
  exact left_set hc fun d hd => by rw [← Option.some.inj hd]

theorem left_release {h' : Heap (Counted α)} (hr : release h a = .ok h') : Left h h' := by
  obtain ⟨c, hc, hw⟩ := bind_eq_ok.1 hr
  have hc := Heap.read_eq_ok.1 hc
  split_ifs at hw
  · rw [Heap.write_of_holds hc] at hw
    obtain rfl := Except.ok.inj hw
    exact left_set hc fun d hd => by rw [← Option.some.inj hd]
  · rw [Heap.free_of_holds hc] at hw
    obtain rfl := Except.ok.inj hw
    exact left_set hc fun d hd => by cases hd

end Items

end Counted

end Machine
