import Libcacard.PcscReaders

/-!
# When the table is that of the readers

A slot that moves up keeps its index, and the reader it belongs to keeps pointing to where it was.
So the table is right just as long as no slot moves: every reader that is deleted was added last.
-/

namespace Libcacard

open Machine

variable {s s' : PcscReaders} {k : ℕ} {v : PcscVReader}

theorem nameOf_eq {pc : PcscContext} {r : Fin capcscMaxReaders} {a : ℕ} {name : Bytes}
    (ha : (pc.readers r).name = some a) (hname : pc.names.Holds a name) :
    pc.nameOf r = some name := by
  have hcell : pc.names[a]? = some (some name) := hname
  rw [PcscContext.nameOf, ha, Option.bind_some, hcell]
  rfl

/-- Reader number `i` is in slot `i`, and no two slots share a name. -/
structure PcscReaders.Aligned (s : PcscReaders) : Prop where
  count : s.context.readerCount = s.vreaders.length
  slot : ∀ i v, s.vreaders[i]? = some v → (v.readerPrivate : ℕ) = i
    ∧ (s.context.readers v.readerPrivate).index = i
    ∧ ∃ a, (s.context.readers v.readerPrivate).name = some a ∧ s.context.names.Holds a v.name
  distinct : ∀ v ∈ s.vreaders, ∀ w ∈ s.vreaders,
    (s.context.readers v.readerPrivate).name = (s.context.readers w.readerPrivate).name →
    v.readerPrivate = w.readerPrivate

theorem PcscReaders.start_aligned : PcscReaders.start.Aligned :=
  ⟨rfl, fun _ _ h => absurd h (by simp [PcscReaders.start]), fun _ h => absurd h List.not_mem_nil⟩

theorem PcscReaders.Aligned.consistent (h : s.Aligned) : s.Consistent := by
  refine ⟨fun r hr => ?_, List.ext_getElem ?_ fun i hi hi' => ?_, fun v hv => ?_⟩
  · rw [h.count] at hr
    obtain ⟨hslot, hindex, -⟩ := h.slot r _ (List.getElem?_eq_getElem hr)
    rwa [Fin.ext hslot] at hindex
  · rw [PcscContext.tableNames, List.length_ofFn, List.length_map, h.count]
  · rw [List.length_map] at hi'
    obtain ⟨hslot, -, a, ha, hname⟩ := h.slot i _ (List.getElem?_eq_getElem hi')
    simp only [PcscContext.tableNames, List.getElem_ofFn, List.getElem_map]
    rw [← nameOf_eq ha hname]
    exact congrArg s.context.nameOf (Fin.ext hslot.symm)
  · obtain ⟨i, hi⟩ := List.mem_iff_getElem?.1 hv
    obtain ⟨hslot, -, a, ha, hname⟩ := h.slot i v hi
    refine ⟨?_, nameOf_eq ha hname⟩
    rw [hslot, h.count]
    exact (List.getElem?_eq_some_iff.1 hi).1

section NewReader

theorem PcscReaders.Aligned.newReader (h : s.Aligned) (name : Bytes) :
    (s.newReader name).2.Aligned := by
  unfold PcscReaders.newReader
  split_ifs with hfull
  · exact h
  dsimp only
  have hne : ∀ v ∈ s.vreaders,
      v.readerPrivate ≠ ⟨s.context.readerCount, s.context.readerCount_lt⟩ := by
    intro v hv heq
    have hlt := (h.consistent.own v hv).1
    rw [heq] at hlt
    exact Nat.lt_irrefl _ hlt
  have hold : ∀ v ∈ s.vreaders, ∃ a, (s.context.readers v.readerPrivate).name = some a
      ∧ a < s.context.names.length := by
    intro v hv
    obtain ⟨i, hi⟩ := List.mem_iff_getElem?.1 hv
    obtain ⟨-, -, a, ha, hname⟩ := h.slot i v hi
    exact ⟨a, ha, hname.lt⟩
  refine ⟨?_, fun i v hi => ?_, fun v hv w hw hvw => ?_⟩
  · rw [List.length_append, ← h.count]
    rfl
  · rcases Nat.lt_trichotomy i s.vreaders.length with hlt | rfl | hgt
    · rw [List.getElem?_append_left hlt] at hi
      obtain ⟨hslot, hindex, a, ha, hname⟩ := h.slot i v hi
      have hkeep := hne v (List.mem_of_getElem? hi)
      simp only [Function.update_of_ne hkeep]
      exact ⟨hslot, hindex, a, ha, hname.alloc⟩
    · rw [List.getElem?_append_right (Nat.le_refl _), Nat.sub_self] at hi
      obtain rfl := Option.some.inj hi
      simp only [Function.update_self]
      exact ⟨h.count, h.count, s.context.names.length, rfl, Heap.alloc_holds⟩
    · rw [List.getElem?_eq_none (by simp only [List.length_append, List.length_singleton]; omega)]
        at hi
      cases hi
  · rcases List.mem_append.1 hv with hv | hv <;> rcases List.mem_append.1 hw with hw | hw
    · simp only [Function.update_of_ne (hne v hv), Function.update_of_ne (hne w hw)] at hvw
      exact h.distinct v hv w hw hvw
    · obtain rfl := List.mem_singleton.1 hw
      obtain ⟨a, ha, hlt⟩ := hold v hv
      simp only [Function.update_of_ne (hne v hv), Function.update_self, ha] at hvw
      exact absurd (Option.some.inj hvw) (Nat.ne_of_lt hlt)
    · obtain rfl := List.mem_singleton.1 hv
      obtain ⟨a, ha, hlt⟩ := hold w hw
      simp only [Function.update_of_ne (hne w hw), Function.update_self, ha] at hvw
      exact absurd (Option.some.inj hvw).symm (Nat.ne_of_lt hlt)
    · rw [List.mem_singleton.1 hv, List.mem_singleton.1 hw]

end NewReader

section ReaderLess

theorem PcscReaders.Aligned.deleteReader_last (h : s.Aligned) (hv : s.vreaders[k]? = some v)
    (hlast : k + 1 = s.vreaders.length) :
    ∃ context, s.context.deleteReaderCb v.readerPrivate = .ok context
      ∧ (⟨context, s.vreaders.eraseIdx k⟩ : PcscReaders).Aligned := by
  obtain ⟨hslot, hindex, a, ha, hname⟩ := h.slot k v hv
  have hk : k < capcscMaxReaders := hslot ▸ v.readerPrivate.isLt
  have hr : (⟨k, hk⟩ : Fin capcscMaxReaders) = v.readerPrivate := Fin.ext hslot.symm
  have hstay : ¬ k < s.context.readerCount - 1 := by
    rw [h.count]
    omega
  have hold : ∀ (i : ℕ) (w : PcscVReader), (s.vreaders.eraseIdx k)[i]? = some w →
      s.vreaders[i]? = some w ∧ w.readerPrivate ≠ v.readerPrivate := by
    intro i w hi
    rw [List.getElem?_eraseIdx] at hi
    split_ifs at hi with hlt
    · refine ⟨hi, fun heq => ?_⟩
      have hw := (h.slot i w hi).1
      rw [heq, hslot] at hw
      omega
    · rw [List.getElem?_eq_none (by omega)] at hi
      cases hi
  unfold PcscContext.deleteReaderCb PcscContext.deleteReader
  rw [hindex, dif_pos hk, hr]
  dsimp only
  rw [ha, PcscContext.gFree, Heap.free_of_holds hname, ok_bind]
  simp only [if_neg hstay]
  refine ⟨_, rfl, ?_, fun i w hi => ?_, fun w hw w' hw' hww' => ?_⟩
  · rw [List.length_eraseIdx_of_lt (by omega), ← h.count]
  · obtain ⟨hi, hne⟩ := hold i w hi
    obtain ⟨hslot', hindex', b, hb, hname'⟩ := h.slot i w hi
    simp only [Function.update_of_ne hne]
    refine ⟨hslot', hindex', b, hb, hname'.set_ne ?_⟩
    rintro rfl
    exact hne (h.distinct w (List.mem_of_getElem? hi) v (List.mem_of_getElem? hv)
      (hb.trans ha.symm))
  · obtain ⟨i, hi⟩ := List.mem_iff_getElem?.1 hw
    obtain ⟨j, hj⟩ := List.mem_iff_getElem?.1 hw'
    obtain ⟨hi, hne⟩ := hold i w hi
    obtain ⟨hj, hne'⟩ := hold j w' hj
    simp only [Function.update_of_ne hne, Function.update_of_ne hne'] at hww'
    exact h.distinct w (List.mem_of_getElem? hi) w' (List.mem_of_getElem? hj) hww'

/-- Wherever a deletion goes, the table is one slot shorter. -/
theorem deleteReader_readerCount {pc pc' : PcscContext} (h : pc.deleteReader k = .ok pc') :
    pc'.readerCount = pc.readerCount - 1 := by
  unfold PcscContext.deleteReader at h
  by_cases hk : k < capcscMaxReaders
  · rw [dif_pos hk] at h
    obtain ⟨names, -, h⟩ := bind_eq_ok.1 h
    obtain rfl := Except.ok.inj h
    rfl
  · rw [dif_neg hk] at h
    cases h

/-- A slot that moved up has the index of the one behind it. -/
theorem deleteReader_moved {pc pc' : PcscContext} (h : pc.deleteReader k = .ok pc')
    (hk : k + 1 < pc.readerCount) (hnext : k + 1 < capcscMaxReaders) :
    pc'.readers ⟨k, Nat.lt_of_succ_lt hnext⟩ = pc.readers ⟨k + 1, hnext⟩ := by
  unfold PcscContext.deleteReader at h
  rw [dif_pos (Nat.lt_of_succ_lt hnext)] at h
  obtain ⟨names, -, h⟩ := bind_eq_ok.1 h
  obtain rfl := Except.ok.inj h
  dsimp only
  rw [if_pos (by omega), PcscContext.moveUp, dif_pos ⟨Nat.le_refl k, hk⟩]
  exact Function.update_of_ne (fun heq => by simp [Fin.ext_iff] at heq) _ _

end ReaderLess

section Run

theorem pcscStep_aligned (s : PcscReaders) (op : PcscOp) (h : s.Aligned) (hop : op.LastOnly s) :
    ∃ o s', pcscStep s op = .ok (o, s') ∧ s'.Aligned := by
  rcases op with name | k
  · exact ⟨_, _, rfl, h.newReader name⟩
  · rcases hv : s.vreaders[k]? with _ | v
    · refine ⟨0, s, ?_, h⟩
      rw [pcscStep, hv]
    · have hlt := (List.getElem?_eq_some_iff.1 hv).1
      obtain ⟨context, hcontext, haligned⟩ := h.deleteReader_last hv (hop hlt)
      refine ⟨0, _, ?_, haligned⟩
      rw [pcscStep, hv]
      dsimp only
      rw [hcontext]
      rfl

/-- The count is that of the readers there are, whatever was deleted. -/
theorem pcscStep_count (s : PcscReaders) (op : PcscOp) (o : ℕ) (s' : PcscReaders)
    (h : s.context.readerCount = s.vreaders.length) (_hop : True)
    (hstep : pcscStep s op = .ok (o, s')) : s'.context.readerCount = s'.vreaders.length := by
  rcases op with name | k
  · have hs' : (s.newReader name).2 = s' := congrArg Prod.snd (Except.ok.inj hstep)
    rw [← hs', PcscReaders.newReader]
    split_ifs
    · exact h
    · rw [List.length_append, ← h]
      rfl
  · rcases hv : s.vreaders[k]? with _ | v
    · rw [pcscStep, hv] at hstep
      obtain ⟨-, rfl⟩ := Prod.mk.inj (Except.ok.inj hstep)
      exact h
    · rw [pcscStep, hv] at hstep
      obtain ⟨context, hcontext, hstep⟩ := bind_eq_ok.1 hstep
      obtain ⟨-, rfl⟩ := Prod.mk.inj (Except.ok.inj hstep)
      rw [List.length_eraseIdx_of_lt (List.getElem?_eq_some_iff.1 hv).1, ← h]
      exact deleteReader_readerCount hcontext

/-- So there is a slot in use for every reader that can be deleted. -/
theorem readerCount_eq {ops : List PcscOp} {os : List ℕ}
    (h : run pcscStep .start ops = .ok (os, s)) : s.context.readerCount = s.vreaders.length :=
  run_invariant (I := fun s => s.context.readerCount = s.vreaders.length) (P := fun _ _ => True)
    pcscStep_count rfl (along_iff.2 fun _ _ _ _ _ _ _ => trivial) h

theorem lastOnly_of_consistent (s : PcscReaders) (op : PcscOp) (o : ℕ) (s' : PcscReaders)
    (h : s.Aligned) (hstep : pcscStep s op = .ok (o, s')) (hs' : s'.Consistent) :
    op.LastOnly s := by
  rcases op with name | k
  · trivial
  intro hlt
  by_contra hlast
  have hv := List.getElem?_eq_getElem hlt
  rw [pcscStep, hv] at hstep
  obtain ⟨context, hcontext, hstep⟩ := bind_eq_ok.1 hstep
  obtain ⟨-, rfl⟩ := Prod.mk.inj (Except.ok.inj hstep)
  obtain ⟨hslot, hindex, -⟩ := h.slot k _ hv
  rw [PcscContext.deleteReaderCb, hindex] at hcontext
  have hnext : k + 1 < s.vreaders.length := by omega
  have hcount := h.count
  have hmax := s.context.readerCount_lt
  have hcount' := deleteReader_readerCount hcontext
  have hmoved := deleteReader_moved hcontext (by omega) (by omega)
  have hk := hs'.index ⟨k, by omega⟩ (by simp only [hcount']; omega)
  simp only [hmoved] at hk
  obtain ⟨hslot', hindex', -⟩ := h.slot (k + 1) _ (List.getElem?_eq_getElem hnext)
  rw [Fin.ext (a := s.vreaders[k + 1].readerPrivate) (b := ⟨k + 1, by omega⟩) hslot'] at hindex'
  omega

/-- The table is right after every call just if each reader that is deleted was added last. -/
theorem consistent_iff (ops : List PcscOp) :
    Safe pcscStep PcscReaders.Consistent .start ops ↔ Along pcscStep
      (fun s op => op.LastOnly s) .start ops :=
  safe_iff (fun _ h => h.consistent) pcscStep_aligned lastOnly_of_consistent ops
    PcscReaders.start_aligned

/-- Readers `a`, `b` and `c`; `a` is deleted, and then `b`, whose slot is now that of `c`. -/
theorem wrongReader_deleted : ∃ os s,
    run pcscStep .start [.newReader [0x61], .newReader [0x62], .newReader [0x63], .deleteReader 0,
      .deleteReader 0] = .ok (os, s)
    ∧ s.vreaders.map (·.name) = [[0x63]] ∧ s.context.tableNames = [some [0x62]]
    ∧ ¬ Safe pcscStep PcscReaders.Consistent .start [.newReader [0x61], .newReader [0x62],
      .newReader [0x63], .deleteReader 0, .deleteReader 0] := by
  refine ⟨_, _, rfl, rfl, rfl, fun h => ?_⟩
  obtain ⟨os, s, hrun, hgood⟩ := h.run
  obtain ⟨-, rfl⟩ := Prod.mk.inj (Except.ok.inj hrun)
  exact absurd hgood.names (by decide)

end Run

end Libcacard
