import Libcacard.Proofs.VReaderList
import Libcacard.VReaderRefs
import Mathlib.Data.List.Nodup

/-!
# Reference counts stay exact

Each function takes and gives back as many references as it adds to the lists, the events and the
callers. The walks along a list end as long as the list is linked, and an entry taken from one end
of a list of two or more would break it.
-/

namespace Libcacard

open Machine Machine.Link

namespace ReaderProgram

variable {s : ReaderProgram} {l : List ℕ}

section References

theorem vreaderReference_exact {r : ℕ} (he : Counted.Exact s.readers l) (hr : r ∈ l) :
    ∃ m, s.vreaderReference (some r) = .ok { s with readers := m }
      ∧ Counted.Exact m (r :: l) := by
  obtain ⟨m, hm, hexact, -⟩ := he.retain hr
  refine ⟨m, ?_, hexact⟩
  rw [vreaderReference, hm]
  rfl

theorem vreaderFree_exact {r : ℕ} (he : Counted.Exact s.readers (r :: l)) :
    ∃ m, s.vreaderFree (some r) = .ok { s with readers := m } ∧ Counted.Exact m l := by
  obtain ⟨m, hm, hexact, -⟩ := he.release
  refine ⟨m, ?_, hexact⟩
  rw [vreaderFree, hm]
  rfl

theorem queueNew_exact (type : VEventType) {r : ℕ} (he : Counted.Exact s.readers l) (hr : r ∈ l) :
    ∃ m, s.queueNew type r = .ok { s with readers := m, queue := s.queue ++ [⟨type, r⟩] }
      ∧ Counted.Exact m (r :: l) := by
  obtain ⟨m, hm, hexact⟩ := vreaderReference_exact he hr
  refine ⟨m, ?_, hexact⟩
  rw [queueNew, veventNew, hm]
  rfl

/-- A reader's own data change. -/
theorem setItem_exact {r : ℕ} (he : Counted.Exact s.readers l) (hr : r ∈ l)
    (f : VReaderData → VReaderData) : ∃ c m, s.readers.read r = .ok c
      ∧ s.readers.write r { c with item := f c.item } = .ok m ∧ Counted.Exact m l := by
  obtain ⟨c, hc⟩ := he.live r hr
  exact ⟨c, _, Heap.read_of_holds hc, Heap.write_of_holds hc, he.setItem hc _⟩

end References

section Walks

variable {before : Option ℕ}

theorem next_holds {a : ℕ} {c : VReaderListEntry ℕ} (hc : s.entries.Holds a c) :
    s.next a = .ok c.next := by
  rw [next, Heap.read_of_holds hc]
  rfl

theorem vreaderListGetReader_exact {a r : ℕ} {n p : Option ℕ}
    (hc : s.entries.Holds a ⟨n, p, r⟩) (he : Counted.Exact s.readers l) (hr : r ∈ l) :
    ∃ m, s.vreaderListGetReader a = .ok ({ s with readers := m }, r)
      ∧ Counted.Exact m (r :: l) := by
  obtain ⟨m, hm, hexact⟩ := vreaderReference_exact he hr
  refine ⟨m, ?_, hexact⟩
  rw [vreaderListGetReader, Heap.read_of_holds hc, ok_bind, VReaderListEntry.reader, hm]
  rfl

theorem listEntryDelete_exact {a r : ℕ} {n p : Option ℕ} (hc : s.entries.Holds a ⟨n, p, r⟩)
    (he : Counted.Exact s.readers (r :: l)) :
    ∃ m, s.listEntryDelete (some a) = .ok { s with readers := m, entries := s.entries.set a none }
      ∧ Counted.Exact m l := by
  obtain ⟨m, hm, hexact⟩ := vreaderFree_exact he
  refine ⟨m, ?_, hexact⟩
  rw [listEntryDelete, Heap.read_of_holds hc, ok_bind, VReaderListEntry.reader, hm, ok_bind,
    Heap.free_of_holds hc]
  rfl

/-- Deleting a list gives back the references of its entries. -/
theorem listDelete_exact : ∀ {c : List (ℕ × ℕ)} {before : Option ℕ} {fuel : ℕ}
    {s : ReaderProgram}, Linked s.entries before none c → (c.map Prod.fst).Nodup →
      c.length ≤ fuel → Counted.Exact s.readers (c.map Prod.snd ++ l) →
      ∃ m h, listDelete fuel s (firstOr none c) = .ok { s with readers := m, entries := h }
        ∧ Counted.Exact m l ∧ ∀ a, a ∉ c.map Prod.fst → h[a]? = s.entries[a]?
  | [], _, fuel, s, _, _, _, he => by
    refine ⟨s.readers, s.entries, ?_, he, fun _ _ => rfl⟩
    rcases fuel <;> rfl
  | e :: c, _, fuel + 1, s, hl, hnd, hf, he => by
    obtain ⟨hnot, hnd⟩ := List.nodup_cons.1 hnd
    obtain ⟨m, hdelete, hexact⟩ := listEntryDelete_exact hl.1 he
    obtain ⟨m', h, hrun, hexact', hframe⟩ := listDelete_exact
      (s := { s with readers := m, entries := s.entries.set e.1 none })
      (hl.2.set fun x hx heq => hnot (heq ▸ List.mem_map_of_mem hx)) hnd
      (Nat.le_of_succ_le_succ hf) hexact
    refine ⟨m', h, ?_, hexact', fun a ha => ?_⟩
    · rw [firstOr.eq_2, listDelete, next_holds hl.1, ok_bind, hdelete, ok_bind, hrun]
    · rw [List.map_cons, List.mem_cons, not_or] at ha
      rw [hframe a ha.2, List.getElem?_set_ne (Ne.symm ha.1)]

/-- A lookup hands out one reference, if it finds a reader. -/
theorem lookup_exact {p : VReaderData → Bool} : ∀ {es : List (ℕ × ℕ)} {before : Option ℕ}
    {fuel : ℕ} {s : ReaderProgram}, Linked s.entries before none es → es.length ≤ fuel →
      (∀ e ∈ es, e.2 ∈ l) → Counted.Exact s.readers l →
      ∃ m r, lookup p fuel s (firstOr none es) = .ok ({ s with readers := m }, r)
        ∧ Counted.Exact m (r.toList ++ l)
  | [], _, fuel, s, _, _, _, he => by
    refine ⟨s.readers, none, ?_, he⟩
    rcases fuel <;> rfl
  | e :: es, _, fuel + 1, s, hl, hf, hmem, he => by
    obtain ⟨hr, hmem⟩ := List.forall_mem_cons.1 hmem
    obtain ⟨m, hget, hexact⟩ := vreaderListGetReader_exact hl.1 he hr
    obtain ⟨c, hc⟩ := hexact.live e.2 List.mem_cons_self
    have hread : Heap.read m e.2 = .ok c := Heap.read_of_holds hc
    rw [firstOr.eq_2, lookup, hget, ok_bind]
    simp only [hread, ok_bind]
    split_ifs
    · exact ⟨m, some e.2, rfl, hexact⟩
    · obtain ⟨m', hfree, hexact'⟩ := vreaderFree_exact (s := { s with readers := m }) hexact
      obtain ⟨m'', r, hrun, hexact''⟩ := lookup_exact (s := { s with readers := m' }) hl.2
        (Nat.le_of_succ_le_succ hf) hmem hexact'
      refine ⟨m'', r, ?_, hexact''⟩
      rw [hfree, ok_bind, next_holds (s := { s with readers := m' }) hl.1, ok_bind, hrun]

/-- A new entry behind those of a list. -/
theorem listEntryNew_queue {es : List (ℕ × ℕ)} {r : ℕ} (hl : Linked s.entries none none es)
    (hnd : (es.map Prod.fst).Nodup) (he : Counted.Exact s.readers l) (hr : r ∈ l) :
    ∃ m h, s.listEntryNew r
        = .ok ({ s with readers := m, entries := s.entries.alloc ⟨none, none, r⟩ },
          s.entries.length)
      ∧ Counted.Exact m (r :: l)
      ∧ vreaderQueue (s.entries.alloc ⟨none, none, r⟩) ⟨firstOr none es, lastOr none es⟩
          s.entries.length
        = .ok (h, ⟨firstOr none (es ++ [(s.entries.length, r)]),
          lastOr none (es ++ [(s.entries.length, r)])⟩)
      ∧ Linked h none none (es ++ [(s.entries.length, r)]) ∧ h.length = s.entries.length + 1
      ∧ ((es ++ [(s.entries.length, r)]).map Prod.fst).Nodup
      ∧ ∀ a < s.entries.length, (∀ e ∈ es, e.1 ≠ a) → h[a]? = s.entries[a]? := by
  obtain ⟨m, hm, hexact⟩ := vreaderReference_exact he hr
  have hfresh : ∀ e ∈ es, e.1 ≠ s.entries.length := fun e he => Nat.ne_of_lt (hl.lt he)
  obtain ⟨h, hq, hl', hlen, hframe⟩ := vreaderQueue_linked (hl.alloc (c := ⟨none, none, r⟩)) hnd
    Heap.alloc_holds hfresh
  refine ⟨m, h, ?_, hexact, hq, hl', ?_, ?_, fun a ha hes => ?_⟩
  · rw [listEntryNew, hm]
    rfl
  · rw [hlen, Heap.alloc, List.length_append, List.length_singleton]
  · rw [List.map_append, List.nodup_append]
    refine ⟨hnd, List.nodup_singleton _, ?_⟩
    rintro a ha b hb heq
    obtain ⟨e, he, rfl⟩ := List.mem_map.1 ha
    exact hfresh e he (heq.trans (List.mem_singleton.1 hb))
  · rw [hframe a (Nat.ne_of_lt ha) hes, Heap.alloc, List.getElem?_append_left ha]

/-- Copying what is left of a list in `h₀` behind the entries `ns` copied so far. -/
theorem copyList_exact {h₀ : Heap (VReaderListEntry ℕ)} : ∀ {es : List (ℕ × ℕ)}
    (ns : List (ℕ × ℕ)) {before : Option ℕ} {fuel : ℕ} {s : ReaderProgram},
    Linked h₀ before none es →
      es.length ≤ fuel → h₀.length ≤ s.entries.length →
      (∀ a < h₀.length, s.entries[a]? = h₀[a]?) → Linked s.entries none none ns →
      (ns.map Prod.fst).Nodup → (∀ e ∈ ns, h₀.length ≤ e.1) → (∀ e ∈ es, e.2 ∈ l) →
      Counted.Exact s.readers (ns.map Prod.snd ++ l) →
      ∃ m h ns', copyList fuel s (firstOr none es) ⟨firstOr none ns, lastOr none ns⟩
          = .ok ({ s with readers := m, entries := h }, ⟨firstOr none ns', lastOr none ns'⟩)
        ∧ Linked h none none ns' ∧ (ns'.map Prod.fst).Nodup ∧ (∀ e ∈ ns', h₀.length ≤ e.1)
        ∧ (∀ a < h₀.length, h[a]? = h₀[a]?) ∧ Counted.Exact m (ns'.map Prod.snd ++ l)
  | [], ns, _, fuel, s, _, _, _, hframe, hns, hnd, hge, _, he => by
    refine ⟨s.readers, s.entries, ns, ?_, hns, hnd, hge, hframe, he⟩
    rcases fuel <;> rfl
  | e :: es, ns, _, fuel + 1, s, hl, hf, hlen, hframe, hns, hnd, hge, hmem, he => by
    obtain ⟨hr, hmem⟩ := List.forall_mem_cons.1 hmem
    have hlt := hl.1.lt
    have hcell : s.entries.Holds e.1 ⟨firstOr none es, _, e.2⟩ := (hframe e.1 hlt).trans hl.1
    obtain ⟨m₁, hget, hexact₁⟩ := vreaderListGetReader_exact hcell he (List.mem_append_right _ hr)
    obtain ⟨m₂, h, hnew, hexact₂, hq, hns', hlen', hnd', hframe'⟩ := listEntryNew_queue
      (s := { s with readers := m₁ }) hns hnd hexact₁ List.mem_cons_self
    obtain ⟨m₃, hfree, hexact₃⟩ := vreaderFree_exact
      (s := { s with readers := m₂, entries := s.entries.alloc ⟨none, none, e.2⟩ }) hexact₂
    have hold : ∀ a < h₀.length, h[a]? = h₀[a]? := fun a ha => by
      rw [hframe' a (by dsimp only; omega) fun x hx heq => by have := hge x hx; omega, hframe a ha]
    have hcell' : h.Holds e.1 ⟨firstOr none es, _, e.2⟩ := (hold e.1 hlt).trans hl.1
    obtain ⟨m', h', ns', hrun, hl', hnd'', hge', hframe'', hexact'⟩ :=
      copyList_exact (ns ++ [(s.entries.length, e.2)])
        (s := { s with readers := m₃, entries := h }) hl.2 (Nat.le_of_succ_le_succ hf)
        (by dsimp only at hlen' ⊢; omega) hold hns' hnd'
        (fun x hx => by
          rcases List.mem_append.1 hx with hx | hx
          · exact hge x hx
          · rw [List.mem_singleton.1 hx]
            exact hlen)
        hmem (hexact₃.perm (by
          rw [List.map_append, List.append_assoc]
          exact List.perm_middle.symm))
    refine ⟨m', h', ns', ?_, hl', hnd'', hge', hframe'', hexact'⟩
    rw [firstOr.eq_2, copyList, hget, ok_bind]
    simp only [hnew, ok_bind, hfree, hq, next_holds (s := { s with readers := m₃, entries := h })
      hcell']
    exact hrun

/-- `vreader_list_get_first` and `vreader_list_get_next` go through the entries in order. -/
theorem entryAt_linked : ∀ {es : List (ℕ × ℕ)} {before : Option ℕ} {n : ℕ},
    Linked s.entries before none es → s.entryAt n (firstOr none es) = .ok (es[n]?.map Prod.fst)
  | [], _, n, _ => by rcases n <;> rfl
  | e :: es, _, 0, _ => rfl
  | e :: es, _, n + 1, hl => by
    rw [firstOr.eq_2, entryAt, next_holds hl.1, ok_bind, entryAt_linked hl.2]
    rfl

end Walks

end ReaderProgram

namespace ReaderSystem

variable {y : ReaderSystem} {es : List (ℕ × ℕ)} {cs : List (List (ℕ × ℕ))}

theorem Lists.head (h : y.Lists es cs) : y.program.list.head = firstOr none es := by
  rw [h.list]

theorem Lists.fuel (h : y.Lists es cs) : es.length ≤ y.program.fuel := by
  have hnd := h.nodup
  rw [List.map_append] at hnd
  exact Nat.le_succ_of_le (h.linked.length_le hnd.of_append_left)

theorem Lists.copy_fuel (h : y.Lists es cs) {c : List (ℕ × ℕ)} (hc : c ∈ cs) :
    (c.map Prod.fst).Nodup ∧ c.length ≤ y.program.fuel := by
  have hnd : (c.map Prod.fst).Nodup := by
    have hnd := h.nodup
    rw [List.map_append] at hnd
    exact hnd.of_append_right.sublist ((List.sublist_flatten_of_mem hc).map _)
  exact ⟨hnd, Nat.le_succ_of_le ((h.copiesLinked c hc).length_le hnd)⟩

/-- The lists are still there when no entry of theirs changed. -/
theorem Lists.frame (h : y.Lists es cs) {y' : ReaderSystem}
    (hlist : y'.program.list = y.program.list)
    (hcopies : y'.copies = y.copies)
    (hframe : ∀ a < y.program.entries.length,
      y'.program.entries[a]? = y.program.entries[a]?) : y'.Lists es cs :=
  ⟨hlist.trans h.list, h.linked.frame fun e he => hframe e.1 (h.linked.lt he),
    hcopies.trans h.copies, fun c hc => (h.copiesLinked c hc).frame fun e he =>
      hframe e.1 ((h.copiesLinked c hc).lt he), h.nodup⟩

theorem Lists.lt (h : y.Lists es cs) {e : ℕ × ℕ} (he : e ∈ es ++ cs.flatten) :
    e.1 < y.program.entries.length := by
  rcases List.mem_append.1 he with he | he
  · exact h.linked.lt he
  · obtain ⟨c, hc, he⟩ := List.mem_flatten.1 he
    exact (h.copiesLinked c hc).lt he

/-- One more copy, of new entries. -/
theorem Lists.snoc (h : y.Lists es cs) {y' : ReaderSystem} {ns : List (ℕ × ℕ)}
    (hlist : y'.program.list = y.program.list)
    (hcopies : y'.copies = y.copies ++ [⟨firstOr none ns, lastOr none ns⟩])
    (hframe : ∀ a < y.program.entries.length, y'.program.entries[a]? = y.program.entries[a]?)
    (hl : Linked y'.program.entries none none ns) (hnd : (ns.map Prod.fst).Nodup)
    (hge : ∀ e ∈ ns, y.program.entries.length ≤ e.1) : y'.Lists es (cs ++ [ns]) := by
  have hold : ({ y' with copies := y.copies } : ReaderSystem).Lists es cs :=
    h.frame hlist rfl hframe
  refine ⟨hold.list, hold.linked, ?_, fun c hc => ?_, ?_⟩
  · rw [hcopies, h.copies, List.map_append, List.map_singleton]
  · rcases List.mem_append.1 hc with hc | hc
    · exact hold.copiesLinked c hc
    · rw [List.mem_singleton.1 hc]
      exact hl
  · rw [List.flatten_append, List.flatten_singleton, ← List.append_assoc, List.map_append,
      List.nodup_append]
    refine ⟨h.nodup, hnd, ?_⟩
    rintro a ha b hb rfl
    obtain ⟨e, he, rfl⟩ := List.mem_map.1 ha
    obtain ⟨x, hx, heq⟩ := List.mem_map.1 hb
    exact absurd (h.lt he) (Nat.not_lt.2 (heq ▸ hge x hx))

/-- A copy the callers have, and the others. -/
theorem Lists.pick (h : y.Lists es cs) {copy : ℕ} (hcopy : copy < y.copies.length) :
    ∃ c ∈ cs, y.copies[copy]? = some ⟨firstOr none c, lastOr none c⟩
      ∧ (es ++ cs.flatten).Perm (c ++ (es ++ (cs.eraseIdx copy).flatten))
      ∧ y.copies.eraseIdx copy
        = (cs.eraseIdx copy).map fun c => ⟨firstOr none c, lastOr none c⟩ := by
  have hlt : copy < cs.length := by
    rw [h.copies, List.length_map] at hcopy
    exact hcopy
  refine ⟨_, List.getElem_mem hlt, ?_, ?_, ?_⟩
  · rw [h.copies, List.getElem?_map, List.getElem?_eq_getElem hlt, Option.map_some]
  · refine (List.Perm.append_left es (List.getElem_cons_eraseIdx_perm hlt).symm.flatten).trans ?_
    rw [List.flatten_cons]
    exact List.perm_append_comm_assoc ..
  · rw [h.copies, List.eraseIdx_map]

/-- The registered list changes, and only its entries and new ones do. -/
theorem Lists.register (h : y.Lists es cs) {y' : ReaderSystem} {es' : List (ℕ × ℕ)}
    (hlist : y'.program.list = ⟨firstOr none es', lastOr none es'⟩)
    (hl : Linked y'.program.entries none none es') (hcopies : y'.copies = y.copies)
    (hframe : ∀ a < y.program.entries.length, a ∉ es.map Prod.fst →
      y'.program.entries[a]? = y.program.entries[a]?)
    (hnd : ((es' ++ cs.flatten).map Prod.fst).Nodup) : y'.Lists es' cs := by
  have hdisj := h.nodup
  rw [List.map_append, List.nodup_append] at hdisj
  refine ⟨hlist, hl, hcopies.trans h.copies, fun c hc => ?_, hnd⟩
  refine (h.copiesLinked c hc).frame fun e he =>
    hframe e.1 ((h.copiesLinked c hc).lt he) fun hes => ?_
  exact hdisj.2.2 e.1 hes e.1 (List.mem_map_of_mem (List.mem_flatten_of_mem hc he)) rfl

/-- A copy goes, and its entries. -/
theorem Lists.erase (h : y.Lists es cs) {y' : ReaderSystem} {copy : ℕ} {c : List (ℕ × ℕ)}
    (hlist : y'.program.list = y.program.list)
    (hperm : (es ++ cs.flatten).Perm (c ++ (es ++ (cs.eraseIdx copy).flatten)))
    (hcopies : y'.copies
      = (cs.eraseIdx copy).map fun c => ⟨firstOr none c, lastOr none c⟩)
    (hframe : ∀ a, a ∉ c.map Prod.fst → y'.program.entries[a]? = y.program.entries[a]?) :
    y'.Lists es (cs.eraseIdx copy) := by
  have hnd := (hperm.map Prod.fst).nodup_iff.1 h.nodup
  rw [List.map_append, List.nodup_append] at hnd
  obtain ⟨-, hnd, hdisj⟩ := hnd
  have hsame : ∀ e ∈ es ++ (cs.eraseIdx copy).flatten,
      y'.program.entries[e.1]? = y.program.entries[e.1]? := fun e he =>
    hframe e.1 fun hc => hdisj e.1 hc e.1 (List.mem_map_of_mem he) rfl
  refine ⟨hlist.trans h.list,
    h.linked.frame fun e he => hsame e (List.mem_append_left _ he), hcopies, fun d hd => ?_, hnd⟩
  exact (h.copiesLinked d (List.mem_of_mem_eraseIdx hd)).frame fun e he =>
    hsame e (List.mem_append_right _ (List.mem_flatten_of_mem hd he))

theorem mem_refs_of_entry {e : ℕ × ℕ} (he : e ∈ es ++ cs.flatten) : e.2 ∈ y.refs es cs := by
  rw [refs, List.append_assoc]
  exact List.mem_append_left _ (List.mem_map_of_mem he)

/-- The readers change, with the references to them. -/
theorem CountsExact.intro {y' : ReaderSystem} {l : List ℕ} (h : y'.Lists es cs)
    (he : Counted.Exact y'.program.readers l) (hcount : ∀ a, l.count a = (y'.refs es cs).count a) :
    y'.CountsExact :=
  ⟨es, cs, h, he.perm (List.perm_iff_count.2 hcount)⟩

theorem start_countsExact : ReaderSystem.start.CountsExact :=
  ⟨[], [], ⟨rfl, trivial, rfl, by simp, by simp⟩, .nil⟩

section Calls

variable (hlists : y.Lists es cs) (hexact : Counted.Exact y.program.readers (y.refs es cs))

include hlists hexact

theorem new_countsExact (name : String) :
    ∃ o y', y.step (.new name) = .ok (o, y') ∧ y'.CountsExact := by
  refine ⟨_, _, rfl, .intro (hlists.frame rfl rfl fun _ _ => rfl) (hexact.new _) fun a => ?_⟩
  simp only [refs, ReaderProgram.vreaderNew, Option.toList_some, List.count_append,
    List.count_cons, List.singleton_append]
  omega

theorem reference_countsExact {reader : Option ℕ} (hproper : y.Proper (.reference reader)) :
    ∃ o y', y.step (.reference reader) = .ok (o, y') ∧ y'.CountsExact := by
  rcases reader with _ | r
  · exact ⟨_, _, rfl, es, cs, hlists, hexact⟩
  · obtain ⟨c, hc⟩ := hproper
    obtain ⟨m, hm, hexact'⟩ := ReaderProgram.vreaderReference_exact hexact (hexact.counts r c hc).1
    refine ⟨(), { y with program := { y.program with readers := m }, held := r :: y.held }, ?_,
      .intro (hlists.frame rfl rfl fun _ _ => rfl) hexact' fun a => ?_⟩
    · rw [step, hm]
      rfl
    · simp only [refs, List.count_append, List.count_cons]
      omega

theorem free_countsExact {reader : Option ℕ} (hproper : y.Proper (.free reader)) :
    ∃ o y', y.step (.free reader) = .ok (o, y') ∧ y'.CountsExact := by
  rcases reader with _ | r
  · exact ⟨_, _, rfl, es, cs, hlists, hexact⟩
  · have hheld := List.perm_cons_erase (show r ∈ y.held from hproper)
    have hperm : (y.refs es cs).Perm (r :: ({ y with held := y.held.erase r }).refs es cs) := by
      refine List.perm_iff_count.2 fun a => ?_
      have := hheld.count_eq a
      simp only [refs, List.count_append, List.count_cons] at this ⊢
      omega
    obtain ⟨m, hm, hexact'⟩ := ReaderProgram.vreaderFree_exact (hexact.perm hperm)
    refine ⟨(), { y with program := { y.program with readers := m }, held := y.held.erase r }, ?_,
      .intro (hlists.frame rfl rfl fun _ _ => rfl) hexact' fun a => rfl⟩
    rw [step, hm]
    rfl

theorem setId_countsExact {r : ℕ} {id : UInt32} (hproper : y.Proper (.setId r id)) :
    ∃ o y', y.step (.setId r id) = .ok (o, y') ∧ y'.CountsExact := by
  obtain ⟨c, hc⟩ := hproper
  obtain ⟨c', m, hread, hwrite, hexact'⟩ := ReaderProgram.setItem_exact hexact
    (hexact.counts r c hc).1 fun x => { x with id := id }
  refine ⟨(), { y with program := { y.program with readers := m } }, ?_,
    .intro (hlists.frame rfl rfl fun _ _ => rfl) hexact' fun a => rfl⟩
  rw [step, ReaderProgram.vreaderSetId, hread, ok_bind, hwrite]
  rfl

theorem insertCard_countsExact {r : ℕ} {hasCard : Bool}
    (hproper : y.Proper (.insertCard r hasCard)) :
    ∃ o y', y.step (.insertCard r hasCard) = .ok (o, y') ∧ y'.CountsExact := by
  obtain ⟨c, hc⟩ := hproper
  have hr := (hexact.counts r c hc).1
  obtain ⟨c', m, hread, hwrite, hexact'⟩ := ReaderProgram.setItem_exact hexact hr
    fun x => { x with hasCard := hasCard }
  obtain ⟨d, hd⟩ := hexact'.live r hr
  have hread' : Heap.read m r = .ok d := Heap.read_of_holds hd
  obtain ⟨m', hqueue, hexact''⟩ := ReaderProgram.queueNew_exact
    (if d.item.hasCard then .cardInsert else .cardRemove) (s := { y.program with readers := m })
    hexact' hr
  refine ⟨(), { y with program := { y.program with
    readers := m'
    queue := y.program.queue ++ [⟨if d.item.hasCard then .cardInsert else .cardRemove, r⟩] } }, ?_,
    .intro (hlists.frame rfl rfl fun _ _ => rfl) hexact'' fun a => ?_⟩
  · simp only [step, ReaderProgram.vreaderInsertCard, hread, ok_bind, hwrite,
      ReaderProgram.vreaderQueueCardEvent, hread', hqueue]
    rfl
  · simp only [refs, List.count_append, List.count_cons, List.map_append, List.map_cons,
      List.map_nil, List.count_nil]
    omega

theorem xfrBytes_countsExact {r : ℕ} (hproper : y.Proper (.xfrBytes r)) :
    ∃ o y', y.step (.xfrBytes r) = .ok (o, y') ∧ y'.CountsExact := by
  obtain ⟨c, hc⟩ := hproper
  refine ⟨(), y, ?_, es, cs, hlists, hexact⟩
  rw [step, ReaderProgram.vreaderXfrBytes, Heap.read_of_holds hc]
  rfl

omit hexact in
/-- A lookup hands out the reader it finds. -/
theorem hand_countsExact {m : Heap VReader} {r : Option ℕ}
    (hm : Counted.Exact m (r.toList ++ y.refs es cs)) :
    ∃ o y', y.hand ({ y.program with readers := m }, r) = .ok (o, y') ∧ y'.CountsExact := by
  refine ⟨_, _, rfl, .intro (hlists.frame rfl rfl fun _ _ => rfl) hm fun a => ?_⟩
  simp only [refs, List.count_append]
  omega

theorem getReaderById_countsExact (id : UInt32) :
    ∃ o y', y.step (.getReaderById id) = .ok (o, y') ∧ y'.CountsExact := by
  unfold step ReaderProgram.vreaderGetReaderById
  dsimp only
  split_ifs
  · exact hand_countsExact hlists hexact
  · obtain ⟨m, r, hrun, hexact'⟩ := ReaderProgram.lookup_exact
      (p := fun r => decide (r.id = id)) hlists.linked hlists.fuel
      (fun e he => mem_refs_of_entry (List.mem_append_left _ he)) hexact
    rw [hlists.head, hrun, ok_bind]
    exact hand_countsExact hlists hexact'

theorem getReaderByName_countsExact (name : String) :
    ∃ o y', y.step (.getReaderByName name) = .ok (o, y') ∧ y'.CountsExact := by
  obtain ⟨m, r, hrun, hexact'⟩ := ReaderProgram.lookup_exact
    (p := fun r => decide (r.name = name)) hlists.linked hlists.fuel
    (fun e he => mem_refs_of_entry (List.mem_append_left _ he)) hexact
  simp only [step, ReaderProgram.vreaderGetReaderByName, hlists.head, hrun, ok_bind]
  exact hand_countsExact hlists hexact'

section Queued

theorem eventNew_countsExact {type : VEventType} {r : ℕ} (hproper : y.Proper (.eventNew type r)) :
    ∃ o y', y.step (.eventNew type r) = .ok (o, y') ∧ y'.CountsExact := by
  obtain ⟨c, hc⟩ := hproper
  obtain ⟨m, hm, hexact'⟩ := ReaderProgram.vreaderReference_exact hexact (hexact.counts r c hc).1
  refine ⟨(), { y with
    program := { y.program with readers := m }, events := y.events ++ [⟨type, r⟩] }, ?_,
    .intro (hlists.frame rfl rfl fun _ _ => rfl) hexact' fun a => ?_⟩
  · rw [step, ReaderProgram.veventNew, hm]
    rfl
  · simp only [refs, List.count_append, List.count_cons, List.map_append, List.map_cons,
      List.map_nil, List.count_nil]
    omega

omit hlists hexact in
/-- An event is among those the callers have, and the rest. -/
theorem count_events {event : ℕ} {e : VEvent} (he : y.events[event]? = some e) (a : ℕ) :
    (y.events.map VEvent.reader).count a
      = ((y.events.eraseIdx event).map VEvent.reader).count a + [e.reader].count a := by
  obtain ⟨hlt, rfl⟩ := List.getElem?_eq_some_iff.1 he
  have := ((List.getElem_cons_eraseIdx_perm hlt).map VEvent.reader).count_eq a
  rw [← this, List.map_cons, List.count_cons, List.count_singleton]

theorem eventQueue_countsExact {event : ℕ} (hproper : y.Proper (.eventQueue event)) :
    ∃ o y', y.step (.eventQueue event) = .ok (o, y') ∧ y'.CountsExact := by
  obtain ⟨e, he⟩ : ∃ e, y.events[event]? = some e := ⟨_, List.getElem?_eq_getElem hproper⟩
  refine ⟨(), { y with
    program := y.program.veventQueueVevent e
    events := y.events.eraseIdx event }, ?_, .intro (hlists.frame rfl rfl fun _ _ => rfl) hexact
    fun a => ?_⟩
  · simp only [step, he]
  · have := count_events he a
    simp only [refs, ReaderProgram.veventQueueVevent, List.count_append, List.map_append,
      List.map_cons, List.map_nil] at this ⊢
    omega

theorem eventNext_countsExact : ∃ o y', y.step .eventNext = .ok (o, y') ∧ y'.CountsExact := by
  rcases hq : y.program.queue with _ | ⟨e, queue⟩
  · exact ⟨(), y, by simp only [step, hq], es, cs, hlists, hexact⟩
  · refine ⟨(), { y with
      program := { y.program with queue := queue }, events := y.events ++ [e] },
      by simp only [step, hq], .intro (hlists.frame rfl rfl fun _ _ => rfl) hexact fun a => ?_⟩
    simp only [refs, hq, List.count_append, List.count_cons, List.map_append, List.map_cons,
      List.map_nil, List.count_nil]
    omega

theorem eventDelete_countsExact {event : ℕ} (hproper : y.Proper (.eventDelete event)) :
    ∃ o y', y.step (.eventDelete event) = .ok (o, y') ∧ y'.CountsExact := by
  obtain ⟨e, he⟩ : ∃ e, y.events[event]? = some e := ⟨_, List.getElem?_eq_getElem hproper⟩
  have hperm : (y.refs es cs).Perm (e.reader ::
      ({ y with events := y.events.eraseIdx event }).refs es cs) := by
    refine List.perm_iff_count.2 fun a => ?_
    have := count_events he a
    simp only [refs, List.count_append, List.count_cons, List.map_append, List.count_nil] at this ⊢
    omega
  obtain ⟨m, hm, hexact'⟩ := ReaderProgram.vreaderFree_exact (hexact.perm hperm)
  refine ⟨(), { y with
    program := { y.program with readers := m }, events := y.events.eraseIdx event }, ?_,
    .intro (hlists.frame rfl rfl fun _ _ => rfl) hexact' fun a => rfl⟩
  simp only [step, he, ReaderProgram.veventDelete, hm, ok_bind, pure_eq]

end Queued

section Lists

theorem getReaderList_countsExact :
    ∃ o y', y.step .getReaderList = .ok (o, y') ∧ y'.CountsExact := by
  obtain ⟨m, h, ns, hrun, hl, hnd, hge, hframe, hexact'⟩ := ReaderProgram.copyList_exact []
    hlists.linked hlists.fuel (Nat.le_refl _) (fun _ _ => rfl) trivial List.nodup_nil (by simp)
    (fun e he => mem_refs_of_entry (List.mem_append_left _ he)) hexact
  refine ⟨(), { y with
    program := { y.program with readers := m, entries := h }
    copies := y.copies ++ [⟨firstOr none ns, lastOr none ns⟩] }, ?_,
    .intro (hlists.snoc rfl rfl hframe hl hnd hge) hexact' fun a => ?_⟩
  · have hempty : (⟨firstOr none ([] : List (ℕ × ℕ)), lastOr none ([] : List (ℕ × ℕ))⟩ : VReaderList)
        = vreaderListNew := rfl
    rw [hempty] at hrun
    simp only [step, ReaderProgram.vreaderGetReaderList, hlists.head, hrun, ok_bind, pure_eq]
  · simp only [refs, List.count_append, List.map_append, List.flatten_append, List.flatten_cons,
      List.flatten_nil, List.append_nil]
    omega

theorem listDelete_countsExact {copy : ℕ} (hproper : y.Proper (.listDelete copy)) :
    ∃ o y', y.step (.listDelete copy) = .ok (o, y') ∧ y'.CountsExact := by
  obtain ⟨c, hc, hcopy, hperm, herase⟩ := hlists.pick hproper
  obtain ⟨hnd, hfuel⟩ := hlists.copy_fuel hc
  obtain ⟨m, h, hrun, hexact', hframe⟩ := ReaderProgram.listDelete_exact
    (l := ({ y with copies := y.copies.eraseIdx copy }).refs es (cs.eraseIdx copy))
    (hlists.copiesLinked c hc) hnd hfuel (hexact.perm (List.perm_iff_count.2 fun a => by
      have := (hperm.map Prod.snd).count_eq a
      simp only [refs, List.count_append, List.map_append] at this ⊢
      omega))
  refine ⟨(), { y with
    program := { y.program with readers := m, entries := h }
    copies := y.copies.eraseIdx copy }, ?_,
    .intro (hlists.erase rfl hperm herase hframe) hexact' fun a => rfl⟩
  simp only [step, hcopy, ReaderProgram.vreaderListDelete, hrun, ok_bind, pure_eq]

theorem listGetReader_countsExact {copy entry : ℕ} (hproper : y.Proper (.listGetReader copy entry)) :
    ∃ o y', y.step (.listGetReader copy entry) = .ok (o, y') ∧ y'.CountsExact := by
  obtain ⟨ns, hns, hcopy, -, -⟩ := hlists.pick hproper
  have hlink := hlists.copiesLinked ns hns
  simp only [step, hcopy, ReaderProgram.entryAt_linked hlink, ok_bind]
  rcases he : ns[entry]? with _ | e
  · exact hand_countsExact hlists hexact
  · have hmem := List.mem_of_getElem? he
    obtain ⟨⟨n, p, r⟩, hcell, rfl⟩ := hlink.holds hmem
    obtain ⟨m, hget, hexact'⟩ := ReaderProgram.vreaderListGetReader_exact hcell hexact
      (mem_refs_of_entry (List.mem_append_right _ (List.mem_flatten_of_mem hns hmem)))
    simp only [Option.map_some, hget, ok_bind]
    exact hand_countsExact hlists hexact'

theorem addReader_countsExact {r : ℕ} (hproper : y.Proper (.addReader r)) :
    ∃ o y', y.step (.addReader r) = .ok (o, y') ∧ y'.CountsExact := by
  obtain ⟨c, hc⟩ := hproper
  have hr := (hexact.counts r c hc).1
  have hnd := hlists.nodup
  rw [List.map_append] at hnd
  obtain ⟨m, h, hnew, hexact', hq, hl, -, -, hframe⟩ := ReaderProgram.listEntryNew_queue
    hlists.linked hnd.of_append_left hexact hr
  rw [← hlists.list] at hq
  obtain ⟨m', hqueue, hexact''⟩ := ReaderProgram.queueNew_exact .readerInsert
    (s := { y.program with
      readers := m
      entries := h
      list := ⟨firstOr none (es ++ [(y.program.entries.length, r)]),
        lastOr none (es ++ [(y.program.entries.length, r)])⟩ }) hexact' (List.mem_cons_of_mem _ hr)
  refine ⟨(), { y with program := { y.program with
    readers := m'
    entries := h
    list := ⟨firstOr none (es ++ [(y.program.entries.length, r)]),
        lastOr none (es ++ [(y.program.entries.length, r)])⟩
    queue := y.program.queue ++ [⟨.readerInsert, r⟩] } }, ?_,
    .intro (hlists.register rfl hl rfl (fun a ha hes => ?_) ?_) hexact'' fun a => ?_⟩
  · simp only [step, ReaderProgram.vreaderAddReader, hnew, ok_bind, hq, hqueue]
    rfl
  · exact hframe a ha fun e he heq => hes (heq ▸ List.mem_map_of_mem he)
  · rw [List.append_assoc, List.singleton_append, (List.perm_middle.map _).nodup_iff, List.map_cons,
      List.nodup_cons]
    refine ⟨fun hmem => ?_, hlists.nodup⟩
    obtain ⟨e, he, heq⟩ := List.mem_map.1 hmem
    exact absurd (hlists.lt he) (Nat.not_lt.2 (Nat.le_of_eq heq.symm))
  · simp only [refs, List.count_append, List.count_cons, List.map_append, List.map_cons,
      List.map_nil, List.count_nil]
    omega

theorem removeReader_countsExact {r : ℕ} (hproper : y.Proper (.removeReader r))
    (hkeeps : y.KeepsCounts (.removeReader r)) :
    ∃ o y', y.step (.removeReader r) = .ok (o, y') ∧ y'.CountsExact := by
  obtain ⟨c, hc⟩ := hproper
  have hr := (hexact.counts r c hc).1
  have hfind := findEntry_linked (fun r' => decide (r' = r)) hlists.linked hlists.fuel
  rw [← hlists.head] at hfind
  rcases exists_split es r with ⟨hnone, -, -⟩ | ⟨l, a, rest, rfl, hsome, -, -⟩
  · rw [hnone] at hfind
    obtain ⟨m, hqueue, hexact'⟩ := ReaderProgram.queueNew_exact .readerRemove hexact hr
    refine ⟨(), { y with program := { y.program with
      readers := m, queue := y.program.queue ++ [⟨.readerRemove, r⟩] } }, ?_,
      .intro (hlists.frame rfl rfl fun _ _ => rfl) hexact' fun a => ?_⟩
    · simp only [step, ReaderProgram.vreaderRemoveReader, hfind, ok_bind, Option.map_none,
        vreaderDequeue, hqueue]
      rfl
    · simp only [refs, List.count_append, List.count_cons, List.map_append, List.map_cons,
        List.map_nil, List.count_nil]
      omega
  · rw [hsome] at hfind
    have hnd := hlists.nodup
    rw [List.map_append] at hnd
    have hnd' := hnd.of_append_left
    have hends : l = [] ↔ rest = [] := by
      have := hkeeps a hfind
      rwa [hlists.list, firstOr_eq_iff hnd', lastOr_eq_iff hnd'] at this
    obtain ⟨h, hdequeue, hl, hcell, hlen, hframe⟩ := vreaderDequeue_linked hlists.linked hnd' hends
    rw [← hlists.list] at hdequeue
    obtain ⟨m, hqueue, hexact'⟩ := ReaderProgram.queueNew_exact .readerRemove
      (s := { y.program with
        entries := h, list := ⟨firstOr none (l ++ rest), lastOr none (l ++ rest)⟩ }) hexact hr
    obtain ⟨m', hdelete, hexact''⟩ := ReaderProgram.listEntryDelete_exact
      (s := { y.program with
        readers := m
        entries := h
        list := ⟨firstOr none (l ++ rest), lastOr none (l ++ rest)⟩
        queue := y.program.queue ++ [⟨.readerRemove, r⟩] })
      (l := r :: y.refs (l ++ rest) cs) hcell (hexact'.perm (List.perm_iff_count.2 fun a => by
        simp only [refs, List.count_append, List.count_cons, List.map_append, List.map_cons]
        omega))
    refine ⟨(), { y with program := { y.program with
      readers := m'
      entries := h.set a none
      list := ⟨firstOr none (l ++ rest), lastOr none (l ++ rest)⟩
      queue := y.program.queue ++ [⟨.readerRemove, r⟩] } }, ?_,
      .intro (hlists.register rfl (hl.set ?_) rfl (fun b _ hb => ?_) ?_) hexact'' fun a => ?_⟩
    · simp only [step, ReaderProgram.vreaderRemoveReader, hfind, ok_bind, Option.map_some,
        hdequeue, hqueue, hdelete]
      rfl
    · rintro e he rfl
      exact not_mem_ends hnd' (List.mem_map_of_mem he)
    · rw [List.getElem?_set_ne (by rintro rfl; simp at hb), hframe b hb]
    · refine hlists.nodup.sublist (List.Sublist.map _ ?_)
      simp
    · simp only [refs, List.count_append, List.count_cons, List.map_append, List.map_cons,
        List.map_nil, List.count_nil]
      omega

/-- With no reader registered nothing is replayed. -/
theorem replay_countsExact (hkeeps : y.KeepsCounts .replay) :
    ∃ o y', y.step .replay = .ok (o, y') ∧ y'.CountsExact := by
  have hlist : y.program.list.head = none := hkeeps
  refine ⟨(), y, ?_, es, cs, hlists, hexact⟩
  simp only [step, ReaderProgram.vcardEmulReplayInsertionEvents, ReaderProgram.vreaderGetReaderList,
    hlist]
  rfl

omit hlists hexact in
theorem step_countsExact (h : y.CountsExact) {c : ReaderCall} (hproper : y.Proper c)
    (hkeeps : y.KeepsCounts c) : ∃ o y', y.step c = .ok (o, y') ∧ y'.CountsExact := by
  obtain ⟨es, cs, hlists, hexact⟩ := h
  cases c with
  | new name => exact new_countsExact hlists hexact name
  | reference reader => exact reference_countsExact hlists hexact hproper
  | free reader => exact free_countsExact hlists hexact hproper
  | setId reader id => exact setId_countsExact hlists hexact hproper
  | addReader reader => exact addReader_countsExact hlists hexact hproper
  | removeReader reader => exact removeReader_countsExact hlists hexact hproper hkeeps
  | getReaderList => exact getReaderList_countsExact hlists hexact
  | listDelete copy => exact listDelete_countsExact hlists hexact hproper
  | listGetReader copy entry => exact listGetReader_countsExact hlists hexact hproper
  | getReaderById id => exact getReaderById_countsExact hlists hexact id
  | getReaderByName name => exact getReaderByName_countsExact hlists hexact name
  | insertCard reader hasCard => exact insertCard_countsExact hlists hexact hproper
  | xfrBytes reader => exact xfrBytes_countsExact hlists hexact hproper
  | eventNew type reader => exact eventNew_countsExact hlists hexact hproper
  | eventQueue event => exact eventQueue_countsExact hlists hexact hproper
  | eventNext => exact eventNext_countsExact hlists hexact
  | eventDelete event => exact eventDelete_countsExact hlists hexact hproper
  | replay => exact replay_countsExact hlists hexact hkeeps

end Lists

end Calls

end ReaderSystem

section Runs

/-- In a run of proper calls that all keep the counts, no call touches what is gone, and every
reader's count is exact all along. -/
theorem readerCounts_exact (calls : List ReaderCall)
    (h : Along ReaderSystem.step (fun y c => y.Proper c ∧ y.KeepsCounts c) .start calls) :
    Safe ReaderSystem.step ReaderSystem.CountsExact .start calls :=
  h.safe (fun _ hy => hy) (fun _ _ hy hc => ReaderSystem.step_countsExact hy hc.1 hc.2)
    ReaderSystem.start_countsExact

theorem readerCounts_lifetime :
    Safe ReaderSystem.step ReaderSystem.CountsExact .start
      [.new "CAC", .addReader 0, .getReaderList, .free (some 0), .listGetReader 0 0, .listDelete 0,
        .insertCard 0 true, .eventNext, .eventDelete 0, .removeReader 0, .free (some 0), .replay] :=
  readerCounts_exact _ (by decide +kernel)

/-- With one entry and no copies, the references are that entry's and those of events and callers. -/
theorem ReaderSystem.Lists.single {y : ReaderSystem} {es : List (ℕ × ℕ)}
    {cs : List (List (ℕ × ℕ))} (h : y.Lists es cs) {a r : ℕ} (hhead : y.program.list.head = some a)
    (hcell : y.program.entries.Holds a ⟨none, none, r⟩) (hcopies : y.copies = []) :
    es = [(a, r)] ∧ cs = [] := by
  have hcs := h.copies
  rw [hcopies] at hcs
  refine ⟨?_, List.map_eq_nil_iff.1 hcs.symm⟩
  rw [h.head] at hhead
  rcases es with _ | ⟨⟨b, r'⟩, rest⟩
  · cases hhead
  · obtain rfl := Option.some.inj hhead
    have hlink := hcell.eq h.linked.1
    simp only [Link.mk.injEq] at hlink
    obtain ⟨hnext, -, rfl⟩ := hlink
    rw [firstOr_eq_none hnext.symm]

/-- Replaying the events of one reader leaves a reference to it with no one: the count is five, and
one entry, two events and one caller hold the reader. -/
theorem replay_not_exact :
    ¬ Safe ReaderSystem.step ReaderSystem.CountsExact .start
      [.new "CAC", .addReader 0, .replay] := by
  intro h
  obtain ⟨os, y, hrun, es, cs, hlists, hexact⟩ := h.run
  obtain ⟨-, rfl⟩ := Prod.mk.inj (Except.ok.inj hrun)
  obtain ⟨rfl, rfl⟩ := hlists.single rfl rfl rfl
  exact absurd (hexact.counts 0 _ rfl).2 (by decide)

end Runs

end Libcacard
