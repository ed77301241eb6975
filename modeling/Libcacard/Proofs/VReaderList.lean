import Libcacard.VReaderList
import Mathlib.Data.List.Induction

/-!
# The list of readers stays exact

An entry is named by the number of readers added before it. As long as no reader is removed whose
entry is at one end of a longer list, the registered list is the entries added and not yet
removed, linked both ways. Taking the entry at one end away leaves its neighbour pointing to it.
-/

namespace Libcacard

open Machine Machine.Link

variable {ρ : Type}

/-- The readers added and not yet removed, in the order they were added. -/
structure Registry (ρ : Type) where
  added : ℕ
  entries : List (ℕ × ρ)

def Registry.step [DecidableEq ρ] (g : Registry ρ) : ReaderOp ρ → Registry ρ
  | .add reader => ⟨g.added + 1, g.entries ++ [(g.added, reader)]⟩
  | .remove reader => ⟨g.added, g.entries.eraseP fun e => e.2 = reader⟩

def registry [DecidableEq ρ] (ops : List (ReaderOp ρ)) : Registry ρ :=
  ops.foldl Registry.step ⟨0, []⟩

/-- The list runs through exactly the registered entries, in order and in both directions, and no
other entry is allocated. -/
structure ListExact (s : Readers ρ) (g : Registry ρ) : Prop where
  added : s.entries.length = g.added
  head : s.list.head = firstOr none g.entries
  tail : s.list.tail = lastOr none g.entries
  linked : Linked s.entries none none g.entries
  nodup : (g.entries.map Prod.fst).Nodup
  live : ∀ a c, s.entries.Holds a c → a ∈ g.entries.map Prod.fst

/-- What the lookups and the copy see: the registered readers, and a list of its own. -/
structure LookupsExact (s : Readers ρ) (g : Registry ρ) : Prop where
  byId : ∀ idOf id, vreaderGetReaderById s idOf id
    = .ok (if id = vreaderNoId then none else (g.entries.map Prod.snd).find? fun r => idOf r = id)
  byName : ∀ nameOf name, vreaderGetReaderByName s nameOf name
    = .ok ((g.entries.map Prod.snd).find? fun r => nameOf r = name)
  copy : ∃ h list es, vreaderGetReaderList s = .ok (⟨h, s.list⟩, list)
    ∧ es.map Prod.snd = g.entries.map Prod.snd ∧ list = ⟨firstOr none es, lastOr none es⟩
    ∧ Linked h none none es ∧ (es.map Prod.fst).Nodup
    ∧ ∀ a < s.entries.length, h[a]? = s.entries[a]?

/-- The entry a removal takes away is the only one, or is at neither end. -/
def Removable [DecidableEq ρ] (es : List (ℕ × ρ)) : ReaderOp ρ → Prop
  | .add _ => True
  | .remove reader =>
    let i := es.findIdx fun e => e.2 = reader
    i < es.length → (i = 0 ↔ i + 1 = es.length)

variable {s : Readers ρ} {g : Registry ρ}

theorem ListExact.fuel (h : ListExact s g) : g.entries.length ≤ s.fuel := by
  have := h.linked.length_le h.nodup
  unfold Readers.fuel
  omega

section Walking

theorem findEntry_linked {h : Heap (VReaderListEntry ρ)} (p : ρ → Bool) :
    ∀ {before : Option ℕ} {es : List (ℕ × ρ)} {fuel : ℕ}, Linked h before none es →
      es.length ≤ fuel →
      findEntry h p fuel (firstOr none es) = .ok ((es.find? fun e => p e.2).map Prod.fst)
  | _, [], fuel, _, _ => by cases fuel <;> rfl
  | _, e :: es, fuel + 1, hl, hf => by
    have ih := findEntry_linked p hl.2 (by simpa using hf)
    simp only [firstOr.eq_2, findEntry, Heap.read_of_holds hl.1, ok_bind, VReaderListEntry.reader,
      List.find?_cons]
    by_cases hp : p e.2 = true
    · simp [hp]
    · simp [hp, ih]

theorem getReader_exact (h : ListExact s g) (p : ρ → Bool) :
    getReader s p = .ok ((g.entries.map Prod.snd).find? p) := by
  have hfind := findEntry_linked p h.linked h.fuel
  rw [← h.head] at hfind
  rw [getReader, hfind, ok_bind, List.find?_map,
    show p ∘ Prod.snd = fun e : ℕ × ρ => p e.2 from rfl]
  rcases hx : g.entries.find? fun e => p e.2 with _ | e
  · simp [hx]
  · obtain ⟨c, hc, hitem⟩ := h.linked.holds (List.mem_of_find?_eq_some hx)
    simp [hx, Heap.read_of_holds hc, VReaderListEntry.reader, hitem]

end Walking

/-- Queueing a new entry at `a` behind the entries of a list. -/
theorem vreaderQueue_linked {h : Heap (VReaderListEntry ρ)} {es : List (ℕ × ρ)} {a : ℕ} {r : ρ}
    (hl : Linked h none none es) (hnd : (es.map Prod.fst).Nodup) (ha : h.Holds a ⟨none, none, r⟩)
    (hne : ∀ e ∈ es, e.1 ≠ a) :
    ∃ h', vreaderQueue h ⟨firstOr none es, lastOr none es⟩ a
        = .ok (h', ⟨firstOr none (es ++ [(a, r)]), lastOr none (es ++ [(a, r)])⟩)
      ∧ Linked h' none none (es ++ [(a, r)]) ∧ h'.length = h.length
      ∧ ∀ b, b ≠ a → (∀ e ∈ es, e.1 ≠ b) → h'[b]? = h[b]? := by
  unfold vreaderQueue
  have hself : h.set a (some ⟨none, none, r⟩) = h := by
    apply List.ext_getElem?
    intro i
    rcases eq_or_ne a i with rfl | hi
    · rw [List.getElem?_set_self ha.lt]
      exact ha.symm
    · rw [List.getElem?_set_ne hi]
  rw [setNext_of_holds ha, ok_bind, hself, setPrev_of_holds ha, ok_bind]
  rcases List.eq_nil_or_concat es with rfl | ⟨l, ⟨t, x⟩, rfl⟩
  · refine ⟨_, rfl, ⟨?_, trivial⟩, by simp, fun b hb _ => ?_⟩
    · exact ha.set_same
    · exact List.getElem?_set_ne (Ne.symm hb)
  · simp only [List.concat_eq_append] at *
    have hta : t ≠ a := hne (t, x) (by simp)
    have hla := hl.set (c := some ⟨none, some t, r⟩) hne
    have ht := (linked_append.1 hla).2.1
    have hlast : lastOr none (l ++ [(t, x)]) = some t := by rw [lastOr_append]; rfl
    have hfirst : ∃ f, firstOr none (l ++ [(t, x)]) = some f := by
      cases l
      · exact ⟨t, rfl⟩
      · exact ⟨_, rfl⟩
    obtain ⟨f, hf⟩ := hfirst
    simp only [hlast, hf, setNext_of_holds ht, ok_bind]
    refine ⟨_, ?_, hla.snoc hnd ha.set_same hta, by simp, fun b hb hes => ?_⟩
    · rw [lastOr_append, firstOr_append]
      cases l <;> simp_all [firstOr, lastOr]
    · rw [List.getElem?_set_ne (hes (t, x) (by simp)), List.getElem?_set_ne (Ne.symm hb)]

section Unlink

variable {h : Heap (VReaderListEntry ρ)} {list : VReaderList} {l rest : List (ℕ × ρ)} {a : ℕ}
  {r : ρ}

theorem unlinkEntry_last (hl : Linked h none none (l ++ [(a, r)])) :
    unlinkEntry h list a = .ok (h, ⟨list.head, lastOr none l⟩) := by
  rw [unlinkEntry, Heap.read_of_holds (linked_append.1 hl).2.1]
  rfl

theorem unlinkEntry_first {n : ℕ × ρ} (hl : Linked h none none ((a, r) :: n :: rest)) :
    unlinkEntry h list a = .ok (h, ⟨some n.1, list.tail⟩) := by
  rw [unlinkEntry, Heap.read_of_holds hl.1]
  rfl

theorem unlinkEntry_middle {p n : ℕ} {x z : ρ}
    (hl : Linked h none none (l ++ (p, x) :: (a, r) :: (n, z) :: rest))
    (hnd : ((l ++ (p, x) :: (a, r) :: (n, z) :: rest).map Prod.fst).Nodup) :
    unlinkEntry h list a
      = .ok ((h.set p (some ⟨some n, lastOr none l, x⟩)).set n
        (some ⟨firstOr none rest, some p, z⟩), list) := by
  simp only [List.map_append, List.map_cons, List.nodup_append, List.nodup_cons, List.mem_cons,
    not_or] at hnd
  obtain ⟨-, ⟨⟨hpa, hpn, -⟩, -⟩, -⟩ := hnd
  obtain ⟨-, hp, ha, hn, -⟩ := linked_append.1 hl
  have ha' : Heap.Holds (h.set p (some ⟨some n, lastOr none l, x⟩)) a
      ⟨some n, some p, r⟩ := ha.set_ne hpa
  have hn' : Heap.Holds (h.set p (some ⟨some n, lastOr none l, x⟩)) n
      ⟨firstOr none rest, some a, z⟩ := hn.set_ne hpn
  rw [unlinkEntry, Heap.read_of_holds ha]
  simp only [ok_bind, firstOr, setNext_of_holds hp, Heap.read_of_holds ha', setPrev_of_holds hn',
    pure_eq]

/-- What is left once `unlinkEntry` has set the links around the entry at `a`. -/
theorem vreaderDequeue_eq {h1 : Heap (VReaderListEntry ρ)} {list1 : VReaderList}
    {c : VReaderListEntry ρ} (hunlink : unlinkEntry h list a = .ok (h1, list1))
    (hc : h1.Holds a c) :
    vreaderDequeue h list (some a) = .ok (h1.set a (some { c with next := none, prev := none }),
      if list1.tail = none ∨ list1.head = none then ⟨none, none⟩ else list1) := by
  have hn := hc.set_same (y := { c with next := none })
  simp only [vreaderDequeue, hunlink, ok_bind, setNext_of_holds hc, setPrev_of_holds hn, pure_eq,
    List.set_set]

/-- An entry that is the only one, or at neither end, is taken out. -/
theorem vreaderDequeue_linked (hl : Linked h none none (l ++ (a, r) :: rest))
    (hnd : ((l ++ (a, r) :: rest).map Prod.fst).Nodup) (hends : l = [] ↔ rest = []) :
    ∃ h', vreaderDequeue h ⟨firstOr none (l ++ (a, r) :: rest), lastOr none (l ++ (a, r) :: rest)⟩
        (some a) = .ok (h', ⟨firstOr none (l ++ rest), lastOr none (l ++ rest)⟩)
      ∧ Linked h' none none (l ++ rest) ∧ h'.Holds a ⟨none, none, r⟩ ∧ h'.length = h.length
      ∧ ∀ b, b ∉ (l ++ (a, r) :: rest).map Prod.fst → h'[b]? = h[b]? := by
  rcases List.eq_nil_or_concat l with rfl | ⟨l, ⟨p, x⟩, rfl⟩
  · obtain rfl := hends.1 rfl
    refine ⟨_, vreaderDequeue_eq (unlinkEntry_last hl) hl.1, trivial, hl.1.set_same,
      List.length_set, fun b hb => List.getElem?_set_ne fun heq => hb (by simp [heq])⟩
  rcases rest with _ | ⟨⟨n, z⟩, rest⟩
  · exact absurd (hends.2 rfl) (by simp)
  simp only [List.concat_eq_append, List.append_assoc, List.singleton_append] at *
  have hcell := (linked_append.1 hl).2.2.1
  have hnd' := hnd
  simp only [List.map_append, List.map_cons, List.nodup_append, List.nodup_cons, List.mem_cons,
    List.mem_map, not_or] at hnd'
  obtain ⟨-, ⟨⟨hpa, -⟩, ⟨han, har⟩, -⟩, hdisj⟩ := hnd'
  have hcell' := (hcell.set_ne (c := some ⟨some n, lastOr none l, x⟩) hpa).set_ne
    (c := some ⟨firstOr none rest, some p, z⟩) (Ne.symm han)
  have hhead : firstOr none (l ++ (p, x) :: (a, r) :: (n, z) :: rest) ≠ none := fun h0 => by
    have := firstOr_eq_none h0
    simp at this
  have htail : lastOr none (l ++ (p, x) :: (a, r) :: (n, z) :: rest) ≠ none := by
    rw [lastOr_append]
    exact lastOr_ne_none
  refine ⟨_, (vreaderDequeue_eq (unlinkEntry_middle hl hnd) hcell').trans ?_,
    (hl.unlink hnd).set ?_, hcell'.set_same, by simp, fun b hb => ?_⟩
  · rw [if_neg (by simp [hhead, htail]), firstOr_append, firstOr_append, lastOr_append,
      lastOr_append]
    rfl
  · rintro e he rfl
    simp only [List.mem_append, List.mem_cons] at he
    rcases he with he | rfl | rfl | he
    · exact hdisj e.1 ⟨e, he, rfl⟩ e.1 (.inr (.inl rfl)) rfl
    · exact hpa rfl
    · exact han rfl
    · exact har ⟨e, he, rfl⟩
  · simp only [List.map_append, List.map_cons, List.mem_append, List.mem_cons, not_or] at hb
    obtain ⟨-, hbp, hba, hbn, -⟩ := hb
    rw [List.getElem?_set_ne (Ne.symm hba), List.getElem?_set_ne (Ne.symm hbn),
      List.getElem?_set_ne (Ne.symm hbp)]

end Unlink

/-- Copying what is left of a list in `h₀` behind the entries copied so far. -/
theorem copyEntries_linked {h₀ : Heap (VReaderListEntry ρ)} :
    ∀ {before : Option ℕ} {es ns : List (ℕ × ρ)} {fuel : ℕ} {h : Heap (VReaderListEntry ρ)},
      Linked h₀ before none es → es.length ≤ fuel → h₀.length ≤ h.length →
      (∀ a < h₀.length, h[a]? = h₀[a]?) → Linked h none none ns → (ns.map Prod.fst).Nodup →
      (∀ e ∈ ns, h₀.length ≤ e.1) →
      ∃ h' ns', copyEntries fuel h (firstOr none es) ⟨firstOr none ns, lastOr none ns⟩
          = .ok (h', ⟨firstOr none ns', lastOr none ns'⟩)
        ∧ ns'.map Prod.snd = ns.map Prod.snd ++ es.map Prod.snd ∧ Linked h' none none ns'
        ∧ (ns'.map Prod.fst).Nodup ∧ ∀ a < h₀.length, h'[a]? = h₀[a]?
  | _, [], ns, fuel, h, _, _, _, hframe, hns, hnd, _ =>
    ⟨h, ns, by cases fuel <;> rfl, by simp, hns, hnd, hframe⟩
  | _, e :: es, ns, fuel + 1, h, hes, hf, hlen, hframe, hns, hnd, hge => by
    have hcell : h.Holds e.1 ⟨firstOr none es, _, e.2⟩ := (hframe e.1 hes.1.lt).trans hes.1
    have hlt := hes.1.lt
    obtain ⟨h', hq, hl, hlen', hframe'⟩ := vreaderQueue_linked
      (hns.alloc (c := ⟨none, none, e.2⟩)) hnd Heap.alloc_holds
      fun x hx => Nat.ne_of_lt (hns.lt hx)
    have hold : ∀ a < h₀.length, h'[a]? = h₀[a]? := fun a ha => by
      rw [hframe' a (by omega) fun x hx heq => by have := hge x hx; omega, Heap.alloc,
        List.getElem?_append_left (by omega), hframe a ha]
    have hcell' : h'.Holds e.1 ⟨firstOr none es, _, e.2⟩ := (hold e.1 hlt).trans hes.1
    obtain ⟨h'', ns', hc, hsnd, hl', hnd', hframe''⟩ := copyEntries_linked hes.2
      (by simpa using hf) (by rw [hlen', Heap.alloc, List.length_append]; omega) hold hl
      (by
        simp only [List.map_append, List.map_cons, List.map_nil, List.nodup_append, hnd, true_and,
          List.mem_map, List.mem_singleton]
        refine ⟨by simp, ?_⟩
        rintro a ⟨x, hx, rfl⟩ b rfl
        exact Nat.ne_of_lt (hns.lt hx))
      (by
        intro x hx
        rcases List.mem_append.1 hx with hx | hx
        · exact hge x hx
        · obtain rfl := List.mem_singleton.1 hx
          exact hlen)
    refine ⟨h'', ns', ?_, ?_, hl', hnd', hframe''⟩
    · simp only [firstOr.eq_2, copyEntries, Heap.read_of_holds hcell, ok_bind, vreaderListEntryNew,
        VReaderListEntry.reader, hq, Heap.read_of_holds hcell']
      exact hc
    · rw [hsnd]
      simp

theorem ListExact.lookups (h : ListExact s g) : LookupsExact s g := by
  refine ⟨fun idOf id => ?_, fun nameOf name => getReader_exact h _, ?_⟩
  · unfold vreaderGetReaderById
    split_ifs
    · rfl
    · exact getReader_exact h _
  · obtain ⟨h', ns, hc, hsnd, hl, hnd, hframe⟩ := copyEntries_linked h.linked h.fuel
      (Nat.le_refl _) (fun _ _ => rfl) (show Linked s.entries none none [] from trivial)
      List.nodup_nil (by simp)
    refine ⟨h', _, ns, ?_, hsnd, rfl, hl, hnd, hframe⟩
    rw [vreaderGetReaderList, h.head]
    simp only [vreaderListNew]
    rw [show (⟨none, none⟩ : VReaderList) = ⟨firstOr none ([] : List (ℕ × ρ)),
      lastOr none ([] : List (ℕ × ρ))⟩ from rfl, hc]
    rfl

theorem listExact_init : ListExact (vreaderListInit : Readers ρ) ⟨0, []⟩ where
  added := rfl
  head := rfl
  tail := rfl
  linked := trivial
  nodup := List.nodup_nil
  live a c h := by simp [Heap.Holds, vreaderListInit] at h

section Adding

variable [DecidableEq ρ]

theorem vreaderAddReader_exact (h : ListExact s g) (r : ρ) :
    ∃ s', vreaderAddReader s r = .ok s' ∧ ListExact s' (g.step (.add r)) := by
  have hfresh : ∀ e ∈ g.entries, e.1 ≠ s.entries.length := fun e he =>
    Nat.ne_of_lt (h.linked.lt he)
  obtain ⟨h', hq, hl, hlen, hframe⟩ := vreaderQueue_linked (h.linked.alloc (c := ⟨none, none, r⟩))
    h.nodup Heap.alloc_holds hfresh
  have hlist : s.list = ⟨firstOr none g.entries, lastOr none g.entries⟩ := by
    rw [← h.head, ← h.tail]
  have hadd : vreaderAddReader s r
      = .ok ⟨h', ⟨firstOr none (g.entries ++ [(s.entries.length, r)]),
        lastOr none (g.entries ++ [(s.entries.length, r)])⟩⟩ := by
    rw [vreaderAddReader, vreaderListEntryNew, hlist]
    simp only [hq, ok_bind, pure_eq]
  refine ⟨_, hadd, ?_⟩
  simp only [Registry.step, ← h.added]
  refine ⟨?_, rfl, rfl, hl, ?_, fun a c hc => ?_⟩
  · simp only [hlen, Heap.alloc, List.length_append, List.length_singleton]
  · simp only [List.map_append, List.map_cons, List.map_nil, List.nodup_append, h.nodup,
      true_and, List.mem_map, List.mem_singleton]
    refine ⟨by simp, ?_⟩
    rintro a ⟨e, he, rfl⟩ b rfl
    exact hfresh e he
  · simp only [List.map_append, List.mem_append, List.map_cons, List.map_nil, List.mem_singleton]
    by_contra hno
    rw [not_or] at hno
    have hfr := hframe a hno.2 fun e he heq => hno.1 (List.mem_map.2 ⟨e, he, heq⟩)
    rcases Heap.holds_of_alloc (show Heap.Holds _ a c from hfr.symm.trans hc) with heq | hold
    · exact hno.2 heq
    · exact hno.1 (h.live a c hold)

/-- Where the search for a reader stops, and what is registered without the entry there. -/
theorem exists_split (es : List (ℕ × ρ)) (r : ρ) :
    (es.find? (fun e => decide (e.2 = r)) = none ∧ es.eraseP (fun e => e.2 = r) = es
        ∧ Removable es (.remove r))
      ∨ ∃ l a rest, es = l ++ (a, r) :: rest ∧ es.find? (fun e => decide (e.2 = r)) = some (a, r)
        ∧ es.eraseP (fun e => e.2 = r) = l ++ rest
        ∧ (Removable es (.remove r) ↔ (l = [] ↔ rest = [])) := by
  rcases hx : es.find? fun e => decide (e.2 = r) with _ | e
  · have hno : ∀ e ∈ es, ¬ decide (e.2 = r) = true := List.find?_eq_none.1 hx
    refine .inl ⟨hx, List.eraseP_of_forall_not hno, ?_⟩
    intro hi
    obtain ⟨e, he, hp⟩ := List.findIdx_lt_length.1 hi
    exact absurd hp (hno e he)
  · obtain ⟨hp, l, rest, rfl, hl⟩ := List.find?_eq_some_iff_append.1 hx
    obtain ⟨a, r'⟩ := e
    obtain rfl : r' = r := by simpa using hp
    have hl' : ∀ e ∈ l, ¬ decide (e.2 = r') = true := by simpa using hl
    refine .inr ⟨l, a, rest, rfl, hx, ?_, ?_⟩
    · rw [List.eraseP_append_right _ hl', List.eraseP_cons_of_pos (by simp)]
    · have hidx : l.findIdx (fun e => decide (e.2 = r')) = l.length :=
        List.findIdx_eq_length.2 (by simpa using hl)
      simp only [Removable, List.findIdx_append, hidx, Nat.lt_irrefl, if_false, List.findIdx_cons,
        decide_true, cond_true, Nat.zero_add, List.length_append, List.length_cons]
      rw [List.eq_nil_iff_length_eq_zero, List.eq_nil_iff_length_eq_zero]
      constructor
      · intro h
        have := h (by omega)
        omega
      · intro h _
        omega

theorem findEntry_remove (h : ListExact s g) (r : ρ) :
    findEntry s.entries (fun r' => decide (r' = r)) s.fuel s.list.head
      = .ok ((g.entries.find? fun e => decide (e.2 = r)).map Prod.fst) := by
  rw [h.head]
  exact findEntry_linked _ h.linked h.fuel

theorem vreaderRemoveReader_eq {r : ρ} {a : ℕ} {h1 : Heap (VReaderListEntry ρ)} {list : VReaderList}
    {c : VReaderListEntry ρ}
    (hfind : findEntry s.entries (fun r' => decide (r' = r)) s.fuel s.list.head = .ok (some a))
    (hdequeue : vreaderDequeue s.entries s.list (some a) = .ok (h1, list)) (hc : h1.Holds a c) :
    vreaderRemoveReader s r = .ok ⟨h1.set a none, list⟩ := by
  simp only [vreaderRemoveReader, hfind, ok_bind, hdequeue, vreaderListEntryDelete,
    Heap.free_of_holds hc, pure_eq]

theorem vreaderRemoveReader_exact (h : ListExact s g) {r : ρ}
    (hr : Removable g.entries (.remove r)) :
    ∃ s', vreaderRemoveReader s r = .ok s' ∧ ListExact s' (g.step (.remove r)) := by
  have hfind := findEntry_remove h r
  rcases exists_split g.entries r with ⟨hnone, herase, -⟩ | ⟨l, a, rest, hes, hsome, herase, hiff⟩
  · rw [hnone] at hfind
    refine ⟨s, ?_, ?_⟩
    · rw [vreaderRemoveReader, hfind]
      rfl
    · rw [Registry.step, herase]
      exact h
  rw [hsome] at hfind
  rw [Registry.step, herase]
  have hlink := h.linked
  have hnd := h.nodup
  have hlive := h.live
  rw [hes] at hlink hnd hlive
  obtain ⟨h', hdequeue, hlink', hcell, hlen, hframe⟩ :=
    vreaderDequeue_linked hlink hnd (hiff.1 hr)
  have hlist : s.list = ⟨firstOr none (l ++ (a, r) :: rest), lastOr none (l ++ (a, r) :: rest)⟩ := by
    rw [← hes, ← h.head, ← h.tail]
  rw [← hlist] at hdequeue
  have hnot := not_mem_ends hnd
  refine ⟨_, vreaderRemoveReader_eq hfind hdequeue hcell, ⟨?_, rfl, rfl, hlink'.set ?_, ?_,
    fun b c hb => ?_⟩⟩
  · simp only [List.length_set, hlen, h.added]
  · rintro e he rfl
    exact hnot (List.mem_map_of_mem he)
  · exact hnd.sublist (by simp)
  · have hba : b ≠ a := by
      rintro rfl
      exact Heap.not_holds_free hb
    have hb := Heap.holds_of_set_ne hb hba.symm
    by_contra hno
    have hout : b ∉ (l ++ (a, r) :: rest).map Prod.fst := by
      simpa [hba] using hno
    exact hout (hlive b c ((hframe b hout).symm.trans hb))

/-- The neighbour of an entry taken from one end goes on pointing to it. -/
theorem vreaderRemoveReader_not_exact (h : ListExact s g) {r : ρ}
    (hr : ¬ Removable g.entries (.remove r)) {s' : Readers ρ}
    (hrem : vreaderRemoveReader s r = .ok s') : ¬ ListExact s' (g.step (.remove r)) := by
  intro h'
  have hfind := findEntry_remove h r
  rcases exists_split g.entries r with ⟨-, -, hno⟩ | ⟨l, a, rest, hes, hsome, herase, hiff⟩
  · exact hr hno
  rw [hsome] at hfind
  have hlink := h.linked
  have hlink' := h'.linked
  have hnd := h.nodup
  rw [hes] at hlink hnd
  rw [Registry.step, herase] at hlink'
  rcases List.eq_nil_or_concat l with rfl | ⟨l, ⟨p, x⟩, rfl⟩
  · rcases rest with _ | ⟨⟨n, z⟩, rest⟩
    · exact hr (hiff.2 (by simp))
    -- the second entry's `prev` still is the entry taken away
    have heq := hrem.symm.trans (vreaderRemoveReader_eq hfind
      (vreaderDequeue_eq (unlinkEntry_first hlink) hlink.1) hlink.1.set_same)
    obtain rfl := Except.ok.inj heq
    have han : a ≠ n := by simp_all
    simpa using ((hlink.2.1.set_ne han).set_ne han).eq hlink'.1
  · rcases rest with _ | ⟨⟨n, z⟩, rest⟩
    · -- the last entry but one's `next` still is the entry taken away
      simp only [List.concat_eq_append] at *
      have hcells := linked_append.1 hlink
      have heq := hrem.symm.trans (vreaderRemoveReader_eq hfind
        (vreaderDequeue_eq (unlinkEntry_last hlink) hcells.2.1) hcells.2.1.set_same)
      obtain rfl := Except.ok.inj heq
      have hap : a ≠ p := by
        rintro rfl
        simp [List.nodup_append] at hnd
      rw [List.append_nil] at hlink'
      simpa [firstOr] using
        (((linked_append.1 hcells.1).2.1.set_ne hap).set_ne hap).eq (linked_append.1 hlink').2.1
    · exact hr (hiff.2 (by simp))

end Adding

section Runs

variable [DecidableEq ρ]

theorem step_exact (h : ListExact s g) {op : ReaderOp ρ} (hop : Removable g.entries op) :
    ∃ s', op.step s = .ok s' ∧ ListExact s' (g.step op) := by
  cases op with
  | add reader => exact vreaderAddReader_exact h reader
  | remove reader => exact vreaderRemoveReader_exact h hop

theorem step_not_exact (h : ListExact s g) {op : ReaderOp ρ} (hop : ¬ Removable g.entries op)
    {s' : Readers ρ} (hs : op.step s = .ok s') : ¬ ListExact s' (g.step op) := by
  cases op with
  | add reader => exact absurd trivial hop
  | remove reader => exact vreaderRemoveReader_not_exact h hop hs

theorem runReaders_append (ops : List (ReaderOp ρ)) (op : ReaderOp ρ) :
    runReaders (ops ++ [op]) = (runReaders ops >>= fun s => op.step s) := by
  simp only [runReaders, List.foldlM_append]
  congr
  funext s
  rcases hs : op.step s with _ | s' <;> simp [hs]

theorem registry_append (ops : List (ReaderOp ρ)) (op : ReaderOp ρ) :
    registry (ops ++ [op]) = (registry ops).step op := by
  simp [registry]

/-- The state `ops` lead to is there, and its list is exact. -/
def RunExact (ops : List (ReaderOp ρ)) : Prop :=
  ∃ s, runReaders ops = .ok s ∧ ListExact s (registry ops) ∧ LookupsExact s (registry ops)

theorem RunExact.append_iff {ops : List (ReaderOp ρ)} (h : RunExact ops) (op : ReaderOp ρ) :
    RunExact (ops ++ [op]) ↔ Removable (registry ops).entries op := by
  obtain ⟨s, hs, hexact, -⟩ := h
  rw [RunExact, runReaders_append, registry_append, hs, ok_bind]
  constructor
  · rintro ⟨s', hs', hexact', -⟩
    by_contra hop
    exact step_not_exact hexact hop hs' hexact'
  · intro hop
    obtain ⟨s', hs', hexact'⟩ := step_exact hexact hop
    exact ⟨s', hs', hexact', hexact'.lookups⟩

/-- The list is exact at every point of a run if and only if no call of the run removes an entry
at one end of a list of two or more. -/
theorem readerList_exact_iff (ops : List (ReaderOp ρ)) :
    (∀ pre, pre <+: ops → RunExact pre)
      ↔ ∀ pre op, pre ++ [op] <+: ops → Removable (registry pre).entries op := by
  constructor
  · intro h pre op hpre
    exact ((h pre ((List.prefix_append pre [op]).trans hpre)).append_iff op).1 (h _ hpre)
  · intro h pre
    induction pre using List.reverseRecOn with
    | nil => exact fun _ => ⟨_, rfl, listExact_init, listExact_init.lookups⟩
    | append_singleton pre op ih =>
      intro hpre
      have hex := ih ((List.prefix_append pre [op]).trans hpre)
      exact (hex.append_iff op).2 (h pre op hpre)

/-- Adding two readers and removing the second leaves the first one's `next` at a freed entry, and
the next lookup follows it there. -/
theorem readerList_remove_last :
    ¬ RunExact [ReaderOp.add 1, .add 2, .remove 2]
      ∧ ∃ s, runReaders [ReaderOp.add 1, .add 2, .remove 2] = .ok s
        ∧ vreaderGetReaderById s UInt32.ofNat 2 = .error .badAddress := by
  have hbad : ∃ s, runReaders [ReaderOp.add 1, .add 2, .remove 2] = .ok s
      ∧ vreaderGetReaderById s UInt32.ofNat 2 = .error .badAddress := ⟨_, rfl, rfl⟩
  refine ⟨?_, hbad⟩
  rintro ⟨s, hs, -, hlookups⟩
  obtain ⟨s', hs', hbad⟩ := hbad
  obtain rfl := Except.ok.inj (hs.symm.trans hs')
  have := (hlookups.byId UInt32.ofNat 2).symm.trans hbad
  cases this

end Runs

end Libcacard
