import Libcacard.Console
import Libcacard.Proofs.VReaderRefs

/-!
# What the console does to the readers

Each line of the console gives back what it took, but `list`, which takes two references of each
registered reader and gives back none, and `exit`, which takes one. So once the readers were
listed, none of those registered then is ever freed.
-/

namespace Libcacard

open Machine Machine.Link

namespace ReaderProgram

variable {s s' : ReaderProgram} {l : List ℕ}

theorem data_eq_some {r : ℕ} {d : VReaderData} :
    s.data r = some d ↔ ∃ c, s.readers.Holds r c ∧ c.item = d := by
  unfold data
  constructor
  · intro h
    split at h
    · exact ⟨_, Heap.read_eq_ok.1 ‹_›, Option.some.inj h⟩
    · cases h
  · rintro ⟨c, hc, rfl⟩
    rw [Heap.read_of_holds hc]

/-- A reader that is still there has the data it had. -/
theorem data_of_left (h : Counted.Left s.readers s'.readers) {r : ℕ} {d : VReaderData}
    (hd : s'.data r = some d) : s.data r = some d := by
  obtain ⟨c', hc', rfl⟩ := data_eq_some.1 hd
  obtain ⟨c, hc, heq⟩ := h r c' hc'
  exact data_eq_some.2 ⟨c, hc, heq⟩

theorem exists_data (he : Counted.Exact s.readers l) {r : ℕ} (hr : r ∈ l) :
    ∃ c, s.readers.read r = .ok c ∧ s.data r = some c.item := by
  obtain ⟨c, hc⟩ := he.live r hr
  exact ⟨c, Heap.read_of_holds hc, data_eq_some.2 ⟨c, hc, rfl⟩⟩

theorem vreaderReference_left {r : ℕ} (h : s.vreaderReference (some r) = .ok s') :
    s'.entries = s.entries ∧ Counted.Left s.readers s'.readers := by
  obtain ⟨m, hm, hs⟩ := bind_eq_ok.1 h
  obtain rfl := Except.ok.inj hs
  exact ⟨rfl, Counted.left_retain hm⟩

theorem vreaderFree_left {r : ℕ} (h : s.vreaderFree (some r) = .ok s') :
    s'.entries = s.entries ∧ Counted.Left s.readers s'.readers := by
  obtain ⟨m, hm, hs⟩ := bind_eq_ok.1 h
  obtain rfl := Except.ok.inj hs
  exact ⟨rfl, Counted.left_release hm⟩

theorem vreaderListGetReader_left {a r : ℕ} (h : s.vreaderListGetReader a = .ok (s', r)) :
    (∃ e, s.entries.read a = .ok e ∧ e.reader = r) ∧ s'.entries = s.entries
      ∧ Counted.Left s.readers s'.readers := by
  obtain ⟨e, he, h⟩ := bind_eq_ok.1 h
  obtain ⟨s₁, href, h⟩ := bind_eq_ok.1 h
  obtain ⟨rfl, rfl⟩ := Prod.mk.inj (Except.ok.inj h)
  exact ⟨⟨e, he, rfl⟩, vreaderReference_left href⟩

/-- A copy of a list has new entries, as they are without the counts, and no reader changes. -/
theorem copyList_left : ∀ {fuel : ℕ} {s s' : ReaderProgram} {current : Option ℕ}
    {list list' : VReaderList}, copyList fuel s current list = .ok (s', list') →
    copyEntries fuel s.entries current list = .ok (s'.entries, list')
      ∧ Counted.Left s.readers s'.readers
  | _, s, s', none, list, list', h => by
    rw [copyList] at h
    obtain ⟨rfl, rfl⟩ := Prod.mk.inj (Except.ok.inj h)
    exact ⟨by rw [copyEntries], .refl _⟩
  | 0, _, _, some _, _, _, h => by cases h
  | fuel + 1, s, s', some current, list, list', h => by
    rw [copyList] at h
    obtain ⟨⟨s₁, r⟩, hget, h⟩ := bind_eq_ok.1 h
    obtain ⟨⟨e, he, rfl⟩, hs₁, hleft₁⟩ := vreaderListGetReader_left hget
    obtain ⟨⟨s₂, entry⟩, hnew, h⟩ := bind_eq_ok.1 h
    obtain ⟨s₂', href, hnew⟩ := bind_eq_ok.1 hnew
    obtain ⟨hs₂, hleft₂⟩ := vreaderReference_left href
    obtain ⟨rfl, rfl⟩ := Prod.mk.inj (Except.ok.inj hnew)
    obtain ⟨s₃, hfree, h⟩ := bind_eq_ok.1 h
    obtain ⟨hs₃, hleft₃⟩ := vreaderFree_left hfree
    obtain ⟨⟨entries, list₁⟩, hqueue, h⟩ := bind_eq_ok.1 h
    obtain ⟨next, hnext, h⟩ := bind_eq_ok.1 h
    obtain ⟨e', he', hnext⟩ := bind_eq_ok.1 hnext
    obtain rfl := Except.ok.inj hnext
    obtain ⟨hcopy, hleft⟩ := copyList_left h
    have hentries : s₃.entries = s.entries.alloc ⟨none, none, e.reader⟩ := by
      rw [hs₃, hs₂, hs₁]
    rw [hentries, hs₂, hs₁] at hqueue
    refine ⟨?_, ((hleft₁.trans hleft₂).trans hleft₃).trans hleft⟩
    simp only [copyEntries, he, ok_bind, vreaderListEntryNew, hqueue]
    dsimp only at he'
    rw [he', ok_bind]
    exact hcopy

theorem listDelete_left : ∀ {fuel : ℕ} {s s' : ReaderProgram} {current : Option ℕ},
    listDelete fuel s current = .ok s' → Counted.Left s.readers s'.readers
  | _, s, s', none, h => by
    rw [listDelete] at h
    obtain rfl := Except.ok.inj h
    exact .refl _
  | 0, _, _, some _, h => by cases h
  | fuel + 1, s, s', some current, h => by
    obtain ⟨next, -, h⟩ := bind_eq_ok.1 h
    obtain ⟨s₁, hdelete, h⟩ := bind_eq_ok.1 h
    obtain ⟨e, -, hdelete⟩ := bind_eq_ok.1 hdelete
    obtain ⟨s₂, hfree, hdelete⟩ := bind_eq_ok.1 hdelete
    obtain ⟨entries, -, hdelete⟩ := bind_eq_ok.1 hdelete
    obtain rfl := Except.ok.inj hdelete
    have hleft : Counted.Left s₂.readers s'.readers :=
      listDelete_left (s := { s₂ with entries := entries }) h
    exact (vreaderFree_left hfree).2.trans hleft

/-- Readers that are there have the data they had. -/
theorem data_eq {t : ReaderProgram} (hleft : Counted.Left s.readers t.readers)
    (he : Counted.Exact t.readers l) {r : ℕ} (hr : r ∈ l) : t.data r = s.data r := by
  obtain ⟨c, -, hd⟩ := exists_data he hr
  rw [hd, data_of_left hleft hd]

section Walks

variable {d : ℕ → VReaderData}

/-- A lookup finds the first reader it accepts, and keeps a reference of that one only. -/
theorem lookup_found {p : VReaderData → Bool} : ∀ {es : List (ℕ × ℕ)} {before : Option ℕ}
    {fuel : ℕ} {s : ReaderProgram}, Linked s.entries before none es → es.length ≤ fuel →
    (∀ e ∈ es, e.2 ∈ l) → (∀ e ∈ es, s.data e.2 = some (d e.2)) → Counted.Exact s.readers l →
    ∃ m, lookup p fuel s (firstOr none es)
        = .ok ({ s with readers := m }, (es.map Prod.snd).find? fun r => p (d r))
      ∧ Counted.Exact m (((es.map Prod.snd).find? fun r => p (d r)).toList ++ l)
      ∧ Counted.Left s.readers m
  | [], _, fuel, s, _, _, _, _, he => by
    refine ⟨s.readers, ?_, he, .refl _⟩
    rcases fuel <;> rfl
  | e :: es, _, fuel + 1, s, hl, hf, hmem, hd, he => by
    obtain ⟨hr, hmem⟩ := List.forall_mem_cons.1 hmem
    obtain ⟨hdata, hd⟩ := List.forall_mem_cons.1 hd
    obtain ⟨m, hget, hexact⟩ := vreaderListGetReader_exact hl.1 he hr
    have hleft : Counted.Left s.readers m := (vreaderListGetReader_left hget).2.2
    obtain ⟨c, hread, hc⟩ := exists_data (s := { s with readers := m }) hexact List.mem_cons_self
    have hitem : c.item = d e.2 :=
      Option.some.inj ((data_of_left (s := s) hleft hc).symm.trans hdata)
    rw [firstOr.eq_2, lookup, hget, ok_bind]
    dsimp only at hread ⊢
    rw [hread, ok_bind, hitem, List.map_cons, List.find?_cons]
    by_cases hp : p (d e.2)
    · rw [if_pos hp, hp]
      exact ⟨m, rfl, hexact, hleft⟩
    · rw [if_neg hp, Bool.eq_false_iff.2 hp]
      obtain ⟨m', hfree, hexact'⟩ := vreaderFree_exact (s := { s with readers := m }) hexact
      have hleft' : Counted.Left m m' := (vreaderFree_left hfree).2
      obtain ⟨m'', hrun, hexact'', hleft''⟩ := lookup_found (p := p)
        (s := { s with readers := m' }) hl.2 (Nat.le_of_succ_le_succ hf) hmem
        (fun x hx => by
          rw [data_eq (s := s) (t := { s with readers := m' }) (hleft.trans hleft') hexact'
            (hmem x hx)]
          exact hd x hx) hexact'
      refine ⟨m'', ?_, hexact'', (hleft.trans hleft').trans hleft''⟩
      rw [hfree, ok_bind, next_holds (s := { s with readers := m' }) hl.1, ok_bind, hrun]

/-- What is done with each reader of a list, which takes one more reference of each. -/
theorem forEach_exact {α : Type} {f : VReaderData → List α} : ∀ {ns : List (ℕ × ℕ)} {l : List ℕ}
    {before : Option ℕ} {fuel : ℕ} {s : ReaderProgram}, Linked s.entries before none ns →
    ns.length ≤ fuel → (∀ e ∈ ns, e.2 ∈ l) → (∀ e ∈ ns, s.data e.2 = some (d e.2)) →
    Counted.Exact s.readers l →
    ∃ m, forEach f fuel s (firstOr none ns) = .ok ({ s with readers := m }, ns.map Prod.snd,
        (ns.map Prod.snd).flatMap fun r => f (d r))
      ∧ Counted.Exact m (ns.map Prod.snd ++ l) ∧ Counted.Left s.readers m
  | [], _, _, fuel, s, _, _, _, _, he => by
    refine ⟨s.readers, ?_, he, .refl _⟩
    rcases fuel <;> rfl
  | e :: ns, _, _, fuel + 1, s, hl, hf, hmem, hd, he => by
    obtain ⟨hr, hmem⟩ := List.forall_mem_cons.1 hmem
    obtain ⟨hdata, hd⟩ := List.forall_mem_cons.1 hd
    obtain ⟨m, hget, hexact⟩ := vreaderListGetReader_exact hl.1 he hr
    have hleft : Counted.Left s.readers m := (vreaderListGetReader_left hget).2.2
    obtain ⟨c, hread, hc⟩ := exists_data (s := { s with readers := m }) hexact List.mem_cons_self
    have hitem : c.item = d e.2 :=
      Option.some.inj ((data_of_left (s := s) hleft hc).symm.trans hdata)
    have hmem' : ∀ x ∈ ns, x.2 ∈ e.2 :: _ := fun x hx => List.mem_cons_of_mem _ (hmem x hx)
    obtain ⟨m', hrun, hexact', hleft'⟩ := forEach_exact (f := f) (s := { s with readers := m }) hl.2
      (Nat.le_of_succ_le_succ hf) hmem'
      (fun x hx => by
        rw [data_eq (s := s) (t := { s with readers := m }) hleft hexact (hmem' x hx)]
        exact hd x hx) hexact
    refine ⟨m', ?_, hexact'.perm List.perm_middle, hleft.trans hleft'⟩
    rw [firstOr.eq_2, forEach, hget, ok_bind]
    dsimp only at hread ⊢
    rw [hread, ok_bind, next_holds (s := { s with readers := m }) hl.1, ok_bind, hrun, ok_bind,
      hitem]
    rfl

end Walks

theorem queueNew_left {type : VEventType} {r : ℕ} (h : s.queueNew type r = .ok s') :
    Counted.Left s.readers s'.readers := by
  obtain ⟨⟨s₁, event⟩, hnew, h⟩ := bind_eq_ok.1 h
  obtain ⟨s₂, href, hnew⟩ := bind_eq_ok.1 hnew
  obtain ⟨rfl, rfl⟩ := Prod.mk.inj (Except.ok.inj hnew)
  obtain rfl := Except.ok.inj h
  exact (vreaderReference_left href).2

theorem data_set {r x : ℕ} {c c' : VReader} (hc : s.readers.Holds r c) :
    ({ s with readers := s.readers.set r (some c') } : ReaderProgram).data x
      = if x = r then some c'.item else s.data x := by
  split_ifs with hx
  · subst hx
    exact data_eq_some.2 ⟨c', hc.set_same, rfl⟩
  · have hsame : (s.readers.set r (some c'))[x]? = s.readers[x]? :=
      List.getElem?_set_ne (Ne.symm hx)
    simp only [data, Heap.read, hsame]

/-- A card comes or goes: the reader has it, nothing else changes, and an event is queued. -/
theorem vreaderInsertCard_exact {r : ℕ} (he : Counted.Exact s.readers l) (hr : r ∈ l)
    (hasCard : Bool) : ∃ m, s.vreaderInsertCard r hasCard = .ok { s with
        readers := m
        queue := s.queue ++ [⟨if hasCard then .cardInsert else .cardRemove, r⟩] }
      ∧ Counted.Exact m (r :: l)
      ∧ ∀ x ∈ l, ({ s with readers := m } : ReaderProgram).data x
        = (s.data x).map fun d => if x = r then { d with hasCard := hasCard } else d := by
  obtain ⟨c, hc⟩ := he.live r hr
  have hexact := he.setItem hc { c.item with hasCard := hasCard }
  have hread : Heap.read
      (s.readers.set r (some { c with item := { c.item with hasCard := hasCard } })) r = .ok _ :=
    Heap.read_of_holds hc.set_same
  obtain ⟨m, hqueue, hexact'⟩ := queueNew_exact (if hasCard then .cardInsert else .cardRemove)
    (s := { s with readers := s.readers.set r _ }) hexact hr
  refine ⟨m, ?_, hexact', fun x hx => ?_⟩
  · rw [vreaderInsertCard, Heap.read_of_holds hc, ok_bind, Heap.write_of_holds hc, ok_bind,
      vreaderQueueCardEvent, hread, ok_bind]
    exact hqueue
  · refine (data_eq (s := { s with readers := s.readers.set r _ }) (queueNew_left hqueue) hexact'
      (List.mem_cons_of_mem _ hx)).trans ?_
    rw [data_set hc]
    split_ifs with hxr
    · subst hxr
      rw [data_eq_some.2 ⟨c, hc, rfl⟩]
      rfl
    · rw [Option.map_id']

end ReaderProgram

theorem readersFrom_linked {h : Heap (VReaderListEntry ℕ)} : ∀ {es : List (ℕ × ℕ)}
    {before : Option ℕ} {fuel : ℕ}, Linked h before none es → es.length ≤ fuel →
    readersFrom h fuel (firstOr none es) = es.map Prod.snd
  | [], _, fuel, _, _ => by rcases fuel <;> rfl
  | e :: es, _, fuel + 1, hl, hf => by
    rw [firstOr.eq_2, readersFrom, Heap.read_of_holds hl.1]
    simp only [VReaderListEntry.reader, List.map_cons,
      readersFrom_linked hl.2 (Nat.le_of_succ_le_succ hf)]

namespace ReaderSystem

variable {y : ReaderSystem} {es : List (ℕ × ℕ)} {cs : List (List (ℕ × ℕ))} {d : ℕ → VReaderData}

theorem Lists.registered (h : y.Lists es cs) : y.program.registered = es.map Prod.snd := by
  rw [ReaderProgram.registered, h.head, readersFrom_linked h.linked h.fuel]

theorem Lists.seen (h : y.Lists es cs) (hd : ∀ e ∈ es, y.program.data e.2 = some (d e.2)) :
    y.program.seen = es.map fun e => (e.2, d e.2) := by
  rw [ReaderProgram.seen, h.registered, List.filterMap_map, ← List.filterMap_eq_map]
  refine List.filterMap_congr fun e he => ?_
  simp only [Function.comp_apply, hd e he, Option.map_some]

theorem exists_data {l : List ℕ} (he : Counted.Exact y.program.readers l) :
    ∃ d : ℕ → VReaderData, ∀ r ∈ l, y.program.data r = some (d r) := by
  refine ⟨fun r => (y.program.data r).getD ⟨0, "", false⟩, fun r hr => ?_⟩
  obtain ⟨c, -, hc⟩ := ReaderProgram.exists_data he hr
  simp only [hc, Option.getD_some]

/-- Nothing but the readers changed, and those listed have new data. -/
theorem Lists.seen_of (h : y.Lists es cs) {z : ReaderSystem} {f : ℕ → VReaderData → VReaderData}
    (hentries : z.program.entries = y.program.entries) (hlist : z.program.list = y.program.list)
    (hd : ∀ e ∈ es, y.program.data e.2 = some (d e.2))
    (hdata : ∀ e ∈ es, z.program.data e.2 = (y.program.data e.2).map (f e.2)) :
    z.program.seen = y.program.seen.map fun e => (e.1, f e.1 e.2) := by
  have hlists' : ({ z with copies := y.copies } : ReaderSystem).Lists es cs :=
    h.frame hlist rfl fun _ _ => by rw [hentries]
  have hd' : ∀ e ∈ es, z.program.data e.2 = some (f e.2 (d e.2)) := by
    intro e he
    rw [hdata e he, hd e he]
    rfl
  have hseen := hlists'.seen (d := fun r => f r (d r)) hd'
  rw [h.seen hd, List.map_map]
  exact hseen

/-- A copy of the registered list has the same readers in the same order. -/
theorem Lists.copied (h : y.Lists es cs) (he : Counted.Exact y.program.readers (y.refs es cs)) :
    ∃ m entries ns, y.program.vreaderGetReaderList
        = .ok ({ y.program with readers := m, entries := entries },
          ⟨firstOr none ns, lastOr none ns⟩)
      ∧ ns.map Prod.snd = es.map Prod.snd ∧ Linked entries none none ns ∧ (ns.map Prod.fst).Nodup
      ∧ (∀ e ∈ ns, y.program.entries.length ≤ e.1)
      ∧ (∀ a < y.program.entries.length, entries[a]? = y.program.entries[a]?)
      ∧ Counted.Exact m (ns.map Prod.snd ++ y.refs es cs)
      ∧ Counted.Left y.program.readers m := by
  obtain ⟨m, entries, ns, hrun, hl, hnd, hge, hframe, hexact⟩ := ReaderProgram.copyList_exact []
    h.linked h.fuel (Nat.le_refl _) (fun _ _ => rfl) trivial List.nodup_nil (by simp)
    (fun e he => mem_refs_of_entry (List.mem_append_left _ he)) he
  obtain ⟨hcopy, hleft⟩ := ReaderProgram.copyList_left hrun
  have hempty : Linked y.program.entries none none ([] : List (ℕ × ℕ)) := trivial
  obtain ⟨entries', ns', hcopy', hsnd, hl', -, -⟩ := copyEntries_linked h.linked h.fuel
    (Nat.le_refl _) (fun _ _ => rfl) hempty List.nodup_nil (by simp)
  obtain ⟨rfl, hends⟩ := Prod.mk.inj (Except.ok.inj (hcopy.symm.trans hcopy'))
  obtain rfl := hl.unique hl' (VReaderList.mk.inj hends).1
  refine ⟨m, _, ns, ?_, hsnd, hl, hnd, hge, hframe, hexact, hleft⟩
  rw [ReaderProgram.vreaderGetReaderList, h.head]
  exact hrun

end ReaderSystem

namespace Console

/-- The line was carried out: on the desk is `d`, and `l` are the references taken that nobody gives
back. -/
structure Did (y y' : Console) (d : Desk) (l : List ℕ) : Prop where
  counts : y'.system.CountsExact
  lost : y'.lost = l ++ y.lost
  held : y'.system.held = l ++ y.system.held
  desk : y'.desk = d

/-- What `force` does to a card is told by `becomes`. -/
def Forces (force : ReaderProgram → ℕ → Except Fault (ReaderProgram × VCardEmulError))
    (becomes : VReaderData → Option Bool) : Prop :=
  ∀ s r c, s.readers.read r = .ok c → force s r = match becomes c.item with
    | none => .ok (s, .fail)
    | some hasCard => do return (← s.vreaderInsertCard r hasCard, .ok)

theorem forces_inserted (now : CardNow) :
    Forces (·.vcardEmulForceCardInsert now) now.inserted := by
  intro s r c hread
  simp only [ReaderProgram.vcardEmulForceCardInsert, hread, ok_bind, CardNow.inserted]
  rcases now with ⟨_ | _, _ | _, _ | _, m⟩ <;> rcases c.item.hasCard <;> simp

theorem forces_removed (now : CardNow) :
    Forces (·.vcardEmulForceCardRemove now) now.removed := by
  intro s r c hread
  simp only [ReaderProgram.vcardEmulForceCardRemove, hread, ok_bind, CardNow.removed]
  rcases now with ⟨_ | _, _ | _, _ | _, m⟩ <;> rcases c.item.hasCard <;> simp

variable {y : Console} {es : List (ℕ × ℕ)} {cs : List (List (ℕ × ℕ))} {d : ℕ → VReaderData}

section Commands

variable (hlists : y.system.Lists es cs)
  (hexact : Counted.Exact y.system.program.readers (y.system.refs es cs))
  (hd : ∀ e ∈ es, y.system.program.data e.2 = some (d e.2))

include hlists hexact hd

/-- A lookup by id finds the reader the desk has under that id. -/
theorem getReaderById_found (id : UInt32) :
    ∃ m r, y.system.program.vreaderGetReaderById id
        = .ok ({ y.system.program with readers := m }, r)
      ∧ Counted.Exact m (r.toList ++ y.system.refs es cs)
      ∧ Counted.Left y.system.program.readers m
      ∧ y.desk.named id = r.map (fun r => (r, d r)) ∧ ∀ r' ∈ r, ∃ e ∈ es, e.2 = r' := by
  have hseen : y.desk.readers = es.map fun e => (e.2, d e.2) := hlists.seen hd
  unfold ReaderProgram.vreaderGetReaderById Desk.named
  split_ifs with hid
  · exact ⟨y.system.program.readers, none, rfl, hexact, .refl _, rfl, by simp⟩
  · obtain ⟨m, hrun, hexact', hleft⟩ := ReaderProgram.lookup_found (d := d)
      (p := fun r => decide (r.id = id)) hlists.linked hlists.fuel
      (fun e he => ReaderSystem.mem_refs_of_entry (List.mem_append_left _ he)) hd hexact
    rw [← hlists.head] at hrun
    refine ⟨m, _, hrun, hexact', hleft, ?_, fun r hr => ?_⟩
    · rw [hseen, List.find?_map, List.find?_map, Option.map_map]
      rfl
    · obtain ⟨e, he, heq⟩ := List.mem_map.1 (List.mem_of_find?_eq_some hr)
      exact ⟨e, he, heq⟩

omit hexact in
/-- The readers and the events changed, and what is seen of them is on the desk. -/
theorem did_of {m : Heap VReader} {queue : List VEvent} {l : List ℕ} {y' : Console}
    {f : ℕ → VReaderData → VReaderData} {d' : Desk}
    (hsystem : y'.system = { y.system with
      program := { y.system.program with readers := m, queue := queue } })
    (hlost : y'.lost = y.lost) (he : Counted.Exact m l)
    (hcount : ∀ a, l.count a = (y'.system.refs es cs).count a)
    (hdata : ∀ e ∈ es, ({ y.system.program with readers := m } : ReaderProgram).data e.2
      = (y.system.program.data e.2).map (f e.2))
    (hdesk : { y'.desk with readers := y.desk.readers.map fun e => (e.1, f e.1 e.2) } = d') :
    y.Did y' d' [] := by
  have hprogram : y'.system.program
      = { y.system.program with readers := m, queue := queue } := by rw [hsystem]
  have hexact' : Counted.Exact y'.system.program.readers l := by rw [hprogram]; exact he
  have hseen := hlists.seen_of (z := y'.system) (f := f) (by rw [hprogram]) (by rw [hprogram]) hd
    (by rw [hprogram]; exact hdata)
  refine ⟨.intro (hlists.frame (by rw [hprogram]) (by rw [hsystem]) fun _ _ => by rw [hprogram])
    hexact' hcount, hlost, by rw [hsystem]; rfl, ?_⟩
  rw [← hdesk]
  unfold desk at hseen ⊢
  rw [hseen]

omit hlists hexact hd in
/-- The registered readers keep their data while every reference to them is counted. -/
theorem data_kept {m : Heap VReader} {entries : Heap (VReaderListEntry ℕ)} {l : List ℕ}
    (hleft : Counted.Left y.system.program.readers m) (he : Counted.Exact m l)
    (hrefs : y.system.refs es cs ⊆ l) : ∀ e ∈ es,
      ({ y.system.program with readers := m, entries := entries } : ReaderProgram).data e.2
        = y.system.program.data e.2 := by
  intro e hmem
  exact ReaderProgram.data_eq hleft he
    (hrefs (ReaderSystem.mem_refs_of_entry (List.mem_append_left _ hmem)))

omit hexact in
/-- Only the counts of the readers changed. -/
theorem did_same {m : Heap VReader} {y' : Console} {d' : Desk}
    (hsystem : y'.system = { y.system with program := { y.system.program with readers := m } })
    (hlost : y'.lost = y.lost) (hleft : Counted.Left y.system.program.readers m)
    (he : Counted.Exact m (y.system.refs es cs))
    (hdesk : { y'.desk with readers := y.desk.readers } = d') : y.Did y' d' [] := by
  refine did_of hlists hd (f := fun _ d => d) hsystem hlost he (fun a => ?_) (fun e hmem => ?_) ?_
  · rw [hsystem]
    rfl
  · rw [Option.map_id']
    exact data_kept hleft he (List.Subset.refl _) e hmem
  · rw [List.map_id']
    exact hdesk

omit hlists hexact in
/-- The reader that was found is as the desk has it. -/
theorem read_found {m : Heap VReader} {e : ℕ × ℕ} {l : List ℕ} (hmem : e ∈ es)
    (hleft : Counted.Left y.system.program.readers m) (he : Counted.Exact m (e.2 :: l)) :
    ∃ c, ({ y.system.program with readers := m } : ReaderProgram).readers.read e.2 = .ok c
      ∧ c.item = d e.2 := by
  obtain ⟨c, hread, hc⟩ := ReaderProgram.exists_data
    (s := { y.system.program with readers := m }) he List.mem_cons_self
  have hold : y.system.program.data e.2 = some c.item :=
    ReaderProgram.data_of_left (s := y.system.program) hleft hc
  exact ⟨c, hread, Option.some.inj (hold.symm.trans (hd e hmem))⟩

theorem doForce_did {word : String} {string : Bytes} {id : UInt32}
    {force : ReaderProgram → ℕ → Except Fault (ReaderProgram × VCardEmulError)}
    {becomes : VReaderData → Option Bool} (hforce : Forces force becomes)
    (hid : readerIdIn string y.defaultReaderId y.defaultReaderId = .ok id) :
    ∃ y', y.doForce word force string = .ok y' ∧ y.Did y' (y.desk.force word becomes id) [] := by
  obtain ⟨m, r, hfind, hexact₁, hleft₁, hnamed, hmem⟩ := getReaderById_found hlists hexact hd id
  rw [doForce, hid, ok_bind, hfind, ok_bind, Desk.force, hnamed]
  rcases r with _ | r
  · exact ⟨_, rfl, did_same hlists hd rfl rfl hleft₁ hexact₁ rfl⟩
  obtain ⟨e, he, rfl⟩ := hmem r rfl
  obtain ⟨c, hread, hitem⟩ := read_found hd he hleft₁ hexact₁
  simp only [Option.map_some, hforce _ _ c hread, hitem]
  rcases becomes (d e.2) with _ | b
  · obtain ⟨m₂, hfree, hexact₂⟩ := ReaderProgram.vreaderFree_exact
      (s := { y.system.program with readers := m }) hexact₁
    have hleft₂ : Counted.Left m m₂ := (ReaderProgram.vreaderFree_left hfree).2
    simp only [ok_bind, hread, hfree, hitem]
    exact ⟨_, rfl, did_same hlists hd rfl rfl (hleft₁.trans hleft₂) hexact₂ rfl⟩
  · obtain ⟨m₂, hinsert, hexact₂, hdata₂⟩ := ReaderProgram.vreaderInsertCard_exact
      (s := { y.system.program with readers := m }) hexact₁ List.mem_cons_self b
    obtain ⟨c₂, hread₂, hc₂⟩ := ReaderProgram.exists_data
      (s := { y.system.program with readers := m₂ }) hexact₂ List.mem_cons_self
    have hname : c₂.item.name = (d e.2).name := by
      have hc : ({ y.system.program with readers := m } : ReaderProgram).data e.2 = some c.item :=
        ReaderProgram.data_eq_some.2 ⟨c, Heap.read_eq_ok.1 hread, rfl⟩
      have hdata : some c₂.item = _ := hc₂.symm.trans (hdata₂ e.2 List.mem_cons_self)
      rw [hc, hitem, Option.map_some, if_pos rfl] at hdata
      rw [Option.some.inj hdata]
    obtain ⟨m₃, hfree, hexact₃⟩ := ReaderProgram.vreaderFree_exact
      (s := { y.system.program with
        readers := m₂
        queue := y.system.program.queue ++ [⟨if b then .cardInsert else .cardRemove, e.2⟩] })
      hexact₂
    have hleft₃ : Counted.Left m₂ m₃ := (ReaderProgram.vreaderFree_left hfree).2
    simp only [ok_bind, hinsert, pure_eq, hread₂, hfree, hname]
    refine ⟨_, rfl, did_of hlists hd
      (f := fun x d => if x = e.2 then { d with hasCard := b } else d)
      rfl rfl hexact₃ (fun a => ?_) (fun x hx => ?_) ?_⟩
    · simp only [ReaderSystem.refs, goOn, print, Option.toList_some, List.count_append,
        List.count_cons, List.map_append, List.map_cons, List.map_nil, List.count_nil]
      omega
    · have hmem : x.2 ∈ y.system.refs es cs :=
        ReaderSystem.mem_refs_of_entry (List.mem_append_left _ hx)
      have hsame : ({ y.system.program with readers := m₃ } : ReaderProgram).data x.2 = _ :=
        ReaderProgram.data_eq (s := { y.system.program with readers := m₂ }) hleft₃ hexact₃
          (List.mem_cons_of_mem _ hmem)
      have hold : ({ y.system.program with readers := m } : ReaderProgram).data x.2 = _ :=
        ReaderProgram.data_eq hleft₁ hexact₁ (List.mem_cons_of_mem _ hmem)
      rw [hsame, ← hold]
      exact hdata₂ x.2 (List.mem_cons_of_mem _ hmem)
    · rfl

theorem doSelect_did {string : Bytes} {id : UInt32}
    (hid : readerIdIn string vscardUndefinedReaderId y.defaultReaderId = .ok id) :
    ∃ y', y.doSelect string = .ok y' ∧ y.Did y' (y.desk.select id) [] := by
  obtain ⟨m, r, hfind, hexact₁, hleft₁, hnamed, hmem⟩ := getReaderById_found hlists hexact hd id
  have hfind' : y.selected id = .ok ({ y.system.program with readers := m }, r) := by
    unfold selected
    split_ifs with hne
    · exact hfind
    · rw [not_not.1 hne] at hfind
      exact hfind
  rw [doSelect, hid, ok_bind, hfind', ok_bind, Desk.select, hnamed]
  rcases r with _ | r
  · exact ⟨_, rfl, did_same hlists hd rfl rfl hleft₁ hexact₁ rfl⟩
  obtain ⟨e, he, rfl⟩ := hmem r rfl
  obtain ⟨c, hread, hitem⟩ := read_found hd he hleft₁ hexact₁
  obtain ⟨m₂, hfree, hexact₂⟩ := ReaderProgram.vreaderFree_exact
    (s := { y.system.program with readers := m }) hexact₁
  have hleft₂ : Counted.Left m m₂ := (ReaderProgram.vreaderFree_left hfree).2
  simp only [ok_bind, hread, hfree, hitem, Option.map_some]
  exact ⟨_, rfl, did_same hlists hd rfl rfl (hleft₁.trans hleft₂) hexact₂ rfl⟩

omit hexact in
theorem seen_eq : y.desk.readers = es.map fun e => (e.2, d e.2) := hlists.seen hd

omit hlists hexact hd in
theorem flatMap_unless {α β : Type} (p : α → Prop) [DecidablePred p] (g : α → List β) :
    ∀ l : List α, (l.flatMap fun x => if p x then [] else g x) = (l.filter fun x => ¬ p x).flatMap g
  | [] => rfl
  | x :: l => by
    rw [List.flatMap_cons, flatMap_unless p g l, List.filter_cons]
    by_cases hp : p x <;> simp [hp]

omit hlists hexact hd in
theorem farewells (readers : List VReaderData) : readers.flatMap farewell
    = (readers.filter fun reader => reader.id ≠ vreaderNoId).flatMap fun reader =>
      (if reader.hasCard then [⟨⟨VSCMsgType.cardRemove.value, 0, 0⟩, []⟩] else [])
        ++ [⟨⟨VSCMsgType.readerRemove.value, 0, 0⟩, []⟩] :=
  flatMap_unless (fun reader : VReaderData => reader.id = vreaderNoId) _ readers

omit hlists hexact hd in
theorem activeLines (readers : List VReaderData) : readers.flatMap activeLine
    = (readers.filter fun reader => reader.id ≠ vreaderNoId).map fun reader =>
      printId reader.id ++ " " ++ Desk.present reader ++ " " ++ reader.name ++ "\n" := by
  refine (flatMap_unless (fun reader : VReaderData => reader.id = vreaderNoId) _ readers).trans ?_
  exact List.map_eq_flatMap.symm

omit hlists hexact hd in
/-- No reader is left out: the id looked at is that of the `NULL` reader. -/
theorem inactiveLines (readers : List VReaderData) : readers.flatMap inactiveLine
    = readers.map fun reader =>
      "INA " ++ Desk.present reader ++ " " ++ reader.name ++ "\n" :=
  List.map_eq_flatMap.symm

omit hlists hexact in
/-- The readers of a copy have what those of the registered list had. -/
theorem copied_data {m : Heap VReader} {entries : Heap (VReaderListEntry ℕ)} {ns : List (ℕ × ℕ)}
    {l : List ℕ} (hsnd : ns.map Prod.snd = es.map Prod.snd)
    (hleft : Counted.Left y.system.program.readers m)
    (he : Counted.Exact m (ns.map Prod.snd ++ l)) : ∀ e ∈ ns,
      ({ y.system.program with readers := m, entries := entries } : ReaderProgram).data e.2
        = some (d e.2) := by
  intro e hmem
  have hcopy : e.2 ∈ ns.map Prod.snd := List.mem_map_of_mem hmem
  obtain ⟨x, hx, heq⟩ := List.mem_map.1 (hsnd ▸ hcopy)
  refine (ReaderProgram.data_eq hleft he (List.mem_append_left _ hcopy)).trans ?_
  rw [← heq]
  exact hd x hx

omit hlists hexact in
/-- Going through a copy takes a reference to each of its readers. -/
theorem forEach_copied {α : Type} (f : VReaderData → List α) {m : Heap VReader}
    {entries : Heap (VReaderListEntry ℕ)} {ns : List (ℕ × ℕ)} {l : List ℕ}
    (hsnd : ns.map Prod.snd = es.map Prod.snd) (hl : Linked entries none none ns)
    (hnd : (ns.map Prod.fst).Nodup) (hleft : Counted.Left y.system.program.readers m)
    (he : Counted.Exact m (ns.map Prod.snd ++ l)) :
    ∃ m', ReaderProgram.forEach f (entries.length + 1)
        { y.system.program with readers := m, entries := entries } (firstOr none ns)
        = .ok ({ y.system.program with readers := m', entries := entries }, ns.map Prod.snd,
          (ns.map Prod.snd).flatMap fun r => f (d r))
      ∧ Counted.Exact m' (ns.map Prod.snd ++ (ns.map Prod.snd ++ l))
      ∧ Counted.Left y.system.program.readers m' := by
  have hfuel : ns.length ≤ entries.length + 1 := Nat.le_succ_of_le (hl.length_le hnd)
  have hmem : ∀ e ∈ ns, e.2 ∈ ns.map Prod.snd ++ l := fun e he =>
    List.mem_append_left _ (List.mem_map_of_mem he)
  obtain ⟨m', hloop, hexact', hleft'⟩ := ReaderProgram.forEach_exact (f := f)
    (s := { y.system.program with readers := m, entries := entries }) hl hfuel hmem
    (copied_data hd hsnd hleft he) he
  exact ⟨m', hloop, hexact', hleft.trans hleft'⟩

omit hexact in
/-- Going through a copy of the list is going through the readers on the desk. -/
theorem desk_of_copy {ns : List (ℕ × ℕ)} (hsnd : ns.map Prod.snd = es.map Prod.snd) :
    y.desk.readers.map Prod.fst = ns.map Prod.snd
      ∧ ∀ {α : Type} (f : VReaderData → List α), ((ns.map Prod.snd).flatMap fun r => f (d r))
        = (y.desk.readers.map Prod.snd).flatMap f := by
  have hseen := seen_eq hlists hd
  constructor
  · rw [hseen, List.map_map, hsnd]
    rfl
  · intro α f
    have hdata : y.desk.readers.map Prod.snd = (ns.map Prod.snd).map d := by
      rw [hseen, List.map_map, hsnd, List.map_map]
      rfl
    rw [hdata]
    exact (List.flatMap_map ..).symm

theorem doExit_did :
    ∃ y', y.doExit = .ok y' ∧ y.Did y' y.desk.exit (y.desk.readers.map Prod.fst) := by
  obtain ⟨m, entries, ns, hcopy, hsnd, hl, hnd, hge, hframe, hexact₁, hleft₁⟩ :=
    hlists.copied hexact
  obtain ⟨m₂, hloop, hexact₂, hleft₂⟩ := forEach_copied hd farewell hsnd hl hnd hleft₁ hexact₁
  obtain ⟨hfst, hgone⟩ := desk_of_copy hlists hd hsnd
  rw [doExit, hcopy, ok_bind]
  dsimp only [ReaderProgram.fuel] at hloop ⊢
  rw [hloop, ok_bind]
  have hlists' : ({ y.system with
      program := { y.system.program with readers := m₂, entries := entries }
      copies := y.system.copies ++ [⟨firstOr none ns, lastOr none ns⟩]
      held := ns.map Prod.snd ++ y.system.held } : ReaderSystem).Lists es (cs ++ [ns]) :=
    hlists.snoc rfl rfl hframe hl hnd hge
  refine ⟨_, rfl, ⟨.intro hlists' hexact₂ fun a => ?_, ?_, ?_, ?_⟩⟩
  · simp only [ReaderSystem.refs, goOn, print, List.count_append, List.map_append,
      List.flatten_append, List.flatten_singleton]
    omega
  · rw [hfst]
    rfl
  · rw [hfst]
    rfl
  · have hdata' : ∀ e ∈ es, ({ y.system.program with readers := m₂, entries := entries } :
        ReaderProgram).data e.2 = some (d e.2) := fun e he =>
      (data_kept hleft₂ hexact₂
        (fun r hr => List.mem_append_right _ (List.mem_append_right _ hr)) e he).trans (hd e he)
    have hseen := (hlists'.seen hdata').trans (seen_eq hlists hd).symm
    have hexit : y.socketToSend ++ ((ns.map Prod.snd).flatMap fun r => farewell (d r))
        = y.desk.exit.unsent := by
      rw [hgone farewell, farewells]
      rfl
    exact Desk.ext hseen rfl rfl rfl hexit rfl rfl

theorem doList_did : ∃ y', y.doList = .ok y' ∧ y.Did y' y.desk.list
    (y.desk.readers.map Prod.fst ++ y.desk.readers.map Prod.fst) := by
  obtain ⟨m, entries, ns, hcopy, hsnd, hl, hnd, hge, hframe, hexact₁, hleft₁⟩ :=
    hlists.copied hexact
  obtain ⟨m₂, hloop, hexact₂, hleft₂⟩ := forEach_copied hd activeLine hsnd hl hnd hleft₁ hexact₁
  obtain ⟨m₃, hloop', hexact₃, hleft₃⟩ :=
    forEach_copied hd inactiveLine hsnd hl hnd hleft₂ hexact₂
  have hfuel : ns.length ≤ entries.length + 1 := Nat.le_succ_of_le (hl.length_le hnd)
  obtain ⟨m₄, entries₄, hdelete, hexact₄, hframe₄⟩ := ReaderProgram.listDelete_exact
    (l := ns.map Prod.snd ++ (ns.map Prod.snd ++ y.system.refs es cs))
    (s := { y.system.program with readers := m₃, entries := entries }) hl hnd hfuel hexact₃
  have hleft₄ : Counted.Left m₃ m₄ := ReaderProgram.listDelete_left hdelete
  obtain ⟨hfst, hgone⟩ := desk_of_copy hlists hd hsnd
  rw [doList, hcopy, ok_bind]
  dsimp only [ReaderProgram.fuel, ReaderProgram.vreaderListDelete] at hloop hloop' ⊢
  rw [hloop, ok_bind]
  dsimp only
  rw [hloop', ok_bind]
  dsimp only
  rw [hdelete, ok_bind]
  have hframe' : ∀ a < y.system.program.entries.length,
      entries₄[a]? = y.system.program.entries[a]? := by
    intro a ha
    rw [hframe₄ a ?_, hframe a ha]
    intro hmem
    obtain ⟨e, he, rfl⟩ := List.mem_map.1 hmem
    exact absurd ha (Nat.not_lt.2 (hge e he))
  have hlists' : ({ y.system with
      program := { y.system.program with readers := m₄, entries := entries₄ }
      held := ns.map Prod.snd ++ ns.map Prod.snd ++ y.system.held } : ReaderSystem).Lists es cs :=
    hlists.frame rfl rfl hframe'
  refine ⟨_, rfl, ⟨.intro hlists' hexact₄ fun a => ?_, ?_, ?_, ?_⟩⟩
  · simp only [ReaderSystem.refs, goOn, print, List.count_append]
    omega
  · rw [hfst]
  · rw [hfst]
    rfl
  have hdata' : ∀ e ∈ es, ({ y.system.program with readers := m₄, entries := entries₄ } :
      ReaderProgram).data e.2 = some (d e.2) := fun e he =>
    (data_kept (hleft₃.trans hleft₄) hexact₄
      (fun r hr => List.mem_append_right _ (List.mem_append_right _ hr)) e he).trans
      (hd e he)
  have hseen := (hlists'.seen hdata').trans (seen_eq hlists hd).symm
  refine Desk.ext hseen rfl rfl rfl rfl ?_ rfl
  simp only [desk, goOn, print, Desk.list, Desk.print, hgone, activeLines, inactiveLines,
    List.append_assoc, List.cons_append, List.nil_append]

omit hd in
/-- Nothing happens but on the desk. -/
theorem did_desk {y' : Console} (hsystem : y'.system = y.system) (hlost : y'.lost = y.lost) :
    y.Did y' y'.desk [] :=
  ⟨hsystem ▸ ⟨es, cs, hlists, hexact⟩, hlost, by rw [hsystem]; rfl, rfl⟩

end Commands

/-- The line does to the console what it does on the desk, or fails as it does there. -/
inductive Does (y : Console) (l : List ℕ) : Except Fault Console → Except Fault Desk → Prop
  | done {y' : Console} {d : Desk} (h : y.Did y' d l) : Does y l (.ok y') (.ok d)
  | fails (e : Fault) : Does y l (.error e) (.error e)

theorem Does.prompt {l : List ℕ} {x : Except Fault Console} {d : Except Fault Desk}
    (h : y.Does l x d) : y.Does l (x >>= fun y => pure (y.print ["> "]))
      (d >>= fun d => pure (d.print ["> "])) := by
  rcases h with @⟨y', d, h⟩ | e
  · refine .done ⟨h.counts, h.lost, h.held, ?_⟩
    rw [← h.desk]
    rfl
  · exact .fails e

/-- The reader on a line that may name one. -/
theorem readerIdIn_eq {string : Bytes} (h : Text.insert.isPrefixOf string
    ∨ Text.remove.isPrefixOf string ∨ Text.select.isPrefixOf string) (supplied id : UInt32) :
    readerIdIn string supplied id = Desk.idOr id (numberIn string) supplied := by
  unfold readerIdIn numberIn
  rw [if_pos h]
  split_ifs <;> rfl

/-- No line starts with two words neither of which starts with the other. -/
theorem not_both {v w string : Bytes} (hv : v.isPrefixOf string) (hvw : ¬ v <+: w)
    (hwv : ¬ w <+: v) : ¬ w.isPrefixOf string := by
  intro hw
  rcases List.prefix_or_prefix_of_prefix (List.isPrefixOf_iff_prefix.1 hv)
    (List.isPrefixOf_iff_prefix.1 hw) with h | h
  · exact hvw h
  · exact hwv h

theorem numberIn_debug {string : Bytes} (h : Text.debug.isPrefixOf string) :
    numberIn string = if string[5]? = some Text.space then some (string.drop 6) else none := by
  have hnot : ¬ (Text.insert.isPrefixOf string ∨ Text.remove.isPrefixOf string
      ∨ Text.select.isPrefixOf string) := by
    rintro (hw | hw | hw) <;> exact not_both h (by decide) (by decide) hw
  rw [numberIn, if_neg hnot, if_pos h]

section

variable (hlists : y.system.Lists es cs)
  (hexact : Counted.Exact y.system.program.readers (y.system.refs es cs))
  (hd : ∀ e ∈ es, y.system.program.data e.2 = some (d e.2))

include hlists hexact hd

theorem doForce_does {word : String} {string : Bytes}
    {force : ReaderProgram → ℕ → Except Fault (ReaderProgram × VCardEmulError)}
    {becomes : VReaderData → Option Bool} (hforce : Forces force becomes)
    (hstring : Text.insert.isPrefixOf string ∨ Text.remove.isPrefixOf string
      ∨ Text.select.isPrefixOf string) :
    y.Does [] (y.doForce word force string)
      ((Desk.idOr y.defaultReaderId (numberIn string) y.defaultReaderId).map
        (y.desk.force word becomes)) := by
  have hid := readerIdIn_eq hstring y.defaultReaderId y.defaultReaderId
  rcases hor : Desk.idOr y.defaultReaderId (numberIn string) y.defaultReaderId with e | id <;>
    rw [hor] at hid
  · rw [doForce, hid]
    exact .fails e
  · obtain ⟨y', hrun, hdid⟩ := doForce_did hlists hexact hd hforce hid
    rw [hrun]
    exact .done hdid

theorem doSelect_does {string : Bytes} (hstring : Text.select.isPrefixOf string) :
    y.Does [] (y.doSelect string)
      ((Desk.idOr y.defaultReaderId (numberIn string) vscardUndefinedReaderId).map
        y.desk.select) := by
  have hid := readerIdIn_eq (.inr (.inr hstring)) vscardUndefinedReaderId y.defaultReaderId
  rcases hor : Desk.idOr y.defaultReaderId (numberIn string) vscardUndefinedReaderId with e | id <;>
    rw [hor] at hid
  · rw [doSelect, hid]
    exact .fails e
  · obtain ⟨y', hrun, hdid⟩ := doSelect_did hlists hexact hd hid
    rw [hrun]
    exact .done hdid

omit hd in
theorem doDebug_does {string : Bytes} (hstring : Text.debug.isPrefixOf string) :
    y.Does [] (y.doDebug string)
      (((numberIn string).elim (.ok y.verbose) fun t =>
        (getIdFromString t 0).map UInt32.toInt32).map y.desk.debug) := by
  rw [numberIn_debug hstring, doDebug]
  split_ifs
  · rw [Option.elim_some]
    rcases getIdFromString (string.drop 6) 0 with e | id
    · exact .fails e
    · exact .done (did_desk hlists hexact rfl rfl)
  · exact .done (did_desk hlists hexact rfl rfl)

/-- The references that a line takes which is not `exit`. -/
theorem doBranch_does (now : CardNow) (string : Bytes) :
    y.Does (if Text.list.isPrefixOf string then
        y.desk.readers.map Prod.fst ++ y.desk.readers.map Prod.fst else [])
      (y.doBranch now string) (y.desk.branch now string) := by
  have hnot : ∀ w : Bytes, w.isPrefixOf string → ¬ Text.list <+: w → ¬ w <+: Text.list →
      ¬ Text.list.isPrefixOf string := fun w hw hl hl' => not_both hw hl' hl
  unfold doBranch Desk.branch
  dsimp only
  by_cases hinsert : Text.insert.isPrefixOf string
  · rw [if_pos hinsert, if_pos hinsert, if_neg (hnot _ hinsert (by decide) (by decide))]
    exact doForce_does hlists hexact hd (forces_inserted now) (.inl hinsert)
  rw [if_neg hinsert, if_neg hinsert]
  by_cases hremove : Text.remove.isPrefixOf string
  · rw [if_pos hremove, if_pos hremove, if_neg (hnot _ hremove (by decide) (by decide))]
    exact doForce_does hlists hexact hd (forces_removed now) (.inr (.inl hremove))
  rw [if_neg hremove, if_neg hremove]
  by_cases hselect : Text.select.isPrefixOf string
  · rw [if_pos hselect, if_pos hselect, if_neg (hnot _ hselect (by decide) (by decide))]
    exact doSelect_does hlists hexact hd hselect
  rw [if_neg hselect, if_neg hselect]
  by_cases hdebug : Text.debug.isPrefixOf string
  · rw [if_pos hdebug, if_pos hdebug, if_neg (hnot _ hdebug (by decide) (by decide))]
    exact doDebug_does hlists hexact hdebug
  rw [if_neg hdebug, if_neg hdebug]
  by_cases hlist : Text.list.isPrefixOf string
  · rw [if_pos hlist, if_pos hlist, if_pos hlist]
    obtain ⟨y', hrun, hdid⟩ := doList_did hlists hexact hd
    rw [hrun]
    exact .done hdid
  rw [if_neg hlist, if_neg hlist, if_neg hlist]
  by_cases hempty : string = []
  · rw [if_neg (not_not.2 hempty), if_pos hempty]
    exact .done (did_desk hlists hexact rfl rfl)
  · rw [if_pos hempty, if_neg hempty]
    exact .done (did_desk hlists hexact rfl rfl)

theorem doCommand_does (now : CardNow) (string : Option Bytes) :
    y.Does (y.desk.takes string) (y.doCommand now string) (y.desk.command now string) := by
  rcases string with _ | string
  · exact .done (did_desk hlists hexact rfl rfl)
  unfold doCommand Desk.command Desk.takes
  dsimp only
  by_cases hexit : Text.exit.isPrefixOf string
  · rw [if_pos hexit, if_pos hexit, if_pos hexit]
    obtain ⟨y', hrun, hdid⟩ := doExit_did hlists hexact hd
    rw [hrun]
    exact .done hdid
  · rw [if_neg hexit, if_neg hexit, if_neg hexit]
    exact (doBranch_does hlists hexact hd now string).prompt

end

section Numbers

theorem getIdFromString_ok {t : Bytes} (h : ∃ n, atoi t = .ok n) (defaultId : UInt32) :
    ∃ id, getIdFromString t defaultId = .ok id := by
  obtain ⟨n, hn⟩ := h
  rw [getIdFromString, hn]
  simp only [ok_bind]
  split_ifs <;> exact ⟨_, rfl⟩

/-- Where the numbers are `int`s no line fails. -/
theorem command_ok (now : CardNow) {string : Option Bytes} (dk : Desk)
    (h : ∀ t ∈ string.bind numberIn, ∃ n, atoi t = .ok n) :
    ∃ d', dk.command now string = .ok d' := by
  rcases string with _ | string
  · exact ⟨_, rfl⟩
  have hid : ∀ id supplied, ∃ n, Desk.idOr id (numberIn string) supplied = .ok n := by
    intro id supplied
    unfold Desk.idOr
    rcases hnumber : numberIn string with _ | t
    · exact ⟨id, rfl⟩
    · exact getIdFromString_ok (h t hnumber) supplied
  have hlevel : ∃ n, (numberIn string).elim (.ok dk.verbose) (fun t =>
      (getIdFromString t 0).map UInt32.toInt32) = .ok n := by
    rcases hnumber : numberIn string with _ | t
    · exact ⟨_, rfl⟩
    · obtain ⟨id, hid⟩ := getIdFromString_ok (h t hnumber) 0
      rw [Option.elim_some, hid]
      exact ⟨_, rfl⟩
  have hbranch : ∃ d', dk.branch now string = .ok d' := by
    obtain ⟨id, hor⟩ := hid dk.defaultReaderId dk.defaultReaderId
    obtain ⟨id', hor'⟩ := hid dk.defaultReaderId vscardUndefinedReaderId
    obtain ⟨level, hlevel⟩ := hlevel
    unfold Desk.branch
    dsimp only
    rw [hor, hor', hlevel]
    split_ifs <;> exact ⟨_, rfl⟩
  unfold Desk.command
  dsimp only
  split_ifs
  · exact ⟨_, rfl⟩
  · obtain ⟨d', hd'⟩ := hbranch
    rw [hd']
    exact ⟨_, rfl⟩

end Numbers

end Console

namespace ReaderSystem

variable {y y' : ReaderSystem}

theorem done_held {o : Unit} {x : Except Fault ReaderProgram}
    (h : (x >>= fun s => y.done s) = .ok (o, y')) : y'.held = y.held := by
  obtain ⟨s, -, hs⟩ := bind_eq_ok.1 h
  obtain ⟨-, rfl⟩ := Prod.mk.inj (Except.ok.inj hs)
  rfl

theorem hand_held {o : Unit} {x : ReaderProgram × Option ℕ}
    (h : y.hand x = .ok (o, y')) : ∃ l, y'.held = l ++ y.held := by
  obtain ⟨-, rfl⟩ := Prod.mk.inj (Except.ok.inj h)
  exact ⟨_, rfl⟩

/-- Only a caller who gives back a reference has fewer. -/
theorem step_held {o : Unit} {c : ReaderCall} (h : y.step c = .ok (o, y')) :
    (∃ l, y'.held = l ++ y.held) ∨ ∃ r, c = .free (some r) ∧ y'.held = y.held.erase r := by
  cases c with
  | free reader =>
    obtain ⟨s, -, hs⟩ := bind_eq_ok.1 h
    obtain ⟨-, rfl⟩ := Prod.mk.inj (Except.ok.inj hs)
    rcases reader with _ | r
    · exact .inl ⟨[], rfl⟩
    · exact .inr ⟨r, rfl, rfl⟩
  | new name => exact .inl (hand_held h)
  | reference reader =>
    obtain ⟨s, -, hs⟩ := bind_eq_ok.1 h
    exact .inl (hand_held hs)
  | getReaderById id =>
    obtain ⟨s, -, hs⟩ := bind_eq_ok.1 h
    exact .inl (hand_held hs)
  | getReaderByName name =>
    obtain ⟨s, -, hs⟩ := bind_eq_ok.1 h
    exact .inl (hand_held hs)
  | setId reader id => exact .inl ⟨[], done_held h⟩
  | addReader reader => exact .inl ⟨[], done_held h⟩
  | removeReader reader => exact .inl ⟨[], done_held h⟩
  | insertCard reader hasCard => exact .inl ⟨[], done_held h⟩
  | xfrBytes reader => exact .inl ⟨[], done_held h⟩
  | replay => exact .inl ⟨[], done_held h⟩
  | getReaderList =>
    obtain ⟨s, -, hs⟩ := bind_eq_ok.1 h
    obtain ⟨-, rfl⟩ := Prod.mk.inj (Except.ok.inj hs)
    exact .inl ⟨[], rfl⟩
  | eventNew type reader =>
    obtain ⟨s, -, hs⟩ := bind_eq_ok.1 h
    obtain ⟨-, rfl⟩ := Prod.mk.inj (Except.ok.inj hs)
    exact .inl ⟨[], rfl⟩
  | listDelete copy =>
    simp only [step] at h
    split at h
    · cases h
    · obtain ⟨s, -, hs⟩ := bind_eq_ok.1 h
      obtain ⟨-, rfl⟩ := Prod.mk.inj (Except.ok.inj hs)
      exact .inl ⟨[], rfl⟩
  | listGetReader copy entry =>
    simp only [step] at h
    split at h
    · cases h
    · obtain ⟨entry, -, hs⟩ := bind_eq_ok.1 h
      rcases entry with _ | entry
      · exact .inl (hand_held hs)
      · obtain ⟨s, -, hs⟩ := bind_eq_ok.1 hs
        exact .inl (hand_held hs)
  | eventQueue event =>
    simp only [step] at h
    split at h
    · cases h
    · obtain ⟨-, rfl⟩ := Prod.mk.inj (Except.ok.inj h)
      exact .inl ⟨[], rfl⟩
  | eventNext =>
    simp only [step] at h
    split at h
    all_goals
      obtain ⟨-, rfl⟩ := Prod.mk.inj (Except.ok.inj h)
      exact .inl ⟨[], rfl⟩
  | eventDelete event =>
    simp only [step] at h
    split at h
    · cases h
    · obtain ⟨s, -, hs⟩ := bind_eq_ok.1 h
      obtain ⟨-, rfl⟩ := Prod.mk.inj (Except.ok.inj hs)
      exact .inl ⟨[], rfl⟩

end ReaderSystem

namespace Console

variable {y y' : Console}

section Steps

/-- What a line does is told by the desk. -/
theorem Exact.does (hy : y.Exact) (now : CardNow) (string : Option Bytes) :
    y.Does (y.desk.takes string) (y.doCommand now string) (y.desk.command now string) := by
  obtain ⟨es, cs, hlists, hexact⟩ := hy.counts
  obtain ⟨d, hd⟩ := ReaderSystem.exists_data hexact
  exact doCommand_does hlists hexact (fun e he => hd e.2
    (ReaderSystem.mem_refs_of_entry (List.mem_append_left _ he))) now string

theorem Did.exact {d : Desk} {l : List ℕ} (h : y.Did y' d l) (hy : y.Exact) : y'.Exact := by
  refine ⟨h.counts, fun r => ?_⟩
  rw [h.lost, h.held, List.count_append, List.count_append]
  have := hy.lost r
  omega

theorem step_line (hy : y.Exact) {now : CardNow} {string : Option Bytes}
    (hc : y.Proper (.line now string)) : ∃ o y', y.step (.line now string) = .ok (o, y')
      ∧ y'.Exact ∧ y'.lost = y.takes (.line now string) ++ y.lost := by
  unfold step takes
  by_cases hexited : y.exited
  · rw [if_pos hexited]
    dsimp only
    rw [if_pos hexited]
    exact ⟨(), y, rfl, hy, rfl⟩
  · rw [if_neg hexited]
    dsimp only
    rw [if_neg hexited]
    obtain ⟨d', hd'⟩ := command_ok now y.desk hc
    have hdoes := hy.does now string
    rw [hd'] at hdoes
    rcases hrun : y.doCommand now string with e | y'
    · rw [hrun] at hdoes
      cases hdoes
    · rw [hrun] at hdoes
      rcases hdoes with ⟨hdid⟩
      exact ⟨(), y', rfl, hdid.exact hy, hdid.lost⟩

theorem step_call (hy : y.Exact) {c : ReaderCall} (hc : y.Proper (.call c)) :
    ∃ o y', y.step (.call c) = .ok (o, y') ∧ y'.Exact ∧ y'.lost = y.lost := by
  unfold step
  split_ifs
  · exact ⟨(), y, rfl, hy, rfl⟩
  obtain ⟨hproper, hkeeps, hlost⟩ := hc
  obtain ⟨o, system, hstep, hcounts⟩ := ReaderSystem.step_countsExact hy.counts hproper hkeeps
  dsimp only
  rw [hstep]
  refine ⟨(), { y with system := system }, rfl, ⟨hcounts, fun r => ?_⟩, rfl⟩
  have hle := hy.lost r
  dsimp only
  rcases ReaderSystem.step_held hstep with ⟨l, hheld⟩ | ⟨r', rfl, hheld⟩
  · rw [hheld, List.count_append]
    omega
  · have hlt : y.lost.count r' < y.system.held.count r' := hlost
    rw [hheld]
    rcases eq_or_ne r r' with rfl | hne
    · rw [List.count_erase_self]
      omega
    · rwa [List.count_erase_of_ne hne]

theorem step_exact (hy : y.Exact) {c : ConsoleCall} (hc : y.Proper c) :
    ∃ o y', y.step c = .ok (o, y') ∧ y'.Exact ∧ y'.lost = y.takes c ++ y.lost := by
  rcases c with ⟨now, string⟩ | c
  · exact step_line hy hc
  · exact step_call hy hc

theorem start_exact : Console.start.Exact :=
  ⟨ReaderSystem.start_countsExact, fun _ => Nat.le_refl _⟩

end Steps

section Runs

/-- What is lost is what the lines took. -/
theorem taken_lost : ∀ {y : Console} {calls : List ConsoleCall} {os : List Unit} {y' : Console},
    y.Exact → Along step Proper y calls → run step y calls = .ok (os, y') →
    y'.Exact ∧ ∀ r, y'.lost.count r = (y.taken calls).count r + y.lost.count r
  | y, [], os, y', hy, _, hrun => by
    obtain ⟨-, rfl⟩ := Prod.mk.inj (Except.ok.inj hrun)
    exact ⟨hy, fun r => (Nat.zero_add _).symm⟩
  | y, c :: calls, os, y', hy, ⟨hc, hcalls⟩, hrun => by
    obtain ⟨o, y₁, os', hstep, hrest, -⟩ := run_cons_eq_ok.1 hrun
    obtain ⟨o', y₁', hstep', hy₁, hlost⟩ := step_exact hy hc
    obtain ⟨-, rfl⟩ := Prod.mk.inj (Except.ok.inj (hstep.symm.trans hstep'))
    obtain ⟨hy', hcount⟩ := taken_lost hy₁ (hcalls o y₁ hstep) hrest
    refine ⟨hy', fun r => ?_⟩
    rw [hcount r, hlost, taken, hstep, List.count_append, List.count_append]
    dsimp only
    omega

/-- In a run of lines and of proper calls no line and no call touches a reader, an entry or a list
that is gone, and every count is exact all along. -/
theorem console_counts (calls : List ConsoleCall) (h : Along step Proper .start calls) :
    Safe step Exact .start calls :=
  h.safe (fun _ hy => hy) (fun _ _ hy hc => by
    obtain ⟨o, y', hstep, hy', -⟩ := step_exact hy hc
    exact ⟨o, y', hstep, hy'⟩) start_exact

/-- A reader that is listed, has its card inserted and is removed, and whose caller and events give
back their references. -/
def listedReader : List ConsoleCall :=
  let now : CardNow := ⟨true, true, true, true⟩
  [.call (.new "CAC"), .call (.addReader 0), .call (.setId 0 3), .line now (some Text.list),
    .line now (some (Text.insert ++ [Text.space, 0x33])), .call (.removeReader 0),
    .call (.free (some 0)), .call .eventNext, .call (.eventDelete 0), .call .eventNext,
    .call (.eventDelete 0), .call .eventNext, .call (.eventDelete 0)]

theorem console_counts_listed : Safe step Exact .start listedReader :=
  console_counts listedReader (by decide +kernel)

theorem exists_run (calls : List ConsoleCall)
    (h : (run step .start calls).toOption.isSome = true) :
    ∃ os y, run step .start calls = .ok (os, y) := by
  rcases hrun : run step .start calls with e | ⟨os, y⟩
  · rw [hrun] at h
    cases h
  · exact ⟨os, y, rfl⟩

/-- A reader that was registered when the readers were listed is never freed: for each such list its
count has two references that nobody gives back. -/
theorem listed_stays (calls : List ConsoleCall) (h : Along step Proper .start calls)
    {os : List Unit} {y : Console} (hrun : run step .start calls = .ok (os, y)) {r : ℕ}
    (hr : r ∈ Console.start.taken calls) :
    ∃ c, y.system.program.readers.Holds r c
      ∧ (Console.start.taken calls).count r ≤ c.references := by
  obtain ⟨hy, hlost⟩ := taken_lost start_exact h hrun
  obtain ⟨es, cs, hlists, hexact⟩ := hy.counts
  have hheld := hy.lost r
  rw [hlost r] at hheld
  have hpos := List.count_pos_iff.2 hr
  have hmem : r ∈ y.system.refs es cs :=
    List.mem_append_right _ (List.count_pos_iff.1 (by omega))
  obtain ⟨c, hc⟩ := hexact.live r hmem
  refine ⟨c, hc, ?_⟩
  rw [(hexact.counts r c hc).2, ReaderSystem.refs, List.count_append]
  omega

theorem listed_stays_removed : ∃ os y, run step .start listedReader = .ok (os, y)
    ∧ ∃ c, y.system.program.readers.Holds 0 c ∧ 2 ≤ c.references := by
  obtain ⟨os, y, hrun⟩ := exists_run listedReader (by decide +kernel)
  obtain ⟨c, hc, hle⟩ := listed_stays listedReader (by decide +kernel) hrun
    (show 0 ∈ Console.start.taken listedReader by decide +kernel)
  exact ⟨os, y, hrun, c, hc, (by decide +kernel : 2 ≤ _).trans hle⟩

end Runs

end Console

end Libcacard
