import Libcacard.EmulSpec

/-!
# The counts and what they leave

Beside each function goes what it does when nobody counts. The counts stay exact, and the cells
that are there, the list and the queue stay those of the view.
-/

namespace Libcacard

open Machine

variable {γ : Type}

/-- The references to readers that the list and the queue have. -/
def EmulView.readerRefs (v : EmulView γ) : List ℕ := v.list ++ v.queue.map CardEvent.reader

/-- The references to cards that the queue has. -/
def EmulView.cardRefs (v : EmulView γ) : List ℕ := v.queue.flatMap fun e => e.card.toList

/-- Someone who is there refers to the card. -/
def EmulView.KnowsCard (v : EmulView γ) (R C : List ℕ) (a : ℕ) : Prop :=
  a ∈ v.cardRefs ++ C ∨ ∃ r ∈ v.readerRefs ++ R, a ∈ (v.reader r).owns

namespace CardProgram

/-- The program is in step with the view, and `R` and `C` are the references to readers and cards
from elsewhere. -/
structure Counts (R C : List ℕ) (v : EmulView γ) (s : CardProgram γ) : Prop where
  exactReaders : Counted.Exact s.readers (v.readerRefs ++ R)
  exactCards : Counted.Exact s.cards
    (Counted.owned EmulReader.owns s.readers ++ (v.cardRefs ++ C))
  seesReaders : Counted.Sees s.readers v.readers
  seesCards : Counted.Sees s.cards v.cards
  list : s.list = v.list
  queue : s.queue = v.queue

variable {s : CardProgram γ} {R C : List ℕ} {v : EmulView γ} {r : ℕ} {card : Option ℕ}

theorem Counts.permReaders {R' : List ℕ} (h : s.Counts R C v)
    (hR : ∀ b, R.count b = R'.count b) : s.Counts R' C v :=
  ⟨h.exactReaders.of_count fun b => by rw [List.count_append, List.count_append, hR],
    h.exactCards, h.seesReaders, h.seesCards, h.list, h.queue⟩

theorem Counts.permCards {C' : List ℕ} (h : s.Counts R C v)
    (hC : ∀ b, C.count b = C'.count b) : s.Counts R C' v :=
  ⟨h.exactReaders, h.exactCards.of_count fun b => by simp only [List.count_append, hC],
    h.seesReaders, h.seesCards, h.list, h.queue⟩

theorem Counts.readerIsThere (h : s.Counts R C v) (hr : r ∈ v.readerRefs ++ R) :
    ∃ c, s.readers.Holds r c ∧ c.item = v.reader r := by
  obtain ⟨c, hc⟩ := h.exactReaders.live r hr
  refine ⟨c, hc, ?_⟩
  rw [EmulView.reader, h.seesReaders.item r c hc, Option.getD_some]

theorem Counts.cardIsThere {a : ℕ} (h : s.Counts R C v) (ha : v.KnowsCard R C a) :
    a ∈ Counted.owned EmulReader.owns s.readers ++ (v.cardRefs ++ C) := by
  rcases ha with ha | ⟨r, hr, ha⟩
  · exact List.mem_append_right _ ha
  · obtain ⟨c, hc, hitem⟩ := h.readerIsThere hr
    exact List.mem_append_left _ (Counted.mem_owned hc (hitem ▸ ha))

theorem knowsCard_of_card {a : ℕ} (hr : r ∈ v.readerRefs ++ R) (ha : a ∈ (v.reader r).card) :
    v.KnowsCard R C a :=
  .inr ⟨r, hr, List.mem_append_left _ (Option.mem_toList.2 ha)⟩

section References

theorem Counts.vcardNew (h : s.Counts R C v) (x : γ) :
    (s.vcardNew x).1.Counts R (v.cards.length :: C) { v with cards := v.cards ++ [x] }
      ∧ (s.vcardNew x).2 = v.cards.length := by
  refine ⟨⟨h.exactReaders, ?_, h.seesReaders, h.seesCards.new x, h.list, h.queue⟩,
    h.seesCards.length⟩
  refine (h.exactCards.new x).of_count fun b => ?_
  simp only [CardProgram.vcardNew, EmulView.cardRefs, List.count_append, List.count_cons,
    h.seesCards.length]
  omega

theorem Counts.vcardReference (h : s.Counts R C v) (hcard : ∀ a ∈ card, v.KnowsCard R C a) :
    Gives (Counts R (card.toList ++ C) v) (s.vcardReference card) := by
  obtain ⟨cards, hr, he⟩ := h.exactCards.retainOpt fun a ha => h.cardIsThere (hcard a ha)
  rw [CardProgram.vcardReference, hr]
  refine ⟨_, rfl, h.exactReaders, he.of_count fun b => ?_, h.seesReaders,
    h.seesCards.retainOpt hr, h.list, h.queue⟩
  simp only [List.count_append]
  omega

theorem Counts.vcardFree (h : s.Counts R (card.toList ++ C) v) :
    Gives (Counts R C v) (s.vcardFree card) := by
  have he : Counted.Exact s.cards
      (card.toList ++ (Counted.owned EmulReader.owns s.readers ++ (v.cardRefs ++ C))) :=
    h.exactCards.of_count fun b => by
      simp only [List.count_append]
      omega
  obtain ⟨cards, hr, he⟩ := he.releaseOpt
  rw [CardProgram.vcardFree, hr]
  exact ⟨_, rfl, h.exactReaders, he, h.seesReaders, h.seesCards.releaseOpt hr, h.list, h.queue⟩

theorem Counts.vcardUse {a : ℕ} (h : s.Counts R C v) (ha : v.KnowsCard R C a) (f : γ → γ) :
    Gives (Counts R C { v with cards := v.cards.modify a f }) (s.vcardUse a f) := by
  obtain ⟨c, hc⟩ := h.exactCards.live a (h.cardIsThere ha)
  rw [CardProgram.vcardUse, Heap.read_of_holds hc, ok_bind, Heap.write_of_holds hc]
  exact ⟨_, rfl, h.exactReaders, h.exactCards.setItem hc _, h.seesReaders,
    h.seesCards.modify hc f, h.list, h.queue⟩

theorem Counts.vreaderNew (h : s.Counts R C v) (slot : ℕ) :
    (s.vreaderNew slot).1.Counts (v.readers.length :: R) C
        { v with readers := v.readers ++ [⟨none, slot, false, 0, none⟩] }
      ∧ (s.vreaderNew slot).2 = v.readers.length := by
  refine ⟨⟨(h.exactReaders.new _).of_count fun b => ?_, ?_, h.seesReaders.new _, h.seesCards,
    h.list, h.queue⟩, h.seesReaders.length⟩
  · simp only [EmulView.readerRefs, List.count_append, List.count_cons, h.seesReaders.length]
    omega
  · simp only [CardProgram.vreaderNew, Counted.owned_new, EmulReader.owns, Option.toList_none,
      List.append_nil]
    exact h.exactCards

theorem Counts.vreaderReference (h : s.Counts R C v) (hr : r ∈ v.readerRefs ++ R) :
    Gives (Counts (r :: R) C v) (s.vreaderReference (some r)) := by
  obtain ⟨readers, hretain, he, -⟩ := h.exactReaders.retain hr
  rw [CardProgram.vreaderReference, Counted.retainOpt, hretain]
  refine ⟨_, rfl, he.of_count fun b => ?_, h.exactCards.of_count fun b => ?_,
    h.seesReaders.retain hretain, h.seesCards, h.list, h.queue⟩
  · simp only [List.count_append, List.count_cons]
    omega
  · have hcount := (Counted.owned_retain EmulReader.owns hretain).count_eq b
    simp only [List.count_append]
    omega

/-- With its last reference a reader gives back its cards. -/
theorem Counts.vreaderFree (h : s.Counts (r :: R) C v) :
    Gives (Counts R C v) (s.vreaderFree (some r)) := by
  obtain ⟨c, hc, -⟩ := h.readerIsThere (List.mem_append_right _ List.mem_cons_self)
  have he : Counted.Exact s.readers (r :: (v.readerRefs ++ R)) :=
    h.exactReaders.of_count fun b => by
      simp only [List.count_append, List.count_cons]
      omega
  obtain ⟨readers, hrelease, he, -⟩ := he.release
  have howned := Counted.owned_release EmulReader.owns hc hrelease
  have hsees := h.seesReaders.release hrelease
  rw [CardProgram.vreaderFree, Heap.read_of_holds hc, ok_bind, hrelease, ok_bind]
  split_ifs at howned ⊢
  · refine ⟨_, rfl, he, h.exactCards.of_count fun b => ?_, hsees, h.seesCards, h.list, h.queue⟩
    have hcount := howned.count_eq b
    simp only [List.count_append, List.count_nil] at hcount ⊢
    omega
  · have hcards : Counts R (c.item.card.toList ++ (c.item.savedVcard.toList ++ C)) v
        { s with readers := readers } := by
      refine ⟨he, h.exactCards.of_count fun b => ?_, hsees, h.seesCards, h.list, h.queue⟩
      rw [List.count_append, howned.count_eq]
      simp only [EmulReader.owns, List.count_append]
      omega
    refine hcards.vcardFree.bind fun s hs => ?_
    exact hs.vcardFree

/-- A reader's own data change, and with them what it owns. -/
theorem Counts.setReader (C' : List ℕ) (h : s.Counts R C v) (hr : r ∈ v.readerRefs ++ R)
    (f : EmulReader → EmulReader)
    (hC : ∀ b, ((v.reader r).owns ++ C).count b = ((f (v.reader r)).owns ++ C').count b) :
    Gives (Counts R C' (v.setReader r f)) (s.setReader r f) := by
  obtain ⟨c, hc, hitem⟩ := h.readerIsThere hr
  obtain ⟨rest, hall, hset⟩ := Counted.owned_set EmulReader.owns hc
  rw [CardProgram.setReader, Heap.read_of_holds hc, ok_bind, Heap.write_of_holds hc]
  refine ⟨_, rfl, h.exactReaders.setItem hc _, h.exactCards.of_count fun b => ?_,
    h.seesReaders.modify hc f, h.seesCards, h.list, h.queue⟩
  have hC := hC b
  have hbefore := hall.count_eq b
  have hafter := (hset (some { c with item := f c.item })).count_eq b
  rw [← hitem] at hC
  simp only [Counted.ownedBy, EmulView.setReader, EmulView.cardRefs, List.count_append]
    at hC hbefore hafter ⊢
  omega

theorem Counts.setReader_same (h : s.Counts R C v) (hr : r ∈ v.readerRefs ++ R)
    (f : EmulReader → EmulReader) (hf : ∀ i, (f i).owns = i.owns) :
    Gives (Counts R C (v.setReader r f)) (s.setReader r f) :=
  h.setReader C hr f fun b => by rw [hf]

theorem Counts.vreaderGetCard (h : s.Counts R C v) (hr : r ∈ v.readerRefs ++ R) :
    Gives (fun p => p.1.Counts R ((v.reader r).card.toList ++ C) v ∧ p.2 = (v.reader r).card)
      (s.vreaderGetCard r) := by
  obtain ⟨c, hc, hitem⟩ := h.readerIsThere hr
  rw [CardProgram.vreaderGetCard, Heap.read_of_holds hc, ok_bind, hitem]
  exact (h.vcardReference fun a ha => knowsCard_of_card hr ha).bind fun s hs => gives_ok ⟨hs, rfl⟩

theorem Counts.vreaderCardIsPresent (h : s.Counts R C v) (hr : r ∈ v.readerRefs ++ R) :
    Gives (fun p => p.1.Counts R C v ∧ (p.2 = .ok ↔ (v.reader r).card ≠ none))
      (s.vreaderCardIsPresent r) := by
  rw [CardProgram.vreaderCardIsPresent]
  refine (h.vreaderGetCard hr).bind ?_
  rintro ⟨s, card⟩ ⟨hs, rfl⟩
  dsimp only
  split_ifs with hcard
  · refine gives_ok ⟨?_, by simp [hcard]⟩
    rwa [hcard] at hs
  · exact hs.vcardFree.bind fun s hs => gives_ok ⟨hs, by simp [hcard]⟩

end References

section Queued

theorem Counts.queued {e : CardEvent} (h : s.Counts (e.reader :: R) (e.card.toList ++ C) v) :
    Counts R C (v.queueEvent e) { s with queue := s.queue ++ [e] } := by
  refine ⟨h.exactReaders.of_count fun b => ?_, h.exactCards.of_count fun b => ?_, h.seesReaders,
    h.seesCards, h.list, by rw [EmulView.queueEvent, h.queue]⟩
  · simp only [EmulView.readerRefs, EmulView.queueEvent, List.map_append, List.map_cons,
      List.map_nil, List.count_append, List.count_cons, List.count_nil]
    omega
  · simp only [EmulView.cardRefs, EmulView.queueEvent, List.flatMap_append, List.flatMap_cons,
      List.flatMap_nil, List.append_nil, List.count_append]
    omega

theorem knowsCard_mono {R' : List ℕ} {a : ℕ} (hR : ∀ b ∈ R, b ∈ R') (ha : v.KnowsCard R C a) :
    v.KnowsCard R' C a := by
  rcases ha with ha | ⟨r, hr, ha⟩
  · exact .inl ha
  · exact .inr ⟨r, by
      simp only [List.mem_append] at hr ⊢
      exact hr.imp_right (hR r), ha⟩

theorem Counts.queueNew (h : s.Counts R C v) (type : VEventType) (hr : r ∈ v.readerRefs ++ R)
    (hcard : ∀ a ∈ card, v.KnowsCard R C a) :
    Gives (Counts R C (v.queueEvent ⟨type, r, card⟩)) (s.queueNew type r card) := by
  rw [CardProgram.queueNew, CardProgram.veventNew]
  simp only [bind_assoc]
  refine (h.vreaderReference hr).bind fun s hs => ?_
  refine (hs.vcardReference fun a ha =>
    knowsCard_mono (fun b => List.mem_cons_of_mem r) (hcard a ha)).bind fun s hs => ?_
  exact gives_ok hs.queued

theorem Counts.veventDelete {e : CardEvent} (h : s.Counts (e.reader :: R) (e.card.toList ++ C) v) :
    Gives (Counts R C v) (s.veventDelete e) := by
  rw [CardProgram.veventDelete]
  exact h.vreaderFree.bind fun s hs => hs.vcardFree

theorem Counts.vreaderAddReader (h : s.Counts R C v) (hr : r ∈ v.readerRefs ++ R) :
    Gives (Counts R C
        { v with list := v.list ++ [r], queue := v.queue ++ [⟨.readerInsert, r, none⟩] })
      (s.vreaderAddReader r) := by
  rw [CardProgram.vreaderAddReader]
  refine (h.vreaderReference hr).bind fun s hs => ?_
  have hlist : Counts R C { v with list := v.list ++ [r] } { s with list := s.list ++ [r] } := by
    refine ⟨hs.exactReaders.of_count fun b => ?_, hs.exactCards, hs.seesReaders, hs.seesCards,
      by rw [hs.list], hs.queue⟩
    simp only [EmulView.readerRefs, List.count_append, List.count_cons, List.count_nil]
    omega
  refine hlist.queueNew .readerInsert ?_ fun a ha => nomatch ha
  simp [EmulView.readerRefs]

theorem Counts.vreaderRemoveReader (h : s.Counts R C v) (hr : r ∈ v.list) :
    Gives (Counts R C (v.removeReader r)) (s.vreaderRemoveReader r) := by
  have hlist : Counts (r :: R) C { v with list := v.list.erase r }
      { s with list := s.list.erase r } := by
    refine ⟨h.exactReaders.of_count fun b => ?_, h.exactCards, h.seesReaders, h.seesCards,
      by rw [h.list], h.queue⟩
    have hcount := (List.perm_cons_erase hr).count_eq b
    simp only [EmulView.readerRefs, List.count_append, List.count_cons] at hcount ⊢
    omega
  have hown : r ∈ ({ v with list := v.list.erase r } : EmulView γ).readerRefs ++ (r :: R) :=
    List.mem_append_right _ List.mem_cons_self
  refine Gives.bind (P := Counts (r :: R) C (v.removeReader r)) ?_ fun s hs => hs.vreaderFree
  exact hlist.queueNew .readerRemove hown fun a ha => nomatch ha

theorem Counts.vreaderQueueCardEvent (h : s.Counts R C v) (hr : r ∈ v.readerRefs ++ R) :
    Gives (Counts R C (v.queueEvent (v.cardEvent r))) (s.vreaderQueueCardEvent r) := by
  obtain ⟨c, hc, hitem⟩ := h.readerIsThere hr
  rw [CardProgram.vreaderQueueCardEvent, Heap.read_of_holds hc, ok_bind, hitem]
  exact h.queueNew _ hr fun a ha => knowsCard_of_card hr ha

/-- The card a reader has goes. -/
theorem Counts.dropCard (h : s.Counts R C v) (hr : r ∈ v.readerRefs ++ R) :
    Gives (Counts R C (v.setReader r fun i => { i with card := none }))
      (do
        let s ← s.vcardFree (v.reader r).card
        s.setReader r fun i => { i with card := none }) := by
  obtain ⟨c, hc, hitem⟩ := h.readerIsThere hr
  obtain ⟨rest, hall, hset⟩ := Counted.owned_set EmulReader.owns hc
  have he : Counted.Exact s.cards (c.item.card.toList
      ++ (c.item.savedVcard.toList ++ (rest ++ (v.cardRefs ++ C)))) :=
    h.exactCards.of_count fun b => by
      have hbefore := hall.count_eq b
      simp only [EmulReader.owns, List.count_append] at hbefore ⊢
      omega
  obtain ⟨cards, hfree, he⟩ := he.releaseOpt
  rw [CardProgram.vcardFree, ← hitem, hfree]
  simp only [ok_bind, pure_eq, CardProgram.setReader]
  rw [Heap.read_of_holds hc, ok_bind, Heap.write_of_holds hc]
  refine ⟨_, rfl, h.exactReaders.setItem hc _, he.of_count fun b => ?_,
    h.seesReaders.modify hc fun i => { i with card := none }, h.seesCards.releaseOpt hfree,
    h.list, h.queue⟩
  have hafter := (hset (some { c with item := { c.item with card := none } })).count_eq b
  simp only [Counted.ownedBy, EmulReader.owns, EmulView.setReader, EmulView.cardRefs,
    Option.toList_none, List.nil_append, List.count_append] at hafter ⊢
  omega

theorem Counts.lt (h : s.Counts R C v) (hr : r ∈ v.readerRefs ++ R) : r < v.readers.length :=
  h.seesReaders.length ▸ h.exactReaders.lt hr

theorem reader_setReader (hr : r < v.readers.length) (f : EmulReader → EmulReader) :
    (v.setReader r f).reader r = f (v.reader r) := by
  simp [EmulView.reader, EmulView.setReader, hr]

theorem setReader_setReader (f g : EmulReader → EmulReader) :
    (v.setReader r f).setReader r g = v.setReader r fun i => g (f i) := by
  simp only [EmulView.setReader, List.modify_modify_eq]
  rfl

theorem Counts.vreaderInsertCard (h : s.Counts R C v) (hr : r ∈ v.readerRefs ++ R)
    (hcard : ∀ a ∈ card, a ∈ C) : Gives (Counts R C (v.insertCard r card))
      (s.vreaderInsertCard r card) := by
  obtain ⟨c, hc, hitem⟩ := h.readerIsThere hr
  rw [CardProgram.vreaderInsertCard, Heap.read_of_holds hc, ok_bind, hitem, ← bind_assoc]
  refine (h.dropCard hr).bind fun s hs => ?_
  refine (hs.vcardReference fun a ha => .inl (List.mem_append_right _ (hcard a ha))).bind
    fun s hs => ?_
  refine (hs.setReader C hr (fun i => { i with card := card }) fun b => ?_).bind
    fun s hs => ?_
  · rw [reader_setReader (h.lt hr)]
    simp only [EmulReader.owns, Option.toList_none, List.nil_append, List.count_append]
    omega
  · rw [setReader_setReader] at hs
    exact hs.vreaderQueueCardEvent hr

end Queued

section Listed

theorem Counts.referenceAll : ∀ (l : List ℕ) {R : List ℕ} {s : CardProgram γ}, s.Counts R C v →
    (∀ r ∈ l, r ∈ v.readerRefs ++ R) →
    Gives (Counts (l ++ R) C v)
      (l.foldlM (fun s reader => s.vreaderReference (some reader)) s)
  | [], _, _, h, _ => gives_ok h
  | r :: l, R, s, h, hl => by
    obtain ⟨hr, hl⟩ := List.forall_mem_cons.1 hl
    rw [List.foldlM_cons]
    refine (h.vreaderReference hr).bind fun s hs => ?_
    refine (hs.referenceAll l fun b hb => ?_).imp fun s hs => hs.permReaders fun b => ?_
    · have hb := hl b hb
      simp only [List.mem_append, List.mem_cons] at hb ⊢
      tauto
    · simp only [List.count_append, List.count_cons]
      omega

theorem Counts.vreaderListDelete : ∀ {l : List ℕ} {s : CardProgram γ}, s.Counts (l ++ R) C v →
    Gives (Counts R C v) (s.vreaderListDelete l)
  | [], _, h => gives_ok h
  | r :: l, s, h => by
    rw [CardProgram.vreaderListDelete, List.foldlM_cons]
    exact Gives.bind (x := s.vreaderFree (some r)) (Counts.vreaderFree h)
      fun s hs => vreaderListDelete hs

theorem Counts.vreaderGetReaderList (h : s.Counts R C v) :
    Gives (fun p => p.1.Counts (v.list ++ R) C v ∧ p.2 = v.list) s.vreaderGetReaderList := by
  rw [CardProgram.vreaderGetReaderList, h.list]
  refine (h.referenceAll v.list fun r hr => ?_).bind fun s hs => gives_ok ⟨hs, rfl⟩
  simp [EmulView.readerRefs, hr]

theorem Counts.findFromSlot (slot : ℕ) : ∀ {l : List ℕ} {s : CardProgram γ}, s.Counts R C v →
    (∀ r ∈ l, r ∈ v.readerRefs ++ R) →
    Gives (fun p => p.1.Counts (p.2.toList ++ R) C v
        ∧ p.2 = l.find? fun r => (v.reader r).slot = slot) (findFromSlot slot l s)
  | [], _, h, _ => gives_ok ⟨h, rfl⟩
  | r :: l, s, h, hl => by
    obtain ⟨hr, hl⟩ := List.forall_mem_cons.1 hl
    rw [CardProgram.findFromSlot]
    refine (h.vreaderReference hr).bind fun s hs => ?_
    obtain ⟨c, hc, hitem⟩ := hs.readerIsThere (List.mem_append_right _ List.mem_cons_self)
    rw [Heap.read_of_holds hc, ok_bind, hitem]
    split_ifs with hslot
    · exact gives_ok ⟨hs, by rw [List.find?_cons_of_pos (by simpa using hslot)]⟩
    · rw [List.find?_cons_of_neg (by simpa using hslot)]
      exact hs.vreaderFree.bind fun s hs => hs.findFromSlot slot hl

theorem Counts.vcardEmulFindVreaderFromSlot (h : s.Counts R C v) (slot : ℕ) :
    Gives (fun p => p.1.Counts (p.2.toList ++ R) C v ∧ p.2 = v.find slot)
      (s.vcardEmulFindVreaderFromSlot slot) := by
  rw [CardProgram.vcardEmulFindVreaderFromSlot]
  refine h.vreaderGetReaderList.bind ?_
  rintro ⟨s, list⟩ ⟨hs, rfl⟩
  refine (hs.findFromSlot slot fun r hr => ?_).bind ?_
  · simp [EmulView.readerRefs, hr]
  · rintro ⟨s, reader⟩ ⟨hs, rfl⟩
    have hs : s.Counts (v.list ++ ((v.find slot).toList ++ R)) C v := hs.permReaders fun b => by
      simp only [EmulView.find, List.count_append]
      omega
    exact hs.vreaderListDelete.bind fun s hs => gives_ok ⟨hs, rfl⟩

/-- The replay queues an event for each reader, and keeps a reference to it. -/
theorem Counts.replay : ∀ {l R : List ℕ} {v : EmulView γ} {s : CardProgram γ}, s.Counts R C v →
    (∀ r ∈ l, r ∈ v.readerRefs ++ R) →
    Gives (Counts (l ++ R) C { v with queue := v.queue ++ l.map v.cardEvent }) (replay l s)
  | [], _, _, _, h, _ => gives_ok (by rwa [List.map_nil, List.append_nil])
  | r :: l, R, v, s, h, hl => by
    obtain ⟨hr, hl⟩ := List.forall_mem_cons.1 hl
    rw [CardProgram.replay]
    refine (h.vreaderReference hr).bind fun s hs => ?_
    refine (hs.vreaderQueueCardEvent (List.mem_append_right _ List.mem_cons_self)).bind
      fun s hs => ?_
    refine (hs.replay (l := l) fun b hb => ?_).imp fun s hs => ?_
    · have hb := hl b hb
      simp only [EmulView.readerRefs, EmulView.queueEvent, List.map_append, List.mem_append,
        List.mem_cons] at hb ⊢
      tauto
    · rw [List.map_cons, List.append_cons]
      refine hs.permReaders fun b => ?_
      simp only [List.count_append, List.count_cons]
      omega

theorem Counts.vcardEmulReplayInsertionEvents (h : s.Counts R C v) :
    Gives (Counts (v.list ++ R) C { v with queue := v.queue ++ v.list.map v.cardEvent })
      s.vcardEmulReplayInsertionEvents := by
  rw [CardProgram.vcardEmulReplayInsertionEvents]
  refine h.vreaderGetReaderList.bind ?_
  rintro ⟨s, list⟩ ⟨hs, rfl⟩
  refine (hs.replay (l := v.list) fun r hr => ?_).bind fun s hs => hs.vreaderListDelete
  simp [EmulView.readerRefs, hr]

end Listed

end CardProgram

end Libcacard
