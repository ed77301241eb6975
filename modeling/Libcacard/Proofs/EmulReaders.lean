import Libcacard.Proofs.CardRefs

/-!
# The emulator loses no reference that it counts

Whatever order calls and events come in, each reader and each card is there as long as somebody
refers to it, and no longer. So the program does what it would do if nobody counted.
-/

namespace Libcacard

open Machine

variable {γ : Type}

namespace CardProgram

variable {s : CardProgram γ} {R C : List ℕ} {v : EmulView γ} {r : ℕ} {card : Option ℕ}

theorem mem_own (v : EmulView γ) : r ∈ v.readerRefs ++ (r :: R) :=
  List.mem_append_right _ List.mem_cons_self

theorem Counts.vcardMake (h : s.Counts R C v) (made : Option γ) :
    (s.vcardMake made).1.Counts R ((v.make made).2.toList ++ C) (v.make made).1
      ∧ (s.vcardMake made).2 = (v.make made).2 := by
  rcases made with _ | x
  · exact ⟨h, rfl⟩
  · obtain ⟨hs, hcard⟩ := h.vcardNew x
    exact ⟨hs, congrArg some hcard⟩

/-- A card is made and put into a reader. -/
theorem Counts.insertNew (h : s.Counts R C v) (hr : r ∈ R) (made : Option γ) :
    Gives (Counts R ((v.make made).2.toList ++ C) (v.insertMade r made))
      ((s.vcardMake made).1.vreaderInsertCard r (v.make made).2) := by
  obtain ⟨hs, -⟩ := h.vcardMake made
  refine hs.vreaderInsertCard (List.mem_append_right _ hr) fun a ha => ?_
  exact List.mem_append_left _ (Option.mem_toList.2 ha)

theorem Counts.insertMade (h : s.Counts R C v) (hr : r ∈ R) (made : Option γ) :
    Gives (Counts R C (v.insertMade r made)) (do
      let s' ← (s.vcardMake made).1.vreaderInsertCard r (s.vcardMake made).2
      s'.vcardFree (s.vcardMake made).2) := by
  rw [(h.vcardMake made).2]
  exact (h.insertNew hr made).bind fun _ hs => hs.vcardFree

theorem Counts.newReader (h : s.Counts R C v) (slot : ℕ) :
    Gives (Counts (v.readers.length :: R) C (v.addReader slot))
      ((s.vreaderNew slot).1.vreaderAddReader (s.vreaderNew slot).2) := by
  obtain ⟨hs, hr⟩ := h.vreaderNew slot
  rw [hr]
  exact hs.vreaderAddReader (mem_own _)

/-- What the emulator notes of a reader is no reference. -/
theorem Counts.note (h : s.Counts (r :: R) C v) (f : EmulReader → EmulReader)
    (hf : ∀ i, (f i).owns = i.owns) : Gives (Counts R C (v.setReader r f)) (do
      let s ← s.setReader r f
      s.vreaderFree (some r)) :=
  (h.setReader_same (mem_own v) f hf).bind fun _ hs => hs.vreaderFree

theorem Counts.removeCard (h : s.Counts R C v) (hr : r ∈ R) :
    Gives (Counts R C (v.insertCard r none)) (s.vreaderInsertCard r none) :=
  h.vreaderInsertCard (List.mem_append_right _ hr) fun _ ha => nomatch ha

theorem Counts.vcardEmulEventThread (h : s.Counts R C v) (e : TokenNow γ) :
    Gives (Counts R C (v.tokenEvent e)) (s.vcardEmulEventThread e) := by
  rw [CardProgram.vcardEmulEventThread, EmulView.tokenEvent]
  refine (h.vcardEmulFindVreaderFromSlot e.slot).bind ?_
  rintro ⟨s, vreader⟩ ⟨hs, rfl⟩
  dsimp only at hs ⊢
  generalize v.find e.slot = vreader at hs ⊢
  rcases vreader with _ | r
  · refine (hs.newReader e.slot).bind fun s' hs' => ?_
    rw [(hs.vreaderNew e.slot).2]
    exact hs'.vreaderFree
  · have hown : ∀ v : EmulView γ, r ∈ v.readerRefs ++ (r :: R) := mem_own
    obtain ⟨c, hc, hitem⟩ := hs.readerIsThere (hown v)
    simp only [EmulView.tokenChange]
    rw [Heap.read_of_holds hc, ok_bind, hitem]
    split_ifs with hpresent hseries hthere hthere
    · refine (hs.removeCard List.mem_cons_self).bind fun _ hs => ?_
      rw [← bind_assoc]
      exact (hs.insertMade List.mem_cons_self _).bind fun _ hs => hs.note _ fun _ => rfl
    · rw [pure_eq, ok_bind, ← bind_assoc]
      exact (hs.insertMade List.mem_cons_self _).bind fun _ hs => hs.note _ fun _ => rfl
    · exact hs.note _ fun _ => rfl
    · exact (hs.removeCard List.mem_cons_self).bind fun _ hs => hs.note _ fun _ => rfl
    · exact hs.note _ fun _ => rfl

section SettingUp

theorem Counts.vcardEmulInitSeries (h : s.Counts (r :: R) C v) (present : Bool) (series : ℕ) :
    Gives (Counts (r :: R) C (v.initSeries r present series))
      (s.vcardEmulInitSeries r present series) := by
  rw [CardProgram.vcardEmulInitSeries, EmulView.initSeries]
  refine (h.setReader_same (mem_own v)
    (fun i => { i with present := present, series := series }) fun _ => rfl).bind fun _ hs => ?_
  split_ifs
  · exact gives_ok hs
  · exact hs.removeCard List.mem_cons_self

theorem Counts.vcardEmulInitSlot (h : s.Counts R C v) (useHw : UseHw) (slot : HwSlot γ) :
    Gives (Counts R C (v.initSlot useHw slot)) (s.vcardEmulInitSlot useHw slot) := by
  rw [CardProgram.vcardEmulInitSlot, EmulView.initSlot]
  split_ifs with hskip hname hpresent
  · exact gives_ok h
  · exact gives_ok h
  · refine (h.newReader slot.now.slot).bind fun s' hs => ?_
    simp only [h.seesReaders.length, (hs.vcardMake slot.now.mirrored).2]
    refine (hs.insertNew List.mem_cons_self _).bind fun _ hs => ?_
    refine (hs.vcardEmulInitSeries slot.isPresentThen slot.now.series).bind fun _ hs => ?_
    exact hs.vcardFree.bind fun _ hs => hs.vreaderFree
  · refine (h.newReader slot.now.slot).bind fun s' hs => ?_
    simp only [h.seesReaders.length]
    exact hs.vreaderFree

/-- What a change to a reader keeps of each. -/
theorem reader_setReader_of {β : Type} (p : EmulReader → β) {f : EmulReader → EmulReader}
    (hp : ∀ i, p (f i) = p i) (b : ℕ) : p ((v.setReader r f).reader b) = p (v.reader b) := by
  simp only [EmulView.reader, EmulView.setReader, List.getElem?_modify]
  rcases v.readers[b]? with _ | i
  · rfl
  · rw [Option.map_eq_map, Option.map_some, Option.getD_some, Option.getD_some]
    split_ifs
    · exact hp i
    · rfl

theorem reader_insertCard_of {β : Type} (p : EmulReader → β)
    (hp : ∀ i : EmulReader, p { i with card := card } = p i) (b : ℕ) :
    p ((v.insertCard r card).reader b) = p (v.reader b) :=
  reader_setReader_of p hp b

theorem reader_addReader (slot : ℕ) :
    (v.addReader slot).reader v.readers.length = ⟨none, slot, false, 0, none⟩ := by
  simp [EmulView.reader, EmulView.addReader]

theorem reader_make (made : Option γ) (b : ℕ) : (v.make made).1.reader b = v.reader b := by
  rcases made with _ | x <;> rfl

theorem savedVcard_initSeries (present : Bool) (series b : ℕ) :
    ((v.initSeries r present series).reader b).savedVcard = (v.reader b).savedVcard := by
  rw [EmulView.initSeries]
  have hset := reader_setReader_of (v := v) (r := r) EmulReader.savedVcard
    (f := fun i => { i with present := present, series := series }) (fun _ => rfl) b
  split_ifs
  · exact hset
  · exact (reader_insertCard_of EmulReader.savedVcard (fun _ => rfl) b).trans hset

/-- The reader that a soft card without certificates leaves, with the reference to it. -/
theorem Counts.vcardEmulInitSoft (h : s.Counts R C v) (o : SoftReader γ) :
    Gives (fun p => p.1.Counts (p.2.toList ++ R) C (v.initSoft o)) (s.vcardEmulInitSoft o) := by
  rw [CardProgram.vcardEmulInitSoft, EmulView.initSoft]
  rcases o.slot with _ | slot
  · exact gives_ok h
  · simp only
    refine (h.newReader slot).bind fun s' hs => ?_
    rw [(h.vreaderNew slot).2]
    split_ifs with hcerts
    · simp only [(hs.vcardMake o.made).2]
      refine (hs.insertNew List.mem_cons_self _).bind fun _ hs => ?_
      refine (hs.vcardEmulInitSeries o.present o.series).bind fun _ hs => ?_
      refine (hs.vcardReference fun a ha => .inl ?_).bind fun _ hs => ?_
      · exact List.mem_append_right _ (List.mem_append_left _ (Option.mem_toList.2 ha))
      refine (hs.setReader (((v.addReader slot).make o.made).2.toList ++ C) (mem_own _) _
        fun b => ?_).bind fun _ hs => ?_
      · simp only [EmulReader.owns, savedVcard_initSeries, EmulView.insertMade,
          reader_insertCard_of EmulReader.savedVcard (fun _ => rfl), reader_make,
          reader_addReader, Option.toList_none, List.count_append, List.count_nil]
        omega
      · exact hs.vcardFree.bind fun _ hs => hs.vreaderFree.bind fun _ hs => gives_ok hs
    · exact gives_ok hs

theorem Counts.initSofts : ∀ (os : List (SoftReader γ)) {s : CardProgram γ} {v : EmulView γ}
    {lost : List ℕ}, s.Counts (lost ++ R) C v →
    Gives (fun p => p.1.Counts (p.2 ++ R) C (os.foldl EmulView.initSoft v)) (initSofts os s lost)
  | [], _, _, _, h => gives_ok h
  | o :: os, s, v, lost, h => by
    rw [CardProgram.initSofts, List.foldl_cons]
    refine (h.vcardEmulInitSoft o).bind ?_
    rintro ⟨s, reader⟩ hs
    exact Counts.initSofts os (by rwa [List.append_assoc])

theorem Counts.initSlots (useHw : UseHw) : ∀ (slots : List (HwSlot γ)) {s : CardProgram γ}
    {v : EmulView γ}, s.Counts R C v →
    Gives (Counts R C (slots.foldl (fun v slot => v.initSlot useHw slot) v))
      (slots.foldlM (fun s slot => s.vcardEmulInitSlot useHw slot) s)
  | [], _, _, h => gives_ok h
  | slot :: slots, s, v, h => by
    rw [List.foldlM_cons]
    exact (h.vcardEmulInitSlot useHw slot).bind fun _ hs => hs.initSlots useHw slots

end SettingUp

section Requests

theorem Counts.vcardEmulForceCardRemove (h : s.Counts R C v) (hr : r ∈ R) (nssEmulInit : Bool) :
    Gives (fun p => p.1.Counts R C (v.forceRemove nssEmulInit r).1
        ∧ p.2 = (v.forceRemove nssEmulInit r).2)
      (s.vcardEmulForceCardRemove nssEmulInit r) := by
  rcases nssEmulInit with _ | _
  · exact ⟨_, rfl, h, rfl⟩
  · refine (h.vreaderCardIsPresent (List.mem_append_right _ hr)).bind ?_
    rintro ⟨s, present⟩ ⟨hs, hpresent⟩
    dsimp only at hs hpresent ⊢
    by_cases hcard : (v.reader r).card = none
    · rw [if_pos (by simpa [hcard] using hpresent)]
      exact gives_ok (by simpa [EmulView.forceRemove, hcard] using hs)
    · rw [if_neg (not_not.2 (hpresent.2 hcard))]
      refine (hs.removeCard hr).bind fun _ hs => gives_ok ?_
      simpa [EmulView.forceRemove, hcard] using hs

theorem Counts.vcardEmulForceCardInsert (h : s.Counts R C v) (hr : r ∈ R)
    (nssEmulInit isPresent : Bool) (mirrored : Option γ) :
    Gives (fun p => p.1.Counts R C (v.forceInsert nssEmulInit r isPresent mirrored).1
        ∧ p.2 = (v.forceInsert nssEmulInit r isPresent mirrored).2)
      (s.vcardEmulForceCardInsert nssEmulInit r isPresent mirrored) := by
  rcases nssEmulInit with _ | _
  · exact ⟨_, rfl, h, rfl⟩
  · have hr' := List.mem_append_right v.readerRefs hr
    refine (h.vreaderCardIsPresent hr').bind ?_
    rintro ⟨s, present⟩ ⟨hs, hpresent⟩
    dsimp only at hs hpresent ⊢
    by_cases hcard : (v.reader r).card = none
    · rw [if_neg (by simpa [hcard] using hpresent)]
      obtain ⟨c, hc, hitem⟩ := hs.readerIsThere hr'
      rw [Heap.read_of_holds hc, ok_bind, hitem]
      rcases hsaved : (v.reader r).savedVcard with _ | saved
      · dsimp only
        split_ifs with hthere
        · rw [← bind_assoc]
          refine (hs.insertMade hr mirrored).bind fun _ hs => gives_ok ?_
          simpa [EmulView.forceInsert, hcard, hsaved, hthere] using hs
        · exact gives_ok (by simpa [EmulView.forceInsert, hcard, hsaved, hthere] using hs)
      · have hknown : ∀ a ∈ some saved, v.KnowsCard R C a := fun a ha => by
          obtain rfl := Option.some.inj ha
          exact .inr ⟨r, hr', by simp [EmulReader.owns, hsaved]⟩
        refine (hs.vcardReference hknown).bind fun _ hs => ?_
        refine (hs.vreaderInsertCard hr' fun a ha => ?_).bind fun _ hs => ?_
        · exact List.mem_append_left _ (Option.mem_toList.2 ha)
        refine hs.vcardFree.bind fun _ hs => gives_ok ?_
        simpa [EmulView.forceInsert, hcard, hsaved] using hs
    · rw [if_pos (hpresent.2 hcard)]
      exact gives_ok (by simpa [EmulView.forceInsert, hcard] using hs)

end Requests

section Pcsc

theorem Counts.capcscInsertCard (h : s.Counts R C v) (hr : r ∈ v.readerRefs ++ R)
    (connects : Bool) (x : γ) :
    Gives (fun p => p.1.Counts (p.2.1.toList ++ R) (p.2.2.toList ++ C)
        (if connects then v.insertMade r (some x) else v))
      (s.capcscInsertCard r connects x) := by
  rw [CardProgram.capcscInsertCard]
  refine (h.vreaderReference hr).bind fun s hs => ?_
  rcases connects with _ | _
  · exact gives_ok hs
  · simp only [not_true_eq_false, if_false, if_true, (hs.vcardNew x).2]
    refine (hs.insertNew List.mem_cons_self (some x)).bind fun _ hs => ?_
    exact hs.vreaderFree.bind fun s hs => gives_ok hs

theorem Counts.capcscNewReader (h : s.Counts R C v) :
    Gives (Counts R C (v.addReader 0)) s.capcscNewReader := by
  rw [CardProgram.capcscNewReader]
  refine (h.newReader 0).bind fun s' hs => ?_
  rw [h.seesReaders.length]
  exact hs.vreaderFree

theorem Counts.capcscRemoveCard (h : s.Counts R C v) (hr : r ∈ v.readerRefs ++ R) :
    Gives (Counts R C (v.insertCard r none)) (s.capcscRemoveCard r) := by
  rw [CardProgram.capcscRemoveCard]
  refine (h.vreaderReference hr).bind fun s hs => ?_
  exact (hs.removeCard List.mem_cons_self).bind fun _ hs => hs.vreaderFree

theorem Counts.capcscGone (h : s.Counts R C v) (hr : r ∈ v.list) :
    Gives (Counts R C (v.removeReader r)) (s.capcscGone r) := by
  rw [CardProgram.capcscGone]
  refine (h.vreaderReference (List.mem_append_left _ (List.mem_append_left _ hr))).bind
    fun s hs => ?_
  exact hs.vreaderFree.bind fun s hs => hs.vreaderRemoveReader hr

end Pcsc

end CardProgram

namespace EmulSystem

open CardProgram

variable {y : EmulSystem γ} {p : EmulSpec γ} {s : CardProgram γ} {v : EmulView γ}

/-- The references to readers that callers have, with those that were lost. -/
def ownReaders (y : EmulSystem γ) : List ℕ :=
  y.events.map CardEvent.reader ++ (y.held ++ y.lostReaders)

def ownCards (y : EmulSystem γ) : List ℕ :=
  y.events.flatMap (fun e => e.card.toList) ++ (y.inUse ++ y.lostCards)

/-- The program does what it would do if nobody counted. -/
structure InStep (y : EmulSystem γ) (p : EmulSpec γ) : Prop where
  counts : y.program.Counts y.ownReaders y.ownCards p.view
  mode : y.mode = p.mode
  nssEmulInit : y.nssEmulInit = p.nssEmulInit
  events : y.events = p.events
  unset : p.mode = none → p.view.list = [] ∧ p.view.queue = [] ∧ p.nssEmulInit = false

theorem inStep_start : (EmulSystem.start : EmulSystem γ).InStep EmulSpec.start :=
  ⟨⟨Counted.Exact.nil, Counted.Exact.nil, Counted.Sees.nil, Counted.Sees.nil, rfl, rfl⟩, rfl, rfl,
    rfl, fun _ => ⟨rfl, rfl, rfl⟩⟩

theorem InStep.countsExact (h : y.InStep p) : y.CountsExact := by
  refine ⟨h.counts.exactReaders.of_count fun b => ?_, h.counts.exactCards.of_count fun b => ?_⟩
  · simp only [readerRefs, ownReaders, EmulView.readerRefs, h.counts.list, h.counts.queue,
      List.map_append, List.count_append]
    omega
  · simp only [cardRefs, ownCards, EmulView.cardRefs, h.counts.queue, List.flatMap_append,
      List.count_append]
    omega

/-- The program and the view change, and nothing else. -/
theorem InStep.change (h : y.InStep p) (hs : s.Counts y.ownReaders y.ownCards v)
    (hunset : p.mode = none → v.list = [] ∧ v.queue = []) :
    InStep { y with program := s } { p with view := v } :=
  ⟨hs, h.mode, h.nssEmulInit, h.events,
    fun hmode => ⟨(hunset hmode).1, (hunset hmode).2, (h.unset hmode).2.2⟩⟩

/-- What a step gives, beside the step when nobody counts. -/
def Follows (q : EmulOutput × EmulSpec γ) (x : Except Fault (EmulOutput × EmulSystem γ)) : Prop :=
  Gives (fun q' => q'.1 = q.1 ∧ q'.2.InStep q.2) x

theorem InStep.init (h : y.InStep p) (o : EmulInit γ) :
    Gives (fun q => q.1 = (p.init o).1 ∧ q.2.InStep (p.init o).2) (y.vcardEmulInit o) := by
  rw [vcardEmulInit, EmulSpec.init, h.mode]
  by_cases hmode : p.mode = none
  swap
  · rw [if_pos hmode, if_pos hmode]
    exact gives_ok ⟨rfl, h⟩
  obtain ⟨hlist, hqueue, hinit⟩ := h.unset hmode
  have hclean : ({ y.program with list := [], queue := [] } : CardProgram γ).Counts
      (y.lostReaders ++ (y.events.map CardEvent.reader ++ y.held)) y.ownCards p.view := by
    refine ⟨h.counts.exactReaders.of_count fun b => ?_, h.counts.exactCards, h.counts.seesReaders,
      h.counts.seesCards, hlist.symm, hqueue.symm⟩
    simp only [ownReaders, List.count_append]
    omega
  have hown : ∀ {lost : List ℕ} {s : CardProgram γ} {v : EmulView γ},
      s.Counts (lost ++ (y.events.map CardEvent.reader ++ y.held)) y.ownCards v →
        s.Counts (y.events.map CardEvent.reader ++ (y.held ++ lost)) y.ownCards v :=
    fun hs => hs.permReaders fun b => by
      simp only [List.count_append]
      omega
  rw [if_neg (not_not.2 hmode), if_neg (not_not.2 hmode)]
  by_cases hpassthru : o.passthru
  · rw [if_pos hpassthru, if_pos hpassthru]
    exact gives_ok ⟨rfl, hown hclean, rfl, h.nssEmulInit, h.events, nofun⟩
  rw [if_neg hpassthru, if_neg hpassthru]
  by_cases hnss : o.nssInit
  · rw [if_neg (not_not.2 hnss), if_neg (not_not.2 hnss)]
    refine (hclean.initSofts o.vreaders).bind ?_
    rintro ⟨s, lost⟩ hs
    dsimp only at hs ⊢
    split_ifs
    · exact gives_ok ⟨rfl, hown hs, rfl, rfl, h.events, nofun⟩
    · exact gives_ok ⟨rfl, hown hs, rfl, rfl, h.events, nofun⟩
    · refine (hs.initSlots o.useHw o.slots).bind fun s hs => ?_
      exact gives_ok ⟨rfl, hown hs, rfl, rfl, h.events, nofun⟩
  · rw [if_pos hnss, if_pos hnss]
    exact gives_ok ⟨rfl, hown hclean, rfl, h.nssEmulInit, h.events, nofun⟩

theorem InStep.forceRemove (h : y.InStep p) {r : ℕ} (hr : r ∈ y.held) :
    Follows (p.step (.forceRemove r)) (y.step (.forceRemove r)) := by
  have hown : r ∈ y.ownReaders := List.mem_append_right _ (List.mem_append_left _ hr)
  refine (h.counts.vcardEmulForceCardRemove hown y.nssEmulInit).bind ?_
  rintro ⟨s, e⟩ ⟨hs, rfl⟩
  rw [h.nssEmulInit] at hs
  refine gives_ok ⟨by rw [h.nssEmulInit]; rfl, h.change hs fun hmode => ?_⟩
  obtain ⟨hlist, hqueue, hinit⟩ := h.unset hmode
  have hkeep : p.view.forceRemove p.nssEmulInit r = (p.view, .fail) :=
    if_pos (.inl (by simp [hinit]))
  change (p.view.forceRemove p.nssEmulInit r).1.list = []
    ∧ (p.view.forceRemove p.nssEmulInit r).1.queue = []
  rw [hkeep]
  exact ⟨hlist, hqueue⟩

theorem InStep.forceInsert (h : y.InStep p) {r : ℕ} (hr : r ∈ y.held) (isPresent : Bool)
    (mirrored : Option γ) : Follows (p.step (.forceInsert r isPresent mirrored))
      (y.step (.forceInsert r isPresent mirrored)) := by
  have hown : r ∈ y.ownReaders := List.mem_append_right _ (List.mem_append_left _ hr)
  refine (h.counts.vcardEmulForceCardInsert hown y.nssEmulInit isPresent mirrored).bind ?_
  rintro ⟨s, e⟩ ⟨hs, rfl⟩
  rw [h.nssEmulInit] at hs
  refine gives_ok ⟨by rw [h.nssEmulInit]; rfl, h.change hs fun hmode => ?_⟩
  obtain ⟨hlist, hqueue, hinit⟩ := h.unset hmode
  have hkeep : p.view.forceInsert p.nssEmulInit r isPresent mirrored = (p.view, .fail) :=
    if_pos (.inl (by simp [hinit]))
  change (p.view.forceInsert p.nssEmulInit r isPresent mirrored).1.list = []
    ∧ (p.view.forceInsert p.nssEmulInit r isPresent mirrored).1.queue = []
  rw [hkeep]
  exact ⟨hlist, hqueue⟩

theorem InStep.eventNext (h : y.InStep p) : Follows (p.step .eventNext) (y.step .eventNext) := by
  have hqueue := h.counts.queue
  rw [step, EmulSpec.step]
  rcases hq : p.view.queue with _ | ⟨e, queue⟩
  · rw [hq] at hqueue
    rw [hqueue]
    exact gives_ok ⟨rfl, h⟩
  · rw [hq] at hqueue
    rw [hqueue]
    refine gives_ok ⟨rfl, ⟨?_, ?_, h.counts.seesReaders, h.counts.seesCards, h.counts.list, rfl⟩,
      h.mode, h.nssEmulInit, congrArg (· ++ [e]) h.events, fun hmode => ?_⟩
    · refine h.counts.exactReaders.of_count fun b => ?_
      simp only [EmulView.readerRefs, ownReaders, hq, List.map_append, List.map_cons, List.map_nil,
        List.count_append, List.count_cons, List.count_nil]
      omega
    · refine h.counts.exactCards.of_count fun b => ?_
      simp only [EmulView.cardRefs, ownCards, hq, List.flatMap_append, List.flatMap_cons,
        List.flatMap_nil, List.count_append, List.count_nil]
      omega
    · have hempty := (h.unset hmode).2.1
      rw [hq] at hempty
      cases hempty

theorem InStep.eventDelete (h : y.InStep p) {event : ℕ} (hevent : event < y.events.length) :
    Follows (p.step (.eventDelete event)) (y.step (.eventDelete event)) := by
  rw [step, List.getElem?_eq_getElem hevent]
  have hperm := List.getElem_cons_eraseIdx_perm hevent
  have hs : y.program.Counts ((y.events[event]).reader
        :: ((y.events.eraseIdx event).map CardEvent.reader ++ (y.held ++ y.lostReaders)))
      ((y.events[event]).card.toList
        ++ ((y.events.eraseIdx event).flatMap (fun e => e.card.toList)
          ++ (y.inUse ++ y.lostCards))) p.view := by
    refine (h.counts.permReaders fun b => ?_).permCards fun b => ?_
    · have hcount := (hperm.map CardEvent.reader).count_eq b
      simp only [ownReaders, List.map_cons, List.count_append, List.count_cons] at hcount ⊢
      omega
    · have hcount := (hperm.flatMap_right fun e => e.card.toList).count_eq b
      simp only [ownCards, List.flatMap_cons, List.count_append] at hcount ⊢
      omega
  refine hs.veventDelete.bind fun s hs => ?_
  exact gives_ok ⟨rfl, hs, h.mode, h.nssEmulInit, congrArg (List.eraseIdx · event) h.events,
    h.unset⟩

/-- Each call does what it would do if nobody counted. -/
theorem InStep.step (h : y.InStep p) {c : EmulCall γ} (hc : y.Proper c) :
    Follows (p.step c) (y.step c) := by
  have hheld : ∀ {r : ℕ}, r ∈ y.held → r ∈ p.view.readerRefs ++ y.ownReaders := fun hr =>
    List.mem_append_right _ (List.mem_append_right _ (List.mem_append_left _ hr))
  have hlist : ∀ {r : ℕ}, r ∈ y.program.list → r ∈ p.view.readerRefs ++ y.ownReaders := fun hr =>
    List.mem_append_left _ (List.mem_append_left _ (h.counts.list ▸ hr))
  have hset : ∀ {m : EmulMode}, y.mode = some m → p.mode ≠ none := fun hmode hnone => by
    rw [← h.mode, hmode] at hnone
    cases hnone
  cases c with
  | init o =>
    refine (h.init o).bind ?_
    rintro ⟨e, y'⟩ ⟨rfl, hy⟩
    exact gives_ok ⟨rfl, hy⟩
  | tokenEvent e =>
    exact (h.counts.vcardEmulEventThread e).bind fun s hs =>
      gives_ok ⟨rfl, h.change hs fun hmode => (hset hc hmode).elim⟩
  | forceRemove r => exact h.forceRemove hc
  | forceInsert r isPresent mirrored => exact h.forceInsert hc isPresent mirrored
  | getReader r =>
    refine (h.counts.vreaderReference (hlist hc)).bind fun s hs => gives_ok ⟨rfl, ?_, h.mode,
      h.nssEmulInit, h.events, h.unset⟩
    refine hs.permReaders fun b => ?_
    simp only [ownReaders, List.count_append, List.count_cons]
    omega
  | freeReader r =>
    have hs : y.program.Counts (r :: (y.events.map CardEvent.reader
        ++ (y.held.erase r ++ y.lostReaders))) y.ownCards p.view :=
      h.counts.permReaders fun b => by
        have hcount := (List.perm_cons_erase hc).count_eq b
        simp only [ownReaders, List.count_append, List.count_cons] at hcount ⊢
        omega
    exact hs.vreaderFree.bind fun s hs =>
      gives_ok ⟨rfl, hs, h.mode, h.nssEmulInit, h.events, h.unset⟩
  | getCard r =>
    refine (h.counts.vreaderGetCard (hheld hc)).bind ?_
    rintro ⟨s, card⟩ ⟨hs, rfl⟩
    refine gives_ok ⟨rfl, hs.permCards fun b => ?_, h.mode, h.nssEmulInit, h.events, h.unset⟩
    simp only [ownCards, List.count_append]
    omega
  | useCard a f =>
    have hknown : p.view.KnowsCard y.ownReaders y.ownCards a :=
      .inl (List.mem_append_right _ (List.mem_append_right _ (List.mem_append_left _ hc)))
    exact (h.counts.vcardUse hknown f).bind fun s hs =>
      gives_ok ⟨rfl, h.change hs fun hmode => ⟨(h.unset hmode).1, (h.unset hmode).2.1⟩⟩
  | freeCard a =>
    have hs : y.program.Counts y.ownReaders
        ((some a).toList ++ (y.events.flatMap (fun e => e.card.toList)
        ++ (y.inUse.erase a ++ y.lostCards))) p.view :=
      h.counts.permCards fun b => by
        have hcount := (List.perm_cons_erase hc).count_eq b
        simp only [ownCards, Option.toList_some, List.count_append, List.count_cons,
          List.count_nil] at hcount ⊢
        omega
    exact hs.vcardFree.bind fun s hs =>
      gives_ok ⟨rfl, hs, h.mode, h.nssEmulInit, h.events, h.unset⟩
  | cardIsPresent r =>
    refine (h.counts.vreaderCardIsPresent (hheld hc)).bind ?_
    rintro ⟨s, present⟩ ⟨hs, -⟩
    exact gives_ok ⟨rfl, hs, h.mode, h.nssEmulInit, h.events, h.unset⟩
  | eventNext => exact h.eventNext
  | eventDelete event => exact h.eventDelete hc
  | replay =>
    refine h.counts.vcardEmulReplayInsertionEvents.bind fun s hs =>
      gives_ok ⟨rfl, ?_, h.mode, h.nssEmulInit, h.events, fun hmode => ?_⟩
    · refine hs.permReaders fun b => ?_
      simp only [ownReaders, h.counts.list, List.count_append]
      omega
    · obtain ⟨hlist, hqueue, hinit⟩ := h.unset hmode
      refine ⟨hlist, ?_, hinit⟩
      change p.view.queue ++ p.view.list.map p.view.cardEvent = []
      rw [hlist, hqueue]
      rfl
  | capcscNewReader =>
    exact h.counts.capcscNewReader.bind fun s hs =>
      gives_ok ⟨rfl, h.change hs fun hmode => (hset hc hmode).elim⟩
  | capcscInsert r connects x =>
    refine (h.counts.capcscInsertCard (hlist hc.2) connects x).bind ?_
    rintro ⟨s, lostReader, lostCard⟩ hs
    have hs : s.Counts
        (y.events.map CardEvent.reader ++ (y.held ++ (lostReader.toList ++ y.lostReaders)))
        (y.events.flatMap (fun e => e.card.toList) ++ (y.inUse ++ (lostCard.toList ++ y.lostCards)))
        (if connects then p.view.insertMade r (some x) else p.view) := by
      refine (hs.permReaders fun b => ?_).permCards fun b => ?_
      · simp only [ownReaders, List.count_append]
        omega
      · simp only [ownCards, List.count_append]
        omega
    rcases connects with _ | _ <;> exact gives_ok ⟨rfl, hs, h.mode, h.nssEmulInit, h.events,
      fun hmode => (hset hc.1 hmode).elim⟩
  | capcscRemove r =>
    exact (h.counts.capcscRemoveCard (hlist hc.2)).bind fun s hs =>
      gives_ok ⟨rfl, h.change hs fun hmode => (hset hc.1 hmode).elim⟩
  | capcscGone r =>
    exact (h.counts.capcscGone (h.counts.list ▸ hc.1.2)).bind fun s hs =>
      gives_ok ⟨rfl, h.change hs fun hmode => (hset hc.1.1 hmode).elim⟩

/-- A run does what it would do if nobody counted. -/
theorem InStep.run : ∀ {y : EmulSystem γ} {p : EmulSpec γ} {cs : List (EmulCall γ)}, y.InStep p →
    Along EmulSystem.step Proper y cs →
    ∃ y', Machine.run EmulSystem.step y cs = .ok ((p.run cs).1, y')
      ∧ y'.InStep (p.run cs).2
  | y, p, [], h, _ => ⟨y, rfl, h⟩
  | y, p, c :: cs, h, hcs => by
    obtain ⟨⟨o, y₁⟩, hstep, rfl, h₁⟩ := h.step hcs.1
    obtain ⟨y', hrun, h'⟩ := InStep.run h₁ (hcs.2 _ _ hstep)
    exact ⟨y', run_cons_eq_ok.2 ⟨_, y₁, _, hstep, hrun, rfl⟩, h'⟩

/-- What is there of the program is what the view has. -/
structure Shows (y : EmulSystem γ) (p : EmulSpec γ) : Prop where
  cards : Counted.Sees y.program.cards p.view.cards
  readers : Counted.Sees y.program.readers p.view.readers
  list : y.program.list = p.view.list
  queue : y.program.queue = p.view.queue
  events : y.events = p.events

/-- However calls, events and commands come, no run has a fault, the counts are exact at its end,
and it does what it would do if nobody counted. -/
theorem run_countsExact {cs : List (EmulCall γ)} (hcs : Along EmulSystem.step Proper .start cs) :
    ∃ y, Machine.run EmulSystem.step .start cs = .ok ((EmulSpec.start.run cs).1, y)
      ∧ y.CountsExact ∧ y.Shows (EmulSpec.start.run cs).2 := by
  obtain ⟨y, hrun, h⟩ := inStep_start.run hcs
  exact ⟨y, hrun, h.countsExact, h.counts.seesCards, h.counts.seesReaders, h.counts.list,
    h.counts.queue, h.events⟩

/-- A soft card, a token that comes and is asked for again, and a card taken out and put back while
a command runs. -/
def softAndToken : List (EmulCall ℕ) :=
  [.init ⟨false, true, true, [⟨some 1, true, some 7, true, 3⟩], .yes, []⟩, .getReader 0, .getCard 0,
    .forceRemove 0, .tokenEvent ⟨2, false, 0, none⟩, .eventNext, .tokenEvent ⟨2, true, 5, some 9⟩,
    .eventDelete 0, .useCard 0 (· + 1), .forceInsert 0 false none, .freeCard 0, .eventNext]

theorem run_countsExact_soft : Along EmulSystem.step Proper .start softAndToken
    ∧ ∃ y, Machine.run EmulSystem.step .start softAndToken
        = .ok ((EmulSpec.start.run softAndToken).1, y)
      ∧ y.CountsExact ∧ y.Shows (EmulSpec.start.run softAndToken).2 :=
  ⟨by decide, run_countsExact (by decide)⟩

end EmulSystem

end Libcacard
