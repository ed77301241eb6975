import Libcacard.Proofs.EmulSpec

/-!
# Readers over whole runs

What holds of the emulator when nobody counts holds of the program. Events tell which card each
reader has, no card is in two readers, and a slot gets a reader when it has none.
-/

namespace Libcacard

open Machine EmulView

variable {γ : Type}

namespace EmulSystem

variable {y y₁ y₂ : EmulSystem γ} {p : EmulSpec γ} {cs : List (EmulCall γ)}
  {os os₁ os₂ : List EmulOutput}

section Kept

/-- The program beside the emulator that does not count, with what holds of its readers. -/
structure Tracked (y : EmulSystem γ) (p : EmulSpec γ) : Prop where
  inStep : y.InStep p
  bounded : p.view.Bounded
  apart : p.view.Apart
  noneSaved : p.NoneSaved

theorem tracked_start : (EmulSystem.start : EmulSystem γ).Tracked EmulSpec.start :=
  ⟨inStep_start, fun _ a ha => by simp [EmulSpec.start, EmulView.reader, EmulReader.owns] at ha,
    fun _ _ _ a ha => by simp [EmulSpec.start, EmulView.reader, EmulReader.owns] at ha,
    fun _ _ => by simp [EmulSpec.start, EmulView.reader]⟩

theorem Tracked.listed (h : y.Tracked p) : p.Listed := fun _ hr =>
  h.inStep.counts.lt (List.mem_append_left _ (List.mem_append_left _ hr))

theorem Tracked.proper (h : y.Tracked p) {c : EmulCall γ} (hc : y.Proper c) : p.Proper c := by
  have hheld : ∀ {r : ℕ}, r ∈ y.held → r < p.view.readers.length := fun hr =>
    h.inStep.counts.lt (List.mem_append_right _
      (List.mem_append_right _ (List.mem_append_left _ hr)))
  have hlist : ∀ {r : ℕ}, r ∈ y.program.list → r < p.view.readers.length := fun hr =>
    h.listed _ (h.inStep.counts.list ▸ hr)
  cases c with
  | tokenEvent e => exact h.inStep.mode.symm.trans hc
  | forceRemove r => exact hheld hc
  | forceInsert r isPresent mirrored => exact hheld hc
  | capcscNewReader => exact h.inStep.mode.symm.trans hc
  | capcscInsert r connects x => exact ⟨h.inStep.mode.symm.trans hc.1, hlist hc.2⟩
  | capcscRemove r => exact ⟨h.inStep.mode.symm.trans hc.1, hlist hc.2⟩
  | capcscGone r => exact ⟨h.inStep.mode.symm.trans hc.1.1, h.inStep.counts.list ▸ hc.1.2⟩
  | _ => trivial

/-- What a step does to the readers and the queue. -/
theorem Tracked.changes (h : y.Tracked p) {c : EmulCall γ} (hc : y.Proper c)
    {Q : ℕ → Option ℕ → Prop} (hnone : ∀ slot, Q slot none)
    (htoken : ∀ e, c = .tokenEvent e → ∀ saved, Q e.slot saved) :
    Changes Q p.view (p.step c).2.view ∨ (c = .eventNext ∧
      ∃ e queue, p.view.queue = e :: queue ∧ (p.step c).2.view = { p.view with queue := queue }) :=
  EmulSpec.changes_step h.bounded h.listed h.noneSaved (h.proper hc) hnone htoken

theorem saved_insertCard {v : EmulView γ} {r : ℕ} (card : Option ℕ) (b : ℕ) :
    ((v.insertCard r card).reader b).savedVcard = (v.reader b).savedVcard :=
  CardProgram.reader_insertCard_of EmulReader.savedVcard (fun _ => rfl) b

theorem saved_insertMade {v : EmulView γ} {r : ℕ} (made : Option γ) (b : ℕ) :
    ((v.insertMade r made).reader b).savedVcard = (v.reader b).savedVcard := by
  rw [insertMade, saved_insertCard, CardProgram.reader_make]

theorem saved_addReader {v : EmulView γ} (slot b : ℕ) :
    ((v.addReader slot).reader b).savedVcard = (v.reader b).savedVcard := by
  rcases eq_or_ne b v.readers.length with rfl | hne
  · rw [CardProgram.reader_addReader, reader_fresh]
  · rw [reader_addReader_ne slot hne]

/-- Only NSS readers save cards. -/
theorem Tracked.noneSaved_step (h : y.Tracked p) {c : EmulCall γ} (hc : y.Proper c) :
    (p.step c).2.NoneSaved := by
  have hs := h.noneSaved
  intro hmode b
  cases c with
  | init o =>
    simp only [EmulSpec.step, EmulSpec.init] at hmode ⊢
    split_ifs at hmode ⊢ with hnone
    · exact hs hmode b
    all_goals first
      | exact hs (by simp [not_not.1 hnone]) b
      | exact absurd rfl hmode
  | tokenEvent e => exact absurd ((h.proper hc : p.mode = some .nss)) hmode
  | forceRemove r =>
    simp only [EmulSpec.step, EmulView.forceRemove] at hmode ⊢
    split_ifs
    · exact hs hmode b
    · exact (saved_insertCard none b).trans (hs hmode b)
  | forceInsert r isPresent mirrored =>
    simp only [EmulSpec.step, EmulView.forceInsert] at hmode ⊢
    rw [hs hmode r]
    split_ifs
    · exact hs hmode b
    · exact (saved_insertMade mirrored b).trans (hs hmode b)
    · exact hs hmode b
  | eventNext =>
    rcases hqueue : p.view.queue with _ | ⟨e, queue⟩ <;>
      simp only [EmulSpec.step, hqueue] at hmode ⊢ <;> exact hs hmode b
  | capcscNewReader => exact (saved_addReader 0 b).trans (hs hmode b)
  | capcscInsert r connects x =>
    simp only [EmulSpec.step] at hmode ⊢
    split_ifs at hmode ⊢
    · exact (saved_insertMade (some x) b).trans (hs hmode b)
    · exact hs hmode b
  | capcscRemove r => exact (saved_insertCard none b).trans (hs hmode b)
  | _ => exact hs hmode b

theorem Tracked.step (h : y.Tracked p) {c : EmulCall γ} (hc : y.Proper c) :
    ∃ y', y.step c = .ok ((p.step c).1, y') ∧ y'.Tracked (p.step c).2 := by
  obtain ⟨⟨o, y'⟩, hstep, rfl, h'⟩ := h.inStep.step hc
  refine ⟨y', hstep, h', ?_, ?_, h.noneSaved_step hc⟩
  · rcases h.changes hc (Q := fun _ _ => True) (fun _ => trivial) (fun _ _ _ => trivial)
      with hchanges | ⟨-, e, queue, -, hview⟩
    · exact hchanges.bounded h.bounded
    · rw [hview]
      exact h.bounded
  · rcases h.changes hc (Q := fun _ _ => True) (fun _ => trivial) (fun _ _ _ => trivial)
      with hchanges | ⟨-, e, queue, -, hview⟩
    · exact hchanges.apart h.bounded h.apart
    · rw [hview]
      exact h.apart

/-- What steps keep, with the events that were taken, runs keep. -/
theorem Tracked.run {I : List CardEvent → EmulSpec γ → Prop} {P : EmulCall γ → Prop}
    (hI : ∀ {y : EmulSystem γ} {p c es}, y.Tracked p → y.Proper c → P c → I es p →
      I (es ++ y.takes c) (p.step c).2) :
    ∀ (es : List CardEvent) {y : EmulSystem γ} {p cs}, y.Tracked p →
      Along EmulSystem.step Proper y cs → (∀ c ∈ cs, P c) → I es p →
      ∃ y', Machine.run EmulSystem.step y cs = .ok ((p.run cs).1, y') ∧ y'.Tracked (p.run cs).2
        ∧ I (es ++ y.taken cs) (p.run cs).2
  | es, y, p, [], h, _, _, hes => ⟨y, rfl, h, (List.append_nil es).symm ▸ hes⟩
  | es, y, p, c :: cs, h, hcs, hP, hes => by
    obtain ⟨hc, hP⟩ := List.forall_mem_cons.1 hP
    obtain ⟨y₁, hstep, h₁⟩ := h.step hcs.1
    obtain ⟨y', hrun, h', hes'⟩ := Tracked.run hI _ h₁ (hcs.2 _ _ hstep) hP (hI h hcs.1 hc hes)
    refine ⟨y', run_cons_eq_ok.2 ⟨_, y₁, _, hstep, hrun, rfl⟩, h', ?_⟩
    rw [taken, hstep, ← List.append_assoc]
    exact hes'

theorem Tracked.told_step {es : List CardEvent} (h : y.Tracked p) {c : EmulCall γ}
    (hc : y.Proper c) (hes : Told (es ++ p.view.queue) p.view) :
    Told (es ++ y.takes c ++ (p.step c).2.view.queue) (p.step c).2.view := by
  have hchanges := h.changes hc (Q := fun _ _ => True) (fun _ => trivial) (fun _ _ _ => trivial)
  cases c with
  | eventNext =>
    rw [takes, h.inStep.counts.queue, EmulSpec.step]
    rcases hqueue : p.view.queue with _ | ⟨e, queue⟩
    · rw [hqueue] at hes
      simpa [hqueue] using hes
    · rw [hqueue] at hes
      simp only [List.take_succ_cons, List.take_zero, List.append_assoc, List.cons_append,
        List.nil_append]
      exact ⟨hes.tells, hes.made, hes.listed, hes.nodup⟩
  | _ =>
    simp only [takes, List.append_nil]
    exact (hchanges.resolve_right (by simp)).told hes

end Kept

section Results

/-- The events that callers took and those still queued tell, of each registered reader, that it
is there before anything else, and last which card it has now. -/
theorem events_tell (hcs : Along EmulSystem.step Proper .start cs)
    (hrun : Machine.run EmulSystem.step .start cs = .ok (os, y)) {r : ℕ}
    (hr : r ∈ y.program.list) : ∃ c, y.program.readers.Holds r c
      ∧ EventsTell (EmulSystem.start.taken cs ++ y.program.queue) r c.item.card := by
  obtain ⟨y', hrun', h, htold⟩ := Tracked.run (P := fun _ => True)
    (I := fun es p => Told (es ++ p.view.queue) p.view) (fun h hc _ hes => h.told_step hc hes)
    [] tracked_start hcs (fun _ _ => trivial)
    ⟨fun r hr => by simp [EmulSpec.start] at hr, fun e he => by simp [EmulSpec.start] at he,
      fun r hr => by simp [EmulSpec.start] at hr, List.nodup_nil⟩
  obtain ⟨-, rfl⟩ := Prod.mk.inj (Except.ok.inj (hrun.symm.trans hrun'))
  rw [h.inStep.counts.list] at hr
  obtain ⟨c, hc, hitem⟩ := h.inStep.counts.readerIsThere
    (List.mem_append_left _ (List.mem_append_left _ hr))
  refine ⟨c, hc, ?_⟩
  rw [hitem, h.inStep.counts.queue]
  exact htold.tells r hr

theorem events_tell_soft : ∃ os y, Machine.run EmulSystem.step .start softAndToken = .ok (os, y)
    ∧ ∃ c, y.program.readers.Holds 0 c
      ∧ EventsTell (EmulSystem.start.taken softAndToken ++ y.program.queue) 0 c.item.card :=
  ⟨_, _, rfl, events_tell (by decide) rfl (by decide)⟩

/-- A run ends beside the emulator that does not count. -/
theorem tracked_of_run (hcs : Along EmulSystem.step Proper .start cs)
    (hrun : Machine.run EmulSystem.step .start cs = .ok (os, y)) :
    y.Tracked (EmulSpec.start.run cs).2 := by
  obtain ⟨y', hrun', h, -⟩ := Tracked.run (P := fun _ => True) (I := fun _ _ => True)
    (fun _ _ _ _ => trivial) [] tracked_start hcs (fun _ _ => trivial) trivial
  obtain ⟨-, rfl⟩ := Prod.mk.inj (Except.ok.inj (hrun.symm.trans hrun'))
  exact h

theorem Tracked.reader_of_holds (h : y.Tracked p) {r : ℕ} {c : Counted EmulReader}
    (hc : y.program.readers.Holds r c) : p.view.reader r = c.item := by
  rw [EmulView.reader, h.inStep.counts.seesReaders.item r c hc, Option.getD_some]

/-- No two readers have or keep one card. -/
theorem cards_apart (hcs : Along EmulSystem.step Proper .start cs)
    (hrun : Machine.run EmulSystem.step .start cs = .ok (os, y)) {r r' : ℕ}
    {c c' : Counted EmulReader} (hc : y.program.readers.Holds r c)
    (hc' : y.program.readers.Holds r' c') (hne : r ≠ r') : ∀ a ∈ c.item.owns, a ∉ c'.item.owns := by
  have h := tracked_of_run hcs hrun
  rw [← h.reader_of_holds hc, ← h.reader_of_holds hc']
  exact h.apart r r' hne

theorem cards_apart_soft : ∃ os y c c',
    Machine.run EmulSystem.step .start softAndToken = .ok (os, y)
      ∧ y.program.readers.Holds 0 c ∧ y.program.readers.Holds 1 c' ∧ c'.item.owns = [1]
      ∧ ∀ a ∈ c.item.owns, a ∉ c'.item.owns := by
  have hcs : Along EmulSystem.step Proper .start softAndToken := by decide
  obtain ⟨os, y, hrun, hc, hc'⟩ : ∃ os y,
      Machine.run EmulSystem.step .start softAndToken = .ok (os, y)
        ∧ y.program.readers.Holds 0 ⟨5, some 0, 1, true, 3, some 0⟩
        ∧ y.program.readers.Holds 1 ⟨3, some 1, 2, true, 5, none⟩ := ⟨_, _, rfl, rfl, rfl⟩
  exact ⟨os, y, _, _, hrun, hc, hc', rfl, cards_apart hcs hrun hc hc' (by decide)⟩

/-- While no token event is for its slot, the reader of a soft card has that card or none. -/
theorem saved_card_stays {slot : ℕ} (hcs : Along EmulSystem.step Proper .start cs)
    (hrun : Machine.run EmulSystem.step .start cs = .ok (os, y))
    (hslot : ∀ c ∈ cs, ∀ e, c = .tokenEvent e → e.slot ≠ slot) {r a : ℕ} {c : Counted EmulReader}
    (hc : y.program.readers.Holds r c) (hr : c.item.slot = slot)
    (ha : c.item.savedVcard = some a) : c.item.card = none ∨ c.item.card = some a := by
  obtain ⟨y', hrun', h, hkeeps⟩ := Tracked.run (I := fun _ p => p.view.KeepsSaved slot)
    (P := fun c => ∀ e, c = .tokenEvent e → e.slot ≠ slot) (fun {y p c es} h hc hP hkeeps => by
      rcases h.changes hc (Q := fun s saved => s = slot → saved = none) (fun _ _ => rfl)
        (fun e he _ hs => absurd hs (hP e he)) with hchanges | ⟨-, e, queue, -, hview⟩
      · exact hchanges.keepsSaved hkeeps
      · rw [hview]
        exact hkeeps)
    [] tracked_start hcs hslot fun b _ a ha => by simp [EmulSpec.start, EmulView.reader] at ha
  obtain ⟨-, rfl⟩ := Prod.mk.inj (Except.ok.inj (hrun.symm.trans hrun'))
  rw [← h.reader_of_holds hc] at hr ha ⊢
  exact hkeeps r hr a ha

theorem saved_card_stays_soft : ∃ os y c,
    Machine.run EmulSystem.step .start softAndToken = .ok (os, y)
      ∧ y.program.readers.Holds 0 c ∧ c.item.savedVcard = some 0
      ∧ (c.item.card = none ∨ c.item.card = some 0) := by
  have hcs : Along EmulSystem.step Proper .start softAndToken := by decide
  have hslot : ∀ c ∈ softAndToken, ∀ e, c = .tokenEvent e → e.slot ≠ 1 := by simp [softAndToken]
  obtain ⟨os, y, hrun, hc⟩ : ∃ os y,
      Machine.run EmulSystem.step .start softAndToken = .ok (os, y)
        ∧ y.program.readers.Holds 0 ⟨5, some 0, 1, true, 3, some 0⟩ := ⟨_, _, rfl, rfl⟩
  exact ⟨os, y, _, hrun, hc, rfl, saved_card_stays hcs hrun hslot hc rfl rfl⟩

end Results

section Slots

/-- Whether one of the calls is an event for the slot. -/
def tokenFor (slot : ℕ) : EmulCall γ → Bool
  | .tokenEvent e => e.slot = slot
  | _ => false

theorem slotCount_eq_zero {v : EmulView γ} {slot : ℕ} (h : v.find slot = none) :
    v.slotCount slot = 0 := by
  rw [EmulView.slotCount, List.countP_eq_zero]
  exact List.find?_eq_none.1 h

theorem slotCount_pos {v : EmulView γ} {slot r : ℕ} (h : v.find slot = some r) :
    0 < v.slotCount slot :=
  List.countP_pos_iff.2 ⟨r, List.mem_of_find?_eq_some h, by simpa using List.find?_some h⟩

theorem slotCount_addReader {v : EmulView γ} (hv : ∀ r ∈ v.list, r < v.readers.length)
    (slot slot' : ℕ) : (v.addReader slot).slotCount slot'
      = v.slotCount slot' + if slot = slot' then 1 else 0 := by
  have hlist : (v.addReader slot).list = v.list ++ [v.readers.length] := rfl
  rw [EmulView.slotCount, hlist, List.countP_append, List.countP_singleton,
    CardProgram.reader_addReader, EmulView.slotCount]
  congr 1
  · refine List.countP_congr fun r hr => ?_
    rw [reader_addReader_ne slot (Nat.ne_of_lt (hv r hr))]
  · simp

theorem Tracked.sameSlots (h : y.Tracked p) {c : EmulCall γ} (hc : y.Proper c)
    (hlen : (p.step c).2.view.readers.length = p.view.readers.length)
    (hlist : (p.step c).2.view.list.length = p.view.list.length) :
    p.view.SameSlots (p.step c).2.view := by
  rcases h.changes hc (Q := fun _ _ => True) (fun _ => trivial) (fun _ _ _ => trivial)
    with hchanges | ⟨-, e, queue, -, hview⟩
  · exact hchanges.sameSlots hlen hlist
  · rw [hview]
    exact ⟨rfl, fun _ => rfl⟩

theorem length_tokenChange {v : EmulView γ} (r : ℕ) (e : TokenNow γ) :
    (v.tokenChange r e).readers.length = v.readers.length := by
  simp only [EmulView.tokenChange]
  split_ifs <;> simp

theorem list_tokenChange {v : EmulView γ} (r : ℕ) (e : TokenNow γ) :
    (v.tokenChange r e).list = v.list := by
  simp only [EmulView.tokenChange]
  split_ifs <;> simp [EmulView.setReader, EmulView.insertCard, EmulView.queueEvent]

/-- With NSS set up only an event for a slot without a reader adds one. -/
theorem Tracked.slotCount_step (h : y.Tracked p) {c : EmulCall γ} (hc : y.Proper c)
    (hmode : p.mode = some .nss) : (p.step c).2.mode = some .nss
      ∧ p.view.list <+: (p.step c).2.view.list
      ∧ ∀ slot, (p.step c).2.view.slotCount slot
        = if tokenFor slot c then max 1 (p.view.slotCount slot) else p.view.slotCount slot := by
  have hpcsc : p.mode ≠ some .pcsc := by simp [hmode]
  have hkeep : (p.step c).2.view.readers.length = p.view.readers.length →
      (p.step c).2.view.list.length = p.view.list.length →
      (∀ slot, tokenFor slot c → 0 < p.view.slotCount slot) →
        p.view.list <+: (p.step c).2.view.list
        ∧ ∀ slot, (p.step c).2.view.slotCount slot
          = if tokenFor slot c then max 1 (p.view.slotCount slot) else p.view.slotCount slot := by
    intro hlen hlist hpos
    have hsame := h.sameSlots hc hlen hlist
    refine ⟨hsame.1 ▸ List.prefix_rfl, fun slot => ?_⟩
    rw [hsame.slotCount]
    split_ifs with htoken
    · have := hpos slot htoken
      omega
    · rfl
  cases c with
  | init o =>
    have hsame : (p.step (.init o)).2 = p := by
      rw [EmulSpec.step, EmulSpec.init, if_pos (by simp [hmode])]
    exact ⟨by rw [hsame, hmode], hkeep (by rw [hsame]) (by rw [hsame])
      (by simp [tokenFor])⟩
  | tokenEvent e =>
    refine ⟨hmode, ?_⟩
    have htoken : ∀ slot, tokenFor slot (.tokenEvent e) = decide (e.slot = slot) := fun _ => rfl
    rcases hfind : p.view.find e.slot with _ | r
    · have hview : (p.step (.tokenEvent e)).2.view = p.view.addReader e.slot := by
        rw [EmulSpec.step, EmulView.tokenEvent, hfind]
      rw [hview]
      refine ⟨List.prefix_append .., fun slot => ?_⟩
      rw [slotCount_addReader h.listed, htoken]
      split_ifs with hs hs' hs'
      · rw [← hs, slotCount_eq_zero hfind]
        rfl
      · simp [hs] at hs'
      · simp [hs] at hs'
      · rfl
    · have hview : (p.step (.tokenEvent e)).2.view = p.view.tokenChange r e := by
        rw [EmulSpec.step, EmulView.tokenEvent, hfind]
      refine hkeep (by rw [hview, length_tokenChange]) (by rw [hview, list_tokenChange])
        fun slot hs => ?_
      rw [htoken, decide_eq_true_eq] at hs
      exact slotCount_pos (hs ▸ hfind)
  | forceRemove r =>
    refine ⟨hmode, hkeep ?_ ?_ (by simp [tokenFor])⟩ <;>
      simp only [EmulSpec.step, EmulView.forceRemove] <;> split_ifs <;>
      simp [EmulView.setReader, EmulView.insertCard, EmulView.queueEvent]
  | forceInsert r isPresent mirrored =>
    refine ⟨hmode, hkeep ?_ ?_ (by simp [tokenFor])⟩ <;>
      simp only [EmulSpec.step, EmulView.forceInsert] <;>
      rcases (p.view.reader r).savedVcard with _ | a <;> dsimp only <;> split_ifs <;>
      simp [EmulView.setReader, EmulView.insertCard, EmulView.queueEvent]
  | eventNext =>
    rcases hqueue : p.view.queue with _ | ⟨e, queue⟩ <;>
      exact ⟨by simp [EmulSpec.step, hqueue, hmode], hkeep (by simp [EmulSpec.step, hqueue])
        (by simp [EmulSpec.step, hqueue]) (by simp [tokenFor])⟩
  | capcscNewReader => exact absurd (h.proper hc) hpcsc
  | capcscInsert r connects x => exact absurd (h.proper hc).1 hpcsc
  | capcscRemove r => exact absurd (h.proper hc).1 hpcsc
  | capcscGone r => exact absurd (h.proper hc).1 hpcsc
  | _ => exact ⟨hmode, hkeep rfl rfl (by simp [tokenFor])⟩

theorem Tracked.slotCount_run : ∀ {y : EmulSystem γ} {p : EmulSpec γ} {cs : List (EmulCall γ)},
    y.Tracked p → Along EmulSystem.step Proper y cs → p.mode = some .nss →
    p.view.list <+: (p.run cs).2.view.list ∧ ∀ slot, (p.run cs).2.view.slotCount slot
      = if cs.any (tokenFor slot) then max 1 (p.view.slotCount slot) else p.view.slotCount slot
  | y, p, [], _, _, _ => ⟨List.prefix_rfl, fun _ => rfl⟩
  | y, p, c :: cs, h, hcs, hmode => by
    obtain ⟨y₁, hstep, h₁⟩ := h.step hcs.1
    obtain ⟨hmode₁, hlist, hcount⟩ := h.slotCount_step hcs.1 hmode
    obtain ⟨hlist', hcount'⟩ := Tracked.slotCount_run h₁ (hcs.2 _ _ hstep) hmode₁
    refine ⟨hlist.trans hlist', fun slot => (hcount' slot).trans ?_⟩
    rw [hcount slot, List.any_cons]
    rcases tokenFor slot c <;> rcases cs.any (tokenFor slot) <;> simp

theorem Tracked.withSlot (h : y.Tracked p) (slot : ℕ) :
    (y.withSlot slot).length = p.view.slotCount slot := by
  rw [EmulSystem.withSlot, EmulView.slotCount, List.countP_eq_length_filter, h.inStep.counts.list]
  refine congrArg List.length (List.filter_congr fun r hr => ?_)
  obtain ⟨c, hc, hitem⟩ := h.inStep.counts.readerIsThere
    (List.mem_append_left _ (List.mem_append_left _ hr))
  rw [Heap.read_of_holds hc, ← hitem]

/-- Once NSS is set up readers stay registered, and a slot gets a reader with its first event just
if it had none. -/
theorem withSlot_run {cs' : List (EmulCall γ)}
    (hcs : Along EmulSystem.step Proper .start (cs ++ cs'))
    (hrun : Machine.run EmulSystem.step .start cs = .ok (os₁, y₁))
    (hrun' : Machine.run EmulSystem.step y₁ cs' = .ok (os₂, y₂)) (hmode : y₁.mode = some .nss) :
    y₁.program.list <+: y₂.program.list ∧ ∀ slot, (y₂.withSlot slot).length
      = if cs'.any (tokenFor slot) then max 1 (y₁.withSlot slot).length
        else (y₁.withSlot slot).length := by
  obtain ⟨hfirst, hrest⟩ := hcs.split hrun
  have h := tracked_of_run hfirst hrun
  obtain ⟨y', hrun'', h', -⟩ := Tracked.run (P := fun _ => True) (I := fun _ _ => True)
    (fun _ _ _ _ => trivial) [] h hrest (fun _ _ => trivial) trivial
  obtain ⟨-, rfl⟩ := Prod.mk.inj (Except.ok.inj (hrun'.symm.trans hrun''))
  obtain ⟨hlist, hcount⟩ := h.slotCount_run hrest (h.inStep.mode.symm.trans hmode)
  refine ⟨?_, fun slot => ?_⟩
  · rw [h.inStep.counts.list, h'.inStep.counts.list]
    exact hlist
  · rw [h.withSlot, h'.withSlot]
    exact hcount slot

theorem withSlot_run_token : ∃ os₁ os₂ y₁ y₂,
    Machine.run EmulSystem.step .start (softAndToken.take 4) = .ok (os₁, y₁)
      ∧ Machine.run EmulSystem.step y₁ (softAndToken.drop 4) = .ok (os₂, y₂)
      ∧ y₁.program.list <+: y₂.program.list ∧ (y₂.withSlot 2).length = 1 := by
  have hcs : Along EmulSystem.step Proper .start (softAndToken.take 4 ++ softAndToken.drop 4) := by
    decide
  have h := withSlot_run hcs rfl rfl rfl
  exact ⟨_, _, _, _, rfl, rfl, h.1, h.2 2⟩

end Slots

section Lost

theorem lostCards_init {o : EmulInit γ} {e : EmulInitError}
    (hinit : y.vcardEmulInit o = .ok (e, y₁)) : y₁.lostCards = y.lostCards := by
  unfold vcardEmulInit at hinit
  split_ifs at hinit
  · cases hinit
    rfl
  · cases hinit
    rfl
  · cases hinit
    rfl
  · obtain ⟨⟨s, lost⟩, -, hinit⟩ := bind_eq_ok.1 hinit
    cases hinit
    rfl
  · obtain ⟨⟨s, lost⟩, -, hinit⟩ := bind_eq_ok.1 hinit
    obtain ⟨s, -, hinit⟩ := bind_eq_ok.1 hinit
    cases hinit
    rfl
  · cases hinit
    rfl

/-- Lost references stay lost. -/
theorem lostCards_step {c : EmulCall γ} {o : EmulOutput} (hstep : y.step c = .ok (o, y₁)) :
    y.lostCards <:+ y₁.lostCards := by
  cases c with
  | init o =>
    obtain ⟨⟨e, y'⟩, hinit, hstep⟩ := bind_eq_ok.1 hstep
    cases hstep
    exact lostCards_init hinit ▸ List.suffix_rfl
  | eventNext =>
    rw [step] at hstep
    split at hstep <;> cases hstep <;> exact List.suffix_rfl
  | eventDelete event =>
    rw [step] at hstep
    split at hstep
    · cases hstep
    · obtain ⟨s, -, hstep⟩ := bind_eq_ok.1 hstep
      cases hstep
      exact List.suffix_rfl
  | cardIsPresent r =>
    obtain ⟨⟨s, present⟩, -, hstep⟩ := bind_eq_ok.1 hstep
    cases hstep
    exact List.suffix_rfl
  | capcscInsert r connects x =>
    obtain ⟨⟨s, lostReader, lostCard⟩, -, hstep⟩ := bind_eq_ok.1 hstep
    cases hstep
    exact List.suffix_append ..
  | _ =>
    obtain ⟨s, -, hstep⟩ := bind_eq_ok.1 hstep
    cases hstep
    exact List.suffix_rfl

theorem capcscInsertCard_lost {s s' : CardProgram γ} {r : ℕ} {x : γ} {lost lost' : Option ℕ}
    (h : s.capcscInsertCard r true x = .ok (s', lost, lost')) : lost' = some s.cards.length := by
  obtain ⟨s₁, hreference, h⟩ := bind_eq_ok.1 h
  obtain ⟨readers, -, hreference⟩ := bind_eq_ok.1 hreference
  cases hreference
  rw [if_neg (not_not.2 rfl)] at h
  obtain ⟨s₂, -, h⟩ := bind_eq_ok.1 h
  obtain ⟨s₃, -, h⟩ := bind_eq_ok.1 h
  cases h
  rfl

/-- A card that `insert_card` puts into a PC/SC reader is never destroyed. -/
theorem capcscInsert_lost {r : ℕ} {x : γ} {cs' : List (EmulCall γ)}
    (hcs : Along EmulSystem.step Proper .start (cs ++ .capcscInsert r true x :: cs'))
    (hrun : Machine.run EmulSystem.step .start cs = .ok (os₁, y₁))
    (hrun' : Machine.run EmulSystem.step .start (cs ++ .capcscInsert r true x :: cs')
      = .ok (os₂, y₂)) : ∃ c, y₂.program.cards.Holds y₁.program.cards.length c := by
  obtain ⟨os, y', os', hfirst, hrest, -⟩ := run_append_eq_ok.1 hrun'
  obtain ⟨-, rfl⟩ := Prod.mk.inj (Except.ok.inj (hrun.symm.trans hfirst))
  obtain ⟨o, y₃, os'', hstep, hrest, -⟩ := run_cons_eq_ok.1 hrest
  have hmem : y₁.program.cards.length ∈ y₃.lostCards := by
    obtain ⟨⟨s, lost, lost'⟩, hinsert, hstep⟩ := bind_eq_ok.1 hstep
    cases hstep
    rw [capcscInsertCard_lost hinsert]
    exact List.mem_cons_self
  have hmem' : y₁.program.cards.length ∈ y₂.lostCards :=
    run_invariant (I := fun y => y₁.program.cards.length ∈ y.lostCards) (P := fun _ _ => True)
      (fun _ _ _ _ hI _ hs => (lostCards_step hs).subset hI) hmem
      (along_iff.2 fun _ _ _ _ _ _ _ => trivial) hrest
  have h := tracked_of_run hcs hrun'
  refine h.inStep.countsExact.cards.live _ ?_
  exact List.mem_append_right _ (List.mem_append_right _ hmem')

def passthruReader : List (EmulCall ℕ) :=
  [.init ⟨true, true, false, [], .yes, []⟩, .capcscNewReader]

theorem capcscInsert_lost_removed : ∃ os y c,
    Machine.run EmulSystem.step .start (passthruReader ++ [.capcscInsert 0 true 7, .capcscRemove 0])
        = .ok (os, y) ∧ y.program.cards.Holds 0 c := by
  have hcs : Along EmulSystem.step Proper .start
      (passthruReader ++ .capcscInsert 0 true 7 :: [.capcscRemove 0]) := by decide
  obtain ⟨c, hc⟩ := capcscInsert_lost hcs rfl rfl
  exact ⟨_, _, c, rfl, hc⟩

end Lost

end EmulSystem

end Libcacard
