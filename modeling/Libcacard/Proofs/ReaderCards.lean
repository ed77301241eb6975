import Libcacard.ReaderCards
import Libcacard.Proofs.Mirror

/-!
# What is reported of cards put in and taken out

A call reports what it did unless it rebuilds a card and gets none (`reports_iff`), whatever calls
came before it. The events of a reader say what each call gave it, so they mirror what happened to
its card just if every call changed whether there is one.
-/

namespace Libcacard

open Machine

variable {τ κ γ : Type}

@[simp] theorem card_vreaderInsertCard (w : ReaderCards γ) (reader : ℕ) (card : Option γ) :
    (w.vreaderInsertCard reader card).card reader = card :=
  Function.update_self ..

theorem card_vreaderInsertCard_ne (w : ReaderCards γ) {reader r : ℕ} (card : Option γ)
    (h : r ≠ reader) : (w.vreaderInsertCard reader card).card r = w.card r :=
  Function.update_of_ne h ..

@[simp] theorem vreaderCardIsPresent_insert (w : ReaderCards γ) (reader : ℕ) (card : Option γ) :
    (w.vreaderInsertCard reader card).vreaderCardIsPresent reader = card.isSome := by
  rw [ReaderCards.vreaderCardIsPresent, card_vreaderInsertCard]

theorem queue_vreaderInsertCard (w : ReaderCards γ) (reader : ℕ) (card : Option γ) :
    (w.vreaderInsertCard reader card).queue
      = w.queue ++ [⟨if card.isSome then .cardInsert else .cardRemove, reader⟩] := by
  simp [ReaderCards.vreaderInsertCard, ReaderCards.vreaderQueueCardEvent]

section Forced

variable {db : CertDb κ} {emul : Emul τ} {digest : Bytes → Option Bytes}
  {savedVcard : ℕ → Option (VCard τ)} {w : ReaderCards (VCard τ)} {reader : ℕ} {now : SlotNow τ}

theorem forceCardRemove_reports (w : ReaderCards (VCard τ)) (reader : ℕ) (now : SlotNow τ) :
    (⟨.remove, reader, now⟩ : ForceCall τ).Reports w (vcardEmulForceCardRemove w reader now).1
      (vcardEmulForceCardRemove w reader now).2 := by
  unfold vcardEmulForceCardRemove
  split_ifs with h
  · refine ⟨⟨iff_of_false VCardEmulError.noConfusion ?_, VCardEmulError.noConfusion⟩,
      fun _ => ⟨rfl, rfl⟩⟩
    rintro ⟨hinit, hpresent⟩
    exact h.elim (absurd hinit) (absurd hpresent)
  · rw [not_or, not_not, not_not] at h
    refine ⟨⟨iff_of_true rfl h, fun _ => ?_⟩, VCardEmulError.noConfusion⟩
    simp

/-- A card is put into an empty reader, or the call fails and changes nothing. -/
theorem insert_reports_done {card : Option (VCard τ)}
    (habsent : ¬ w.vreaderCardIsPresent reader) :
    (⟨.insert, reader, now⟩ : ForceCall τ).Reports w .ok (w.vreaderInsertCard reader card)
      ↔ card.isSome := by
  simp [ForceCall.Reports, habsent]

theorem insert_reports_fail {c : ForceCall τ} (hop : c.op = .insert) : c.Reports w .fail w := by
  obtain ⟨op, reader, now⟩ := c
  obtain rfl : op = .insert := hop
  exact ⟨iff_of_false VCardEmulError.noConfusion fun h => h.1 h.2, fun _ => ⟨rfl, rfl⟩⟩

theorem forceCardInsert_reports_iff :
    (∃ e w', vcardEmulForceCardInsert db emul digest savedVcard w reader now = .ok (e, w')
        ∧ (⟨.insert, reader, now⟩ : ForceCall τ).Reports w e w')
      ↔ Rebuildable savedVcard w ⟨.insert, reader, now⟩ := by
  unfold vcardEmulForceCardInsert Rebuildable
  by_cases h : ¬ now.nssEmulInit ∨ w.vreaderCardIsPresent reader
  · rw [if_pos h]
    refine iff_of_true ⟨_, _, rfl, insert_reports_fail rfl⟩ fun _ hinit habsent => ?_
    exact h.elim (absurd hinit) fun hpresent => absurd hpresent habsent
  rw [if_neg h]
  rw [not_or, not_not] at h
  rcases hsaved : savedVcard reader with _ | vcard
  swap
  · exact iff_of_true ⟨_, _, rfl, (insert_reports_done h.2).2 rfl⟩
      fun _ _ _ hnone => absurd hnone (Option.some_ne_none vcard)
  dsimp only
  by_cases hpresent : now.isPresent
  swap
  · rw [if_pos hpresent]
    exact iff_of_true ⟨_, _, rfl, insert_reports_fail rfl⟩
      fun _ _ _ _ hthere => absurd hthere hpresent
  rw [if_neg (not_not.2 hpresent)]
  rcases vcardEmulMirrorCard_cases db emul digest now.statics (some now.reader) now.objs with
    ⟨hnothing, hmirror⟩ | ⟨hslot, hobjs, card, hmirror⟩
  · rw [hmirror]
    refine iff_of_false ?_ fun hbuild => ?_
    · rintro ⟨e, w', heq, hreports⟩
      cases heq
      exact absurd ((insert_reports_done h.2).1 hreports) Bool.false_ne_true
    · have hthere := hbuild rfl h.1 h.2 rfl hpresent
      exact hnothing.elim hthere.1 hthere.2
  · rw [hmirror]
    exact iff_of_true ⟨_, _, rfl, (insert_reports_done h.2).2 rfl⟩ fun _ _ _ _ _ => ⟨hslot, hobjs⟩

theorem reports_iff (c : ForceCall τ) :
    (∃ e w', forceStep db emul digest savedVcard w c = .ok (e, w') ∧ c.Reports w e w')
      ↔ Rebuildable savedVcard w c := by
  obtain ⟨op, reader, now⟩ := c
  cases op with
  | remove =>
    exact iff_of_true ⟨_, _, rfl, forceCardRemove_reports w reader now⟩
      fun hop => ForceOp.noConfusion hop
  | insert => exact forceCardInsert_reports_iff

/-- All calls report what they did just if every card that is to be rebuilt can be. -/
theorem forcedReport_iff (db : CertDb κ) (emul : Emul τ) (digest : Bytes → Option Bytes)
    (savedVcard : ℕ → Option (VCard τ)) (w : ReaderCards (VCard τ)) (calls : List (ForceCall τ)) :
    ForcedReport db emul digest savedVcard w calls
      ↔ Along (forceStep db emul digest savedVcard) (Rebuildable savedVcard) w calls := by
  rw [along_iff, ForcedReport]
  simp only [reports_iff]

end Forced

/-- An insertion that finds a token without a certificate object. -/
theorem rebuiltNothing_reports : ¬ ForcedReport CertDb.soft (Emul.plain none nofun)
    (fun _ => none) (fun _ => none) .new
    [⟨.insert, 0, ⟨true, ⟨some (), .cac⟩, true, [], .initial⟩⟩] := by
  intro h
  obtain ⟨e, w₂, hstep, hreports⟩ := h [] _ [] [] _ rfl rfl
  cases hstep
  exact absurd (hreports.1.1 rfl).2 (by decide)

section Events

variable {old : Option γ} {cards : List (Option γ)} {reader : ℕ}

/-- The event of a call. -/
def cardEvent (card : Option γ) : VEventType := if card.isSome then .cardInsert else .cardRemove

/-- An event that would change a reader's state, and the other one. -/
def nextEvent (present : Bool) : VEventType := if present then .cardRemove else .cardInsert

theorem cardEvents_insertCards (w : ReaderCards γ) (calls : List (ℕ × Option γ)) :
    (w.insertCards calls).cardEvents reader
      = w.cardEvents reader ++ (cardsFor reader calls).map cardEvent := by
  induction calls generalizing w with
  | nil => simp [ReaderCards.insertCards, cardsFor]
  | cons call calls ih =>
    rw [ReaderCards.insertCards, List.foldl_cons]
    refine (ih _).trans ?_
    rw [ReaderCards.cardEvents, queue_vreaderInsertCard, List.filter_append, List.map_append,
      List.append_assoc]
    congr 1
    by_cases hreader : call.1 = reader
    · simp [cardsFor, hreader, cardEvent]
    · simp [cardsFor, hreader]

theorem card_insertCards (w : ReaderCards γ) (calls : List (ℕ × Option γ)) :
    (w.insertCards calls).card reader
      = ((cardsFor reader calls).getLast?).getD (w.card reader) := by
  induction calls generalizing w with
  | nil => rfl
  | cons call calls ih =>
    rw [ReaderCards.insertCards, List.foldl_cons]
    refine (ih _).trans ?_
    by_cases hreader : call.1 = reader
    · have hcards : cardsFor reader (call :: calls) = call.2 :: cardsFor reader calls := by
        simp [cardsFor, hreader]
      rw [hcards, List.getLast?_cons, Option.getD_some, ← hreader, card_vreaderInsertCard]
    · have hcards : cardsFor reader (call :: calls) = cardsFor reader calls := by
        simp [cardsFor, hreader]
      rw [hcards, card_vreaderInsertCard_ne w call.2 (Ne.symm hreader)]

/-- The last event tells the state. -/
theorem replayEvents_map (cards : List (Option γ)) :
    replayEvents (cards.map cardEvent) = (cards.getLast?.getD none).isSome := by
  rcases List.eq_nil_or_concat cards with rfl | ⟨l, card, rfl⟩
  · rfl
  · rw [List.concat_eq_append, replayEvents, List.map_append, List.foldl_append,
      List.getLast?_append]
    cases card <;> rfl

theorem alternate_iff : Alternate (nextEvent old.isSome) (nextEvent (!old.isSome))
    (cards.map cardEvent) ↔ ChangesPresence old cards := by
  induction cards generalizing old with
  | nil => exact Iff.rfl
  | cons new cards ih =>
    have hevent : cardEvent new = nextEvent old.isSome ↔ old.isSome ≠ new.isSome := by
      cases old <;> cases new <;> simp [cardEvent, nextEvent]
    rw [List.map_cons, Alternate, ChangesPresence, hevent]
    refine and_congr_right fun hchange => ?_
    have hnew : new.isSome = !old.isSome := Bool.eq_not.2 (Ne.symm hchange)
    have hrest := @ih new
    rwa [hnew, Bool.not_not] at hrest

/-- Where every call changes the state, its event is the change. -/
theorem map_cardEvent_of_changesPresence (h : ChangesPresence old cards) :
    cards.map cardEvent = cardChanges old cards := by
  induction cards generalizing old with
  | nil => rfl
  | cons new cards ih =>
    rw [List.map_cons, cardChanges, ← ih h.2]
    have hchange := h.1
    cases old <;> cases new
    · exact absurd rfl hchange
    · rfl
    · rfl
    · exact absurd rfl hchange

/-- The events of a reader mirror what happened to its card just if each call changed whether there
is one. -/
theorem eventsMirror_iff (reader : ℕ) (calls : List (ℕ × Option γ)) :
    EventsMirror (ReaderCards.new.insertCards calls) reader (cardsFor reader calls)
      ↔ ChangesPresence none (cardsFor reader calls) := by
  have hevents : (ReaderCards.new.insertCards calls).cardEvents reader
      = (cardsFor reader calls).map cardEvent := cardEvents_insertCards _ calls
  refine ⟨fun h => ?_, fun h => ⟨?_, ?_, ?_⟩⟩
  · have halternate := h.alternate
    rw [hevents] at halternate
    exact alternate_iff.1 halternate
  · rw [hevents, map_cardEvent_of_changesPresence h]
  · rw [hevents]
    exact alternate_iff.2 h
  · rw [hevents, replayEvents_map, ReaderCards.vreaderCardIsPresent, card_insertCards]
    rfl

/-- A removal from an empty reader. -/
theorem removeNothing_events : ¬ EventsMirror ((ReaderCards.new : ReaderCards Unit).insertCards
    [(0, none)]) 0 [none] := by
  intro h
  exact absurd h.each (by decide)

end Events

end Libcacard
