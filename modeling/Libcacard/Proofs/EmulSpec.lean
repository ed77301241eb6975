import Libcacard.Proofs.EmulReaders
import Mathlib.Logic.Relation

/-!
# What calls do to readers

Every call is a sequence of a few changes. A card that is put into a reader is made for it, or was
saved for it; each change to a reader's card is told by an event.
-/

namespace Libcacard

open Machine CardProgram

variable {γ : Type}

namespace EmulView

variable {v v' : EmulView γ} {r b : ℕ} {Q : ℕ → Option ℕ → Prop}

theorem reader_setReader_ne (f : EmulReader → EmulReader) (hne : b ≠ r) :
    (v.setReader r f).reader b = v.reader b := by
  simp [reader, setReader, Ne.symm hne]

theorem reader_setReader_eq (f : EmulReader → EmulReader) :
    (v.setReader r f).reader b
      = if b = r ∧ r < v.readers.length then f (v.reader b) else v.reader b := by
  rcases eq_or_ne b r with rfl | hne
  · by_cases hlt : b < v.readers.length
    · rw [CardProgram.reader_setReader hlt, if_pos ⟨rfl, hlt⟩]
    · rw [if_neg fun h => hlt h.2]
      simp [reader, setReader, List.getElem?_eq_none (Nat.not_lt.1 hlt)]
  · rw [reader_setReader_ne f hne, if_neg fun h => hne h.1]

theorem reader_addReader_ne (slot : ℕ) (hne : b ≠ v.readers.length) :
    (v.addReader slot).reader b = v.reader b := by
  rcases Nat.lt_or_gt_of_ne hne with hlt | hgt
  · simp [reader, addReader, List.getElem?_append_left hlt]
  · simp only [reader, addReader]
    rw [List.getElem?_eq_none (Nat.le_of_lt hgt), List.getElem?_eq_none]
    simp only [List.length_append, List.length_singleton]
    omega

theorem reader_fresh : v.reader v.readers.length = ⟨none, 0, false, 0, none⟩ := by
  simp [reader]

@[simp] theorem length_setReader (f : EmulReader → EmulReader) :
    (v.setReader r f).readers.length = v.readers.length := List.length_modify ..

@[simp] theorem length_insertCard (card : Option ℕ) :
    (v.insertCard r card).readers.length = v.readers.length := length_setReader _

@[simp] theorem readers_make (made : Option γ) : (v.make made).1.readers = v.readers := by
  rcases made with _ | x <;> rfl

@[simp] theorem list_insertMade (made : Option γ) : (v.insertMade r made).list = v.list := by
  rcases made with _ | x <;> rfl

@[simp] theorem length_insertMade (made : Option γ) :
    (v.insertMade r made).readers.length = v.readers.length := by
  rw [insertMade, length_insertCard, readers_make]

@[simp] theorem length_addReader (slot : ℕ) :
    (v.addReader slot).readers.length = v.readers.length + 1 := by
  simp [addReader]

@[simp] theorem length_initSeries (present : Bool) (series : ℕ) :
    (v.initSeries r present series).readers.length = v.readers.length := by
  rw [initSeries]
  split_ifs <;> simp

section Changes

/-- What calls do. New cards are put only into readers whose slot and saved card have `Q`. -/
inductive Change (Q : ℕ → Option ℕ → Prop) : EmulView γ → EmulView γ → Prop
  | note (v : EmulView γ) (r : ℕ) (present : Bool) (series : ℕ) :
    Change Q v (v.setReader r fun i => { i with present := present, series := series })
  | remove (v : EmulView γ) {r : ℕ} (hr : r < v.readers.length) : Change Q v (v.insertCard r none)
  | new (v : EmulView γ) {r : ℕ} (hr : r < v.readers.length) (made : Option γ)
    (hQ : Q (v.reader r).slot (v.reader r).savedVcard) : Change Q v (v.insertMade r made)
  | saved (v : EmulView γ) {r a : ℕ} (hr : r < v.readers.length)
    (ha : (v.reader r).savedVcard = some a) : Change Q v (v.insertCard r (some a))
  | add (v : EmulView γ) (slot : ℕ) : Change Q v (v.addReader slot)
  | save (v : EmulView γ) {r : ℕ} (card : Option ℕ) (hr : r < v.readers.length)
    (hcard : (v.reader r).card = none ∨ (v.reader r).card = card)
    (hnew : ∀ a ∈ card, a < v.cards.length ∧ ∀ b, a ∈ (v.reader b).owns → b = r) :
    Change Q v (v.setReader r fun i => { i with savedVcard := card })
  | use (v : EmulView γ) (a : ℕ) (f : γ → γ) : Change Q v { v with cards := v.cards.modify a f }
  | gone (v : EmulView γ) {r : ℕ} (hr : r ∈ v.list) : Change Q v (v.removeReader r)
  | replay (v : EmulView γ) (l : List ℕ) (hl : ∀ r ∈ l, r < v.readers.length) :
    Change Q v { v with queue := v.queue ++ l.map v.cardEvent }

abbrev Changes (Q : ℕ → Option ℕ → Prop) : EmulView γ → EmulView γ → Prop :=
  Relation.ReflTransGen (Change Q)

theorem Change.readers_le (h : Change Q v v') : v.readers.length ≤ v'.readers.length := by
  cases h with
  | gone hr => exact le_rfl
  | _ => simp

theorem Changes.readers_le (h : Changes Q v v') : v.readers.length ≤ v'.readers.length := by
  induction h with
  | refl => exact le_rfl
  | tail _ hstep ih => exact ih.trans hstep.readers_le

/-- The cards that readers refer to were made. -/
def Bounded (v : EmulView γ) : Prop := ∀ r, ∀ a ∈ (v.reader r).owns, a < v.cards.length

theorem cards_make (made : Option γ) : (v.make made).1.cards = v.cards ++ made.toList := by
  rcases made with _ | x
  · exact (List.append_nil _).symm
  · rfl

theorem mem_make (made : Option γ) {a : ℕ} (ha : a ∈ (v.make made).2) :
    a = v.cards.length ∧ a < (v.make made).1.cards.length := by
  rcases made with _ | x
  · cases ha
  · obtain rfl := Option.some.inj ha
    exact ⟨rfl, by simp [make]⟩

/-- What one reader refers to when its card changes. -/
theorem mem_owns_insertCard {card : Option ℕ} {a : ℕ}
    (ha : a ∈ ((v.insertCard r card).reader r).owns) : a ∈ (v.reader r).owns ∨ a ∈ card := by
  change a ∈ ((v.setReader r fun i => { i with card := card }).reader r).owns at ha
  rw [reader_setReader_eq] at ha
  split_ifs at ha
  · simp only [EmulReader.owns, List.mem_append, Option.mem_toList] at ha ⊢
    tauto
  · exact .inl ha

theorem reader_insertCard_ne (card : Option ℕ) (hne : b ≠ r) :
    (v.insertCard r card).reader b = v.reader b := reader_setReader_ne _ hne

theorem card_insertCard (hr : r < v.readers.length) (card : Option ℕ) :
    ((v.insertCard r card).reader r).card = card := by
  change ((v.setReader r _).reader r).card = card
  rw [CardProgram.reader_setReader hr]

/-- One reader refers to other cards after a change, and to none of another reader. -/
theorem Change.owns (h : Change Q v v') (hv : v.Bounded) : v.cards.length ≤ v'.cards.length ∧
    ∃ r, (∀ b, b ≠ r → (v'.reader b).owns = (v.reader b).owns) ∧
      ∀ a ∈ (v'.reader r).owns, a ∈ (v.reader r).owns
        ∨ (a < v'.cards.length ∧ ∀ b, b ≠ r → a ∉ (v.reader b).owns) := by
  cases h with
  | note r present series =>
    have hsame : ∀ b, ((v.setReader r fun i =>
        { i with present := present, series := series }).reader b).owns = (v.reader b).owns :=
      reader_setReader_of EmulReader.owns fun _ => rfl
    exact ⟨le_rfl, r, fun b _ => hsame b, fun a ha => .inl (hsame r ▸ ha)⟩
  | @remove r hr =>
    refine ⟨le_rfl, r, fun b hne => by rw [reader_insertCard_ne none hne], fun a ha => .inl ?_⟩
    exact (mem_owns_insertCard ha).resolve_right fun h => nomatch h
  | @new r hr made hQ =>
    refine ⟨by simp [insertMade, insertCard, setReader, queueEvent, cards_make], r, fun b hne => ?_,
      fun a ha => ?_⟩
    · rw [insertMade, reader_insertCard_ne _ hne, reader_make]
    · rcases mem_owns_insertCard ha with ha | ha
      · exact .inl (by rwa [reader_make] at ha)
      · obtain ⟨rfl, hlt⟩ := mem_make made ha
        exact .inr ⟨hlt, fun b _ hb => Nat.lt_irrefl _ (hv b _ hb)⟩
  | @saved r c hr hsaved =>
    refine ⟨le_rfl, r, fun b hne => by rw [reader_insertCard_ne _ hne], fun a ha => .inl ?_⟩
    rcases mem_owns_insertCard ha with ha | ha
    · exact ha
    · obtain rfl := Option.some.inj ha
      simp [EmulReader.owns, hsaved]
  | add slot =>
    refine ⟨le_rfl, v.readers.length, fun b hne => by rw [reader_addReader_ne slot hne],
      fun a ha => ?_⟩
    rw [reader_addReader] at ha
    simp [EmulReader.owns] at ha
  | @save r card hr hcard hnew =>
    refine ⟨le_rfl, r, fun b hne => by rw [reader_setReader_ne _ hne], fun a ha => ?_⟩
    rw [CardProgram.reader_setReader hr] at ha
    simp only [EmulReader.owns, List.mem_append, Option.mem_toList] at ha ⊢
    rcases ha with ha | ha
    · exact .inl (.inl ha)
    · exact .inr ⟨(hnew a ha).1, fun b hne hb => hne ((hnew a ha).2 b (by
        simpa only [EmulReader.owns, List.mem_append, Option.mem_toList] using hb))⟩
  | use c f => exact ⟨by simp, 0, fun _ _ => rfl, fun a ha => .inl ha⟩
  | gone hr => exact ⟨le_rfl, 0, fun _ _ => rfl, fun a ha => .inl ha⟩
  | replay l hl => exact ⟨le_rfl, 0, fun _ _ => rfl, fun a ha => .inl ha⟩

theorem Change.bounded (h : Change Q v v') (hv : v.Bounded) : v'.Bounded := by
  obtain ⟨hle, r, hsame, hnew⟩ := h.owns hv
  intro b a ha
  rcases eq_or_ne b r with rfl | hne
  · rcases hnew a ha with ha | ⟨hlt, -⟩
    · exact (hv b a ha).trans_le hle
    · exact hlt
  · rw [hsame b hne] at ha
    exact (hv b a ha).trans_le hle

theorem Changes.bounded (h : Changes Q v v') (hv : v.Bounded) : v'.Bounded := by
  induction h with
  | refl => exact hv
  | tail _ hstep ih => exact hstep.bounded ih

/-- No two readers refer to one card. -/
def Apart (v : EmulView γ) : Prop :=
  ∀ b b', b ≠ b' → ∀ a ∈ (v.reader b).owns, a ∉ (v.reader b').owns

theorem Change.apart (h : Change Q v v') (hv : v.Bounded) (ha : v.Apart) : v'.Apart := by
  obtain ⟨-, r, hsame, hnew⟩ := h.owns hv
  have hother : ∀ b, b ≠ r → ∀ a ∈ (v'.reader r).owns, a ∉ (v'.reader b).owns := by
    intro b hne a har hab
    rw [hsame b hne] at hab
    rcases hnew a har with har | ⟨-, hnot⟩
    · exact ha r b hne.symm a har hab
    · exact hnot b hne hab
  intro b b' hne a hab hab'
  rcases eq_or_ne b r with rfl | hb
  · exact hother b' hne.symm a hab hab'
  · rcases eq_or_ne b' r with rfl | hb'
    · exact hother b hb a hab' hab
    · rw [hsame b hb] at hab
      rw [hsame b' hb'] at hab'
      exact ha b b' hne a hab hab'

theorem Changes.apart (h : Changes Q v v') (hv : v.Bounded) (ha : v.Apart) : v'.Apart := by
  induction h with
  | refl => exact ha
  | tail hsteps hstep ih => exact hstep.apart (Changes.bounded hsteps hv) ih

end Changes

section Tell

/-- What happened is what the events tell of every registered reader. -/
structure Told (events : List CardEvent) (v : EmulView γ) : Prop where
  tells : ∀ r ∈ v.list, EventsTell events r (v.reader r).card
  made : ∀ e ∈ events, e.reader < v.readers.length
  listed : ∀ r ∈ v.list, r < v.readers.length
  nodup : v.list.Nodup

theorem tells_append {es es' : List CardEvent} {card card' : Option ℕ} (h : EventsTell es r card)
    (hes : ∀ e ∈ es', e.reader = r → e.card = card' ∧ (e.type = .cardInsert ↔ card'.isSome))
    (hkeep : (∀ e ∈ es', e.reader ≠ r) → card' = card) : EventsTell (es ++ es') r card' := by
  have hsplit : eventsAbout r (es ++ es') = eventsAbout r es ++ eventsAbout r es' :=
    List.filter_append ..
  obtain ⟨e, hlast, hcard, htype⟩ := h.last
  refine ⟨by rw [hsplit, List.head?_append, h.first]; rfl, ?_⟩
  rw [hsplit]
  rcases hlast' : (eventsAbout r es').getLast? with _ | e'
  · have hnone := List.getLast?_eq_none_iff.1 hlast'
    obtain rfl := hkeep fun e he heq => by
      have hmem : e ∈ eventsAbout r es' := List.mem_filter.2 ⟨he, by simpa using heq⟩
      rw [hnone] at hmem
      cases hmem
    rw [hnone, List.append_nil]
    exact ⟨e, hlast, hcard, htype⟩
  · have hmem := List.mem_of_getLast? hlast'
    obtain ⟨he', heq⟩ := List.mem_filter.1 hmem
    refine ⟨e', by rw [List.getLast?_append, hlast']; rfl, hes e' he' (by simpa using heq)⟩

theorem cardEvent_type : (v.cardEvent r).type = .cardInsert ↔ (v.reader r).card.isSome := by
  rw [cardEvent]
  split_ifs with hcard <;> simp [hcard]

variable {es : List CardEvent}

theorem told_insertCard {card : Option ℕ} (h : Told (es ++ v.queue) v) (hr : r < v.readers.length) :
    Told (es ++ (v.insertCard r card).queue) (v.insertCard r card) := by
  have hqueue : (v.insertCard r card).queue = v.queue ++ [(v.insertCard r card).cardEvent r] := rfl
  rw [hqueue, ← List.append_assoc]
  refine ⟨fun b hb => ?_, fun e he => ?_, fun b hb => ?_, h.nodup⟩
  · refine tells_append (h.tells b hb) (fun e he heq => ?_) fun hne => ?_
    · obtain rfl := List.mem_singleton.1 he
      obtain rfl : r = b := heq
      exact ⟨rfl, cardEvent_type⟩
    · have hne : b ≠ r := (hne _ List.mem_cons_self).symm
      rw [reader_insertCard_ne _ hne]
  · rw [length_insertCard]
    rcases List.mem_append.1 he with he | he
    · exact h.made e he
    · obtain rfl := List.mem_singleton.1 he
      exact hr
  · rw [length_insertCard]
    exact h.listed b hb

theorem told_note {f : EmulReader → EmulReader} (hf : ∀ i, (f i).card = i.card)
    (h : Told (es ++ v.queue) v) : Told (es ++ (v.setReader r f).queue) (v.setReader r f) := by
  refine ⟨fun b hb => ?_, fun e he => ?_, fun b hb => ?_, h.nodup⟩
  · rw [reader_setReader_of EmulReader.card hf]
    exact h.tells b hb
  · simpa using h.made e he
  · simpa using h.listed b hb

theorem told_addReader (slot : ℕ) (h : Told (es ++ v.queue) v) :
    Told (es ++ (v.addReader slot).queue) (v.addReader slot) := by
  have hqueue : (v.addReader slot).queue
      = v.queue ++ [⟨.readerInsert, v.readers.length, none⟩] := rfl
  rw [hqueue, ← List.append_assoc]
  have hmem : ∀ b ∈ (v.addReader slot).list, b ∈ v.list ∨ b = v.readers.length := fun b hb =>
    (List.mem_append.1 hb).imp_right List.mem_singleton.1
  refine ⟨fun b hb => ?_, fun e he => ?_, fun b hb => ?_, ?_⟩
  · rcases hmem b hb with hb | rfl
    · rw [reader_addReader_ne slot (Nat.ne_of_lt (h.listed b hb))]
      refine tells_append (h.tells b hb) (fun e he heq => ?_) fun _ => rfl
      obtain rfl := List.mem_singleton.1 he
      exact absurd heq.symm (Nat.ne_of_lt (h.listed b hb))
    · have habout : eventsAbout v.readers.length (es ++ v.queue) = [] :=
        List.filter_eq_nil_iff.2 fun e he => by
          simpa using Nat.ne_of_lt (h.made e he)
      have hsplit : eventsAbout v.readers.length
          (es ++ v.queue ++ [⟨.readerInsert, v.readers.length, none⟩])
            = [⟨.readerInsert, v.readers.length, none⟩] := by
        rw [eventsAbout, List.filter_append, ← eventsAbout, habout]
        simp
      rw [reader_addReader]
      exact ⟨by rw [hsplit]; rfl, _, by rw [hsplit]; rfl, rfl, by simp⟩
  · rw [length_addReader]
    rcases List.mem_append.1 he with he | he
    · have := h.made e he
      omega
    · obtain rfl := List.mem_singleton.1 he
      exact Nat.lt_succ_self _
  · rw [length_addReader]
    rcases hmem b hb with hb | rfl
    · exact Nat.lt_succ_of_lt (h.listed b hb)
    · exact Nat.lt_succ_self _
  · refine List.nodup_append.2 ⟨h.nodup, List.nodup_singleton _, fun b hb b' hb' => ?_⟩
    rw [List.mem_singleton.1 hb']
    exact Nat.ne_of_lt (h.listed b hb)

theorem told_removeReader (h : Told (es ++ v.queue) v) (hr : r ∈ v.list) :
    Told (es ++ (v.removeReader r).queue) (v.removeReader r) := by
  have hqueue : (v.removeReader r).queue = v.queue ++ [⟨.readerRemove, r, none⟩] := rfl
  rw [hqueue, ← List.append_assoc]
  refine ⟨fun b hb => ?_, fun e he => ?_, fun b hb => h.listed b (List.mem_of_mem_erase hb),
    h.nodup.erase r⟩
  · obtain ⟨hne, hb⟩ := h.nodup.mem_erase_iff.1 hb
    refine tells_append (h.tells b hb) (fun e he heq => ?_) fun _ => rfl
    obtain rfl := List.mem_singleton.1 he
    exact absurd heq.symm hne
  · rcases List.mem_append.1 he with he | he
    · exact h.made e he
    · obtain rfl := List.mem_singleton.1 he
      exact h.listed r hr

/-- Every change to a card is told. -/
theorem Change.told (h : Change Q v v') (hv : Told (es ++ v.queue) v) :
    Told (es ++ v'.queue) v' := by
  cases h with
  | note r present series => exact told_note (fun _ => rfl) hv
  | remove hr => exact told_insertCard hv hr
  | new hr made hQ =>
    refine told_insertCard (v := (v.make made).1) ?_ (by rwa [readers_make])
    rcases made with _ | x <;> exact ⟨hv.tells, hv.made, hv.listed, hv.nodup⟩
  | saved hr hsaved => exact told_insertCard hv hr
  | add slot => exact told_addReader slot hv
  | save card hr hcard hnew => exact told_note (fun _ => rfl) hv
  | use c f => exact ⟨hv.tells, hv.made, hv.listed, hv.nodup⟩
  | gone hr => exact told_removeReader hv hr
  | replay l hl =>
    rw [← List.append_assoc]
    refine ⟨fun b hb => tells_append (hv.tells b hb) (fun e he heq => ?_) fun _ => rfl,
      fun e he => ?_, hv.listed, hv.nodup⟩
    · obtain ⟨r, hr, rfl⟩ := List.mem_map.1 he
      obtain rfl : r = b := heq
      exact ⟨rfl, cardEvent_type⟩
    · rcases List.mem_append.1 he with he | he
      · exact hv.made e he
      · obtain ⟨r, hr, rfl⟩ := List.mem_map.1 he
        exact hl r hr

theorem Changes.told (h : Changes Q v v') (hv : Told (es ++ v.queue) v) :
    Told (es ++ v'.queue) v' := by
  induction h with
  | refl => exact hv
  | tail _ hstep ih => exact hstep.told ih

end Tell

section Saved

/-- A reader of the slot that has a saved card has no other card. -/
def KeepsSaved (slot : ℕ) (v : EmulView γ) : Prop :=
  ∀ r, (v.reader r).slot = slot → ∀ a ∈ (v.reader r).savedVcard,
    (v.reader r).card = none ∨ (v.reader r).card = some a

theorem Change.keepsSaved {slot : ℕ} (h : Change (fun s saved => s = slot → saved = none) v v')
    (hv : v.KeepsSaved slot) : v'.KeepsSaved slot := by
  have hinsert : ∀ {w : EmulView γ} {r : ℕ} {card : Option ℕ}, w.KeepsSaved slot →
      ((w.reader r).slot = slot → ∀ a ∈ (w.reader r).savedVcard, card = none ∨ card = some a) →
        (w.insertCard r card).KeepsSaved slot := by
    intro w r card hw hcard b
    change ((w.setReader r _).reader b).slot = slot → _
    change _ → ∀ a ∈ ((w.setReader r _).reader b).savedVcard,
      ((w.setReader r _).reader b).card = none
      ∨ ((w.setReader r _).reader b).card = some a
    rw [reader_setReader_eq]
    split_ifs with hb
    · exact hb.1 ▸ hcard
    · exact hw b
  cases h with
  | note r present series =>
    intro b
    rw [reader_setReader_eq]
    split_ifs
    · exact hv b
    · exact hv b
  | remove hr => exact hinsert hv fun _ _ _ => .inl rfl
  | @new r hr made hQ =>
    refine hinsert (fun b => ?_) fun hslot a ha => ?_
    · rw [reader_make]
      exact hv b
    · rw [reader_make] at hslot ha
      rw [hQ hslot] at ha
      cases ha
  | saved hr hsaved => exact hinsert hv fun _ a ha => .inr (hsaved.symm.trans ha)
  | add slot' =>
    intro b
    rcases eq_or_ne b v.readers.length with rfl | hne
    · rw [reader_addReader]
      exact fun _ a ha => nomatch ha
    · rw [reader_addReader_ne slot' hne]
      exact hv b
  | @save r card hr hcard hnew =>
    intro b
    rw [reader_setReader_eq]
    split_ifs with hb
    · rintro - a rfl
      exact hb.1 ▸ hcard
    · exact hv b
  | use c f => exact hv
  | gone hr => exact hv
  | replay l hl => exact hv

theorem Changes.keepsSaved {slot : ℕ}
    (h : Changes (fun s saved => s = slot → saved = none) v v') (hv : v.KeepsSaved slot) :
    v'.KeepsSaved slot := by
  induction h with
  | refl => exact hv
  | tail _ hstep ih => exact hstep.keepsSaved ih

/-- No reader was added, and the readers have the slots they had. -/
def SameSlots (v v' : EmulView γ) : Prop :=
  v'.list = v.list ∧ ∀ b, (v'.reader b).slot = (v.reader b).slot

theorem Change.list_le (h : Change Q v v') (hlen : v'.readers.length = v.readers.length) :
    v'.list.length ≤ v.list.length := by
  cases h with
  | new hr made hQ => rw [list_insertMade]
  | add slot =>
    rw [length_addReader] at hlen
    omega
  | gone hr => exact List.length_erase_le
  | _ => exact le_rfl

theorem Change.sameSlots (h : Change Q v v') (hlen : v'.readers.length = v.readers.length)
    (hlist : v'.list.length = v.list.length) : v.SameSlots v' := by
  cases h with
  | note r present series => exact ⟨rfl, reader_setReader_of EmulReader.slot fun _ => rfl⟩
  | remove hr => exact ⟨rfl, reader_insertCard_of EmulReader.slot fun _ => rfl⟩
  | new hr made hQ =>
    refine ⟨list_insertMade made, fun b => ?_⟩
    rw [insertMade, reader_insertCard_of EmulReader.slot fun _ => rfl, reader_make]
  | saved hr hsaved => exact ⟨rfl, reader_insertCard_of EmulReader.slot fun _ => rfl⟩
  | add slot =>
    rw [length_addReader] at hlen
    omega
  | save card hr hcard hnew => exact ⟨rfl, reader_setReader_of EmulReader.slot fun _ => rfl⟩
  | use c f => exact ⟨rfl, fun _ => rfl⟩
  | @gone r hr =>
    have hshort : (v.list.erase r).length = v.list.length - 1 := List.length_erase_of_mem hr
    have hpos := List.length_pos_of_mem hr
    change (v.list.erase r).length = _ at hlist
    omega
  | replay l hl => exact ⟨rfl, fun _ => rfl⟩

theorem Changes.list_le (h : Changes Q v v') :
    v'.readers.length = v.readers.length → v'.list.length ≤ v.list.length := by
  induction h with
  | refl => exact fun _ => le_rfl
  | tail hsteps hstep ih =>
    intro hlen
    have hle := Changes.readers_le hsteps
    have hle' := hstep.readers_le
    exact (hstep.list_le (by omega)).trans (ih (by omega))

/-- No reader was added or removed. -/
theorem Changes.sameSlots (h : Changes Q v v') : v'.readers.length = v.readers.length →
    v'.list.length = v.list.length → v.SameSlots v' := by
  induction h with
  | refl => exact fun _ _ => ⟨rfl, fun _ => rfl⟩
  | tail hsteps hstep ih =>
    intro hlen hlist
    have hle := Changes.readers_le hsteps
    have hle' := hstep.readers_le
    have hlist₁ := Changes.list_le hsteps (by omega)
    have hlist₂ := hstep.list_le (by omega)
    obtain ⟨hlist, hslot⟩ := ih (by omega) (by omega)
    obtain ⟨hlist', hslot'⟩ := hstep.sameSlots (by omega) (by omega)
    exact ⟨hlist'.trans hlist, fun b => (hslot' b).trans (hslot b)⟩

/-- How many registered readers a slot has. -/
def slotCount (v : EmulView γ) (slot : ℕ) : ℕ :=
  v.list.countP fun r => (v.reader r).slot = slot

theorem SameSlots.slotCount (h : v.SameSlots v') (slot : ℕ) :
    v'.slotCount slot = v.slotCount slot := by
  simp only [EmulView.slotCount, h.1, h.2]

end Saved

section Calls

open Relation in
theorem changes_initSeries (hr : r < v.readers.length) (present : Bool) (series : ℕ) :
    Changes Q v (v.initSeries r present series) := by
  have hnote := ReflTransGen.single (Change.note (Q := Q) v r present series)
  rw [initSeries]
  split_ifs
  · exact hnote
  · exact hnote.tail (.remove _ (by simpa using hr))

open Relation in
theorem changes_tokenChange (hr : r < v.readers.length)
    (hQ : Q (v.reader r).slot (v.reader r).savedVcard) (e : TokenNow γ) :
    Changes Q v (v.tokenChange r e) := by
  simp only [tokenChange]
  split_ifs with hpresent hseries hthere hthere
  · refine ((ReflTransGen.single (.remove v hr)).tail
      (.new _ (by simpa using hr) e.mirrored ?_)).tail (.note _ r true e.series)
    rwa [reader_insertCard_of EmulReader.slot fun _ => rfl,
      reader_insertCard_of EmulReader.savedVcard fun _ => rfl]
  · exact (ReflTransGen.single (.new v hr e.mirrored hQ)).tail (.note _ r true e.series)
  · exact .single (.note v r true e.series)
  · exact (ReflTransGen.single (.remove v hr)).tail (.note _ r false 0)
  · exact .single (.note v r false 0)

open Relation in
theorem changes_initSlot (hQ : ∀ slot, Q slot none) (useHw : UseHw) (slot : HwSlot γ) :
    Changes Q v (v.initSlot useHw slot) := by
  simp only [initSlot]
  split_ifs
  · exact .refl
  · exact .refl
  · have hadd := ReflTransGen.single (Change.add (Q := Q) v slot.now.slot)
    refine (hadd.tail (.new _ (by simp) slot.now.mirrored ?_)).trans
      (changes_initSeries (by simp) _ _)
    rw [reader_addReader]
    exact hQ _
  · exact .single (.add v slot.now.slot)

theorem cards_initSeries (present : Bool) (series : ℕ) :
    (v.initSeries r present series).cards = v.cards := by
  rw [initSeries]
  split_ifs <;> rfl

theorem reader_initSeries_ne (present : Bool) (series : ℕ) (hne : b ≠ r) :
    (v.initSeries r present series).reader b = v.reader b := by
  rw [initSeries]
  split_ifs
  · exact reader_setReader_ne _ hne
  · rw [reader_insertCard_ne _ hne, reader_setReader_ne _ hne]

theorem card_initSeries (hr : r < v.readers.length) (present : Bool) (series : ℕ) :
    ((v.initSeries r present series).reader r).card = none
      ∨ ((v.initSeries r present series).reader r).card = (v.reader r).card := by
  rw [initSeries]
  split_ifs
  · rw [CardProgram.reader_setReader hr]
    exact .inr rfl
  · exact .inl (card_insertCard (by simpa using hr) none)

open Relation in
theorem changes_initSoft (hv : v.Bounded) (hQ : ∀ slot, Q slot none) (o : SoftReader γ) :
    Changes Q v (v.initSoft o) := by
  rw [initSoft]
  rcases o.slot with _ | slot
  · exact .refl
  simp only
  have hadd := ReflTransGen.single (Change.add (Q := Q) v slot)
  split_ifs with hcerts
  · refine ((hadd.tail (.new _ (by simp) o.made ?_)).trans
      (changes_initSeries (by simp) o.present o.series)).tail (.save _ _ (by simp) ?_ ?_)
    · rw [reader_addReader]
      exact hQ _
    · refine (card_initSeries (by simp) o.present o.series).imp_right fun hcard => ?_
      rw [hcard, insertMade, card_insertCard (by simp)]
    · intro a ha
      obtain ⟨rfl, hlt⟩ := mem_make o.made ha
      refine ⟨by rwa [cards_initSeries], fun b hb => ?_⟩
      by_contra hne
      rw [reader_initSeries_ne _ _ hne, insertMade, reader_insertCard_ne _ hne, reader_make,
        reader_addReader_ne slot hne] at hb
      exact Nat.lt_irrefl _ (hv b _ hb)
  · exact hadd

theorem changes_initSofts (hQ : ∀ slot, Q slot none) : ∀ (os : List (SoftReader γ))
    {v : EmulView γ}, v.Bounded → Changes Q v (os.foldl initSoft v)
  | [], _, _ => .refl
  | o :: os, _, hv =>
    have ho := changes_initSoft hv hQ o
    ho.trans (changes_initSofts hQ os (ho.bounded hv))

theorem changes_initSlots (hQ : ∀ slot, Q slot none) (useHw : UseHw) :
    ∀ (slots : List (HwSlot γ)) {v : EmulView γ},
      Changes Q v (slots.foldl (fun v slot => v.initSlot useHw slot) v)
  | [], _ => .refl
  | slot :: slots, _ =>
    (changes_initSlot hQ useHw slot).trans (changes_initSlots hQ useHw slots)

end Calls

end EmulView

namespace EmulSpec

open EmulView

variable {p : EmulSpec γ} {Q : ℕ → Option ℕ → Prop}

/-- The call names readers that were made, and comes from an emulation that was set up. -/
def Proper (p : EmulSpec γ) : EmulCall γ → Prop
  | .tokenEvent _ => p.mode = some .nss
  | .forceRemove r | .forceInsert r _ _ => r < p.view.readers.length
  | .capcscNewReader => p.mode = some .pcsc
  | .capcscInsert r _ _ | .capcscRemove r => p.mode = some .pcsc ∧ r < p.view.readers.length
  | .capcscGone r => p.mode = some .pcsc ∧ r ∈ p.view.list
  | _ => True

/-- The registered readers were made. -/
def Listed (p : EmulSpec γ) : Prop := ∀ r ∈ p.view.list, r < p.view.readers.length

/-- Before NSS is set up no card is saved. -/
def NoneSaved (p : EmulSpec γ) : Prop :=
  p.mode ≠ some .nss → ∀ r, (p.view.reader r).savedVcard = none

theorem changes_init (hb : p.view.Bounded) (hnone : ∀ slot, Q slot none) (o : EmulInit γ) :
    Changes Q p.view (p.init o).2.view := by
  have hsofts := changes_initSofts hnone o.vreaders hb
  rw [init]
  split_ifs
  · exact .refl
  · exact .refl
  · exact .refl
  · exact hsofts
  · exact hsofts.trans (changes_initSlots hnone o.useHw o.slots)
  · exact .refl

theorem changes_tokenEvent (hl : p.Listed) (e : TokenNow γ) (hQ : ∀ saved, Q e.slot saved) :
    Changes Q p.view (p.view.tokenEvent e) := by
  rw [EmulView.tokenEvent]
  rcases hfind : p.view.find e.slot with _ | r
  · exact .single (.add _ e.slot)
  · have hslot : (p.view.reader r).slot = e.slot := by simpa using List.find?_some hfind
    exact changes_tokenChange (hl r (List.mem_of_find?_eq_some hfind)) (hslot ▸ hQ _) e

theorem changes_forceInsert {r : ℕ} (hr : r < p.view.readers.length) (hnone : ∀ slot, Q slot none)
    (isPresent : Bool) (mirrored : Option γ) :
    Changes Q p.view (p.view.forceInsert p.nssEmulInit r isPresent mirrored).1 := by
  rw [EmulView.forceInsert]
  rcases hsaved : (p.view.reader r).savedVcard with _ | a <;> dsimp only <;> split_ifs
  · exact .refl
  · exact .single (.new _ hr mirrored (by rw [hsaved]; exact hnone _))
  · exact .refl
  · exact .refl
  · exact .single (.saved _ hr hsaved)

/-- A call makes a few changes, or takes an event. -/
theorem changes_step (hb : p.view.Bounded) (hl : p.Listed) (hs : p.NoneSaved) {c : EmulCall γ}
    (hc : p.Proper c) (hnone : ∀ slot, Q slot none)
    (htoken : ∀ e, c = .tokenEvent e → ∀ saved, Q e.slot saved) :
    Changes Q p.view (p.step c).2.view ∨ (c = .eventNext ∧ ∃ e queue,
      p.view.queue = e :: queue ∧ (p.step c).2.view = { p.view with queue := queue }) := by
  cases c with
  | init o => exact .inl (changes_init hb hnone o)
  | tokenEvent e => exact .inl (changes_tokenEvent hl e (htoken e rfl))
  | forceRemove r =>
    refine .inl ?_
    simp only [step, EmulView.forceRemove]
    split_ifs
    · exact .refl
    · exact .single (.remove _ hc)
  | forceInsert r isPresent mirrored => exact .inl (changes_forceInsert hc hnone isPresent mirrored)
  | useCard a f => exact .inl (.single (.use _ a f))
  | eventNext =>
    rcases hqueue : p.view.queue with _ | ⟨e, queue⟩
    · exact .inl (by rw [step, hqueue])
    · exact .inr ⟨rfl, e, queue, rfl, by rw [step, hqueue]⟩
  | replay => exact .inl (.single (.replay _ _ hl))
  | capcscNewReader => exact .inl (.single (.add _ 0))
  | capcscInsert r connects x =>
    refine .inl ?_
    have hsaved := hs (by simp [hc.1]) r
    simp only [step]
    split_ifs
    · exact .single (.new _ hc.2 (some x) (by rw [hsaved]; exact hnone _))
    · exact .refl
  | capcscRemove r => exact .inl (.single (.remove _ hc.2))
  | capcscGone r => exact .inl (.single (.gone _ hc.2))
  | getReader _ | freeReader _ | getCard _ | freeCard _ | cardIsPresent _ | eventDelete _ =>
    exact .inl .refl

end EmulSpec

end Libcacard
