import Libcacard.Proofs.EveryCommand
import Libcacard.Proofs.Frame

/-!
# The object of a passthrough applet

The first READ BUFFER after the applet was selected makes its two files of the token's object.
They are a pair that gives the object's members back exactly when both can be written, and then
the object is not read again.
-/

namespace Libcacard

open Machine

variable {τ : Type} {emul : Emul τ} {card : VCard τ} {apdu : VCardAPDU} {aid : Bytes} {i : ℕ}

/-- Neither a reset nor a SELECT of this applet. -/
def CardOp.Leaves (aid : Bytes) : CardOp → Prop
  | .apdu a => ¬ a.Selects aid
  | .reset _ => False

/-- READ BUFFER to applet `i`. -/
def ReadsBuffer (i : ℕ) (card : VCard τ) (apdu : VCardAPDU) : Prop :=
  apdu.aIns = Ins.cacReadBuffer ∧ card.currentApplet apdu.channel = some i

/-- Until applet `i` is selected again or the card is reset, no command to it reads an object. -/
def KeepsObject (emul : Emul τ) (card : VCard τ) (i : ℕ) (aid : Bytes) : Prop :=
  ∀ ops replies card' apdu r, Along (cardStep emul) (fun _ op => op.Leaves aid) card ops →
    run (cardStep emul) card ops = .ok (replies, card') →
    card'.currentApplet apdu.channel = some i → vcardProcessApdu emul card' apdu = .ok r →
    ∀ label, .readObject label ∉ r.card.calls

/-- READ BUFFER leaves applet `i` with the two files of the members of `data`, for good. -/
def ExposesObject (emul : Emul τ) (card : VCard τ) (i : ℕ) (aid data : Bytes)
    (apdu : VCardAPDU) : Prop :=
  ∃ r a p ms, vcardProcessApdu emul card apdu = .ok r ∧ r.card.applets[i]? = some a
    ∧ a.appletPrivate = some p ∧ simpletlvParse data = .ok ms
    ∧ FilesOf ms p.tagBuffer p.valBuffer ∧ KeepsObject emul r.card i aid

section Between

/-- Applet `i` stays as it is over a run that neither selects it nor makes it do anything. -/
theorem run_applet_at {a : VCardApplet} {ops : List CardOp} {replies : List (Option CardReply)}
    {card' : VCard τ} {P : VCard τ → CardOp → Prop}
    (hP : ∀ card op, P card op → op.Leaves a.aid)
    (hstill : ∀ (card : VCard τ) apdu p p' s', P card (.apdu apdu) →
      card.currentApplet apdu.channel = some i → a.appletPrivate = some p →
      ¬ Handling emul apdu p (card.start apdu).toSession a.processApdu p' s')
    (hok : CardOk card) (ha : card.applets[i]? = some a)
    (halong : Along (cardStep emul) P card ops)
    (hrun : run (cardStep emul) card ops = .ok (replies, card')) :
    CardOk card' ∧ card'.applets[i]? = some a := by
  refine run_invariant (I := fun card => CardOk card ∧ card.applets[i]? = some a)
    (fun card op reply card' hinv hPop hstep => ⟨cardStep_cardOk hinv.1 hstep, ?_⟩)
    ⟨hok, ha⟩ halong hrun
  rcases cardStep_eq_ok hinv.1 hstep with ⟨apdu, r, rfl, -, h, rfl, rfl⟩ | ⟨power, rfl, -, -⟩
  · rcases h.applet_at (i := i) hinv.2 (hP _ _ hPop) with h | ⟨p, p', s', hi, hp, h, -⟩
    · exact h
    · exact absurd h (hstill card apdu p p' s' hPop hi hp)
  · exact (hP _ _ hPop).elim

/-- Once both files are there, they stay and no object is read. -/
theorem keepsObject_of_files {p : VCardAppletPrivate} (hok : CardOk card)
    (ha : card.applets[i]? = some ⟨.cacPassthrough, some .passthrough, aid, some p⟩)
    (htag : p.tagBuffer ≠ none) (hval : p.valBuffer ≠ none) : KeepsObject emul card i aid := by
  have hstill : ∀ (apdu : VCardAPDU) (s : Session τ) q p' s', some p = some q →
      ¬ Handling emul apdu q s .cacPassthrough p' s' := by
    rintro apdu s q p' s' ⟨⟩ h
    cases h with
    | fetch _ _ hnull _ => exact hnull.elim htag hval
  intro ops replies card' apdu r halong hrun hi hr label hcall
  obtain ⟨hok', ha'⟩ := run_applet_at (fun _ _ h => h)
    (fun card apdu q p' s' _ _ hq => hstill apdu _ q p' s' hq) hok ha halong hrun
  rcases vcardProcessApdu_step hok' with ⟨r', hr', h, -⟩ | ⟨he, -⟩
  · obtain rfl := Except.ok.inj (hr.symm.trans hr')
    rcases h.mem_calls rfl hcall with ⟨_, _, h⟩ | ⟨_, _, h⟩ | ⟨j, a, q, p', s', hj, ha, hq, h, -⟩
    · cases h
    · cases h
    · obtain rfl : i = j := Option.some.inj (hi.symm.trans hj)
      obtain rfl := Option.some.inj (ha'.symm.trans ha)
      exact hstill apdu _ q p' s' hq h
  · rw [he] at hr
    cases hr

end Between

section Read

variable {p : VCardAppletPrivate} {label : String}

/-- A READ BUFFER that reads the object. -/
theorem vcardProcessApdu_fetch {tagBuffer valBuffer : Option Bytes}
    (ha : card.applets[i]? = some ⟨.cacPassthrough, some .passthrough, aid, some p⟩)
    (hu : p.u = .ptData label) (hread : ReadsBuffer i card apdu)
    (hnull : p.tagBuffer = none ∨ p.valBuffer = none)
    (hfiles : passthroughFiles (emul.readObject card.token label).1 = .ok (tagBuffer, valBuffer)) :
    ∃ r s, vcardProcessApdu emul card apdu = .ok (.answer
      { card.start apdu with
        toSession := s
        applets := card.applets.set i ⟨.cacPassthrough, some .passthrough, aid,
          some { p with tagBuffer := tagBuffer, valBuffer := valBuffer }⟩ } r) := by
  obtain ⟨⟨r, s⟩, hr, -⟩ := passthroughProcessApdu_fetch
    card.statics.cccBufferProperties (s := (card.start apdu).toSession) hu hread.1 hnull hfiles
  have hrun : VCardProcessAPDU.cacPassthrough.run emul card.statics (some p)
      (card.start apdu).toSession apdu = .ok (.answer
        { p with tagBuffer := tagBuffer, valBuffer := valBuffer } (r, s), card.statics) := by
    simp only [VCardProcessAPDU.run, assertPrivate, ok_bind, hr, pure_eq]
  exact ⟨r, s, vcardProcessApdu_of_run hread.2 ha hrun⟩

/-- Which objects a READ BUFFER exposes that finds no files. -/
theorem exposesObject_iff {data : Bytes} {ms : List SimpletlvMember} (hok : CardOk card)
    (ha : card.applets[i]? = some ⟨.cacPassthrough, some .passthrough, aid, some p⟩)
    (hu : p.u = .ptData label) (hread : ReadsBuffer i card apdu)
    (hnull : p.tagBuffer = none ∨ p.valBuffer = none)
    (hdata : (emul.readObject card.token label).1 = some data)
    (hparse : simpletlvParse data = .ok ms) :
    ExposesObject emul card i aid data apdu ↔ FilesFit ms := by
  obtain ⟨ms', hparse', hparsed, -⟩ := exists_parsed data
  obtain rfl := Except.ok.inj (hparse'.symm.trans hparse)
  have hfiles := passthroughFiles_eq (emul.readObject_length _ _ _ hdata) hparse
  rw [← hdata] at hfiles
  have hlt := (List.getElem?_eq_some_iff.1 ha).1
  constructor
  · rintro ⟨r, a, q, ms, hr, ha', hq, hms, hof, -⟩
    obtain rfl := Except.ok.inj (hparse.symm.trans hms)
    rcases vcardProcessApdu_step hok with ⟨-, -, -, hno⟩ | ⟨he, -⟩
    · have hover : ¬ (FileOverflows .tl ms' ∨ FileOverflows .value ms') := fun hover =>
        hno ⟨i, _, p, hread.2, ha, rfl, .fetch hu hread.1 hnull hdata hparse hover⟩
      rw [if_neg hover] at hfiles
      obtain ⟨resp, s, hprocess⟩ := vcardProcessApdu_fetch ha hu hread hnull hfiles
      obtain rfl := Except.ok.inj (hr.symm.trans hprocess)
      obtain rfl := Option.some.inj ((List.getElem?_set_self hlt).symm.trans ha')
      obtain rfl := Option.some.inj hq
      exact (filesOf_iff hparsed).1 hof
    · rw [he] at hr
      cases hr
  · intro hfit
    have hover : ¬ (FileOverflows .tl ms' ∨ FileOverflows .value ms') := by
      rintro (h | h)
      · exact absurd h.1 (Nat.not_le.2 (Nat.lt_of_le_of_lt hfit.length_tl (by decide)))
      · exact absurd h.1 (Nat.not_le.2 (Nat.lt_of_le_of_lt hfit.length_value (by decide)))
    rw [if_neg hover] at hfiles
    obtain ⟨resp, s, hprocess⟩ := vcardProcessApdu_fetch ha hu hread hnull hfiles
    have hof := (filesOf_iff hparsed).2 hfit
    obtain ⟨t, htag, -⟩ := hof.tag
    obtain ⟨v, hval, -⟩ := hof.val
    refine ⟨_, _, _, ms', hprocess, List.getElem?_set_self hlt, rfl, hparse, hof, ?_⟩
    refine keepsObject_of_files (cardStep_cardOk hok (cardStep_apdu hprocess))
      (List.getElem?_set_self hlt) ?_ ?_
    · simp [htag]
    · simp [hval]

end Read

/-- The first READ BUFFER after a SELECT of a passthrough applet exposes the token's object
exactly when its members fit in two files. -/
theorem passthrough_exposes_iff {digest : Bytes → Option Bytes} {select read : VCardAPDU}
    {p : VCardAppletPrivate} {label : String} {r : Processed τ} {ops : List CardOp}
    {replies : List (Option CardReply)} {card₁ : VCard τ} {data : Bytes}
    (hreach : Reachable emul digest card) (hfind : vcardFindApplet card.applets aid = some i)
    (ha : card.applets[i]? = some ⟨.cacPassthrough, some .passthrough, aid, some p⟩)
    (hu : p.u = .ptData label) (hselects : select.Selects aid)
    (hr : vcardProcessApdu emul card select = .ok r)
    (halong : Along (cardStep emul) (fun card op => op.Leaves aid
      ∧ op.Meets (fun card apdu => ¬ ReadsBuffer i card apdu) card) r.card ops)
    (hrun : run (cardStep emul) r.card ops = .ok (replies, card₁))
    (hread : ReadsBuffer i card₁ read)
    (hdata : (emul.readObject card₁.token label).1 = some data) :
    ExposesObject emul card₁ i aid data read ↔ ∃ ms, simpletlvParse data = .ok ms ∧ FilesFit ms := by
  have hok := hreach.cardOk
  obtain ⟨resp, s, hprocess, -⟩ := vcardProcessApdu_select hok hselects hfind ha
  obtain rfl := Except.ok.inj (hr.symm.trans hprocess)
  obtain ⟨hok₁, ha₁⟩ := run_applet_at (i := i)
    (a := ⟨.cacPassthrough, some .passthrough, aid, some (cacAppletPassthroughReset p)⟩)
    (fun _ _ h => h.1)
    (fun card apdu q p' s' hP hi _ h => by
      cases h with
      | fetch _ hins _ _ => exact hP.2 apdu rfl ⟨hins, hi⟩)
    (cardStep_cardOk hok (cardStep_apdu hprocess))
    (List.getElem?_set_self (List.getElem?_eq_some_iff.1 ha).1) halong hrun
  obtain ⟨ms, hparse, -⟩ := exists_parsed data
  rw [exposesObject_iff hok₁ ha₁ hu hread (.inl rfl) hdata hparse]
  constructor
  · exact fun h => ⟨ms, hparse, h⟩
  · rintro ⟨ms', hparse', h⟩
    obtain rfl := Except.ok.inj (hparse.symm.trans hparse')
    exact h

/-- A token with this object. -/
def smallToken (object : Bytes) (h : object.length < 2 ^ 32) : Emul Unit :=
  Emul.plain (some object) fun _ hb => Option.some.inj hb ▸ h

theorem passthrough_exposes_twoBytes : ∃ card r,
    vcardEmulMakeCard (smallToken [0x01, 0x02, 0x07, 0x07] (by decide)) (fun _ => none) ()
        .initial [] = .ok (.done, card)
      ∧ vcardProcessApdu (smallToken [0x01, 0x02, 0x07, 0x07] (by decide)) card
        selectPersonInstance = .ok r
      ∧ (ExposesObject (smallToken [0x01, 0x02, 0x07, 0x07] (by decide)) r.card 8
          cacPersonInstanceAid [0x01, 0x02, 0x07, 0x07] readValues
        ↔ ∃ ms, simpletlvParse [0x01, 0x02, 0x07, 0x07] = .ok ms ∧ FilesFit ms) := by
  obtain ⟨card, p, label, r, hmade, hfind, hu, ha, hr, -, hi, -⟩ := exists_selected
    (smallToken [0x01, 0x02, 0x07, 0x07] (by decide)) (by decide +kernel)
  exact ⟨card, r, hmade, hr, passthrough_exposes_iff (.made hmade) hfind ha hu (by decide) hr
    (show Along _ _ r.card [] from trivial) rfl ⟨rfl, hi⟩ rfl⟩

/-- The one member of this object has an empty value, and no file is made of the values. -/
theorem passthrough_emptyValue : ∃ card r,
    vcardEmulMakeCard (smallToken [0x01, 0x00] (by decide)) (fun _ => none) () .initial []
        = .ok (.done, card)
      ∧ vcardProcessApdu (smallToken [0x01, 0x00] (by decide)) card selectPersonInstance = .ok r
      ∧ ReadsBuffer 8 r.card readValues
      ∧ ¬ ExposesObject (smallToken [0x01, 0x00] (by decide)) r.card 8 cacPersonInstanceAid
        [0x01, 0x00] readValues := by
  obtain ⟨card, p, label, r, hmade, -, hu, -, hr, hok, hi, ha⟩ := exists_selected
    (smallToken [0x01, 0x00] (by decide)) (by decide +kernel)
  have hparse : simpletlvParse [0x01, 0x00] = .ok [.leaf 0x01 []] :=
    simpletlvParse_flatten (.cons (.short 0x01 [] (by decide)) .nil) trivial
  refine ⟨card, r, hmade, hr, ⟨rfl, hi⟩, fun h => ?_⟩
  have hfit := (exposesObject_iff hok ha hu ⟨rfl, hi⟩ (.inl rfl) rfl hparse).1 h
  exact absurd hfit.value_pos (by decide)

end Libcacard
