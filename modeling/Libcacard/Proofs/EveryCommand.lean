import Libcacard.Proofs.Build

/-!
# Every command is answered

A run of commands and resets goes through exactly as long as no `int` overflows. Then every
command is done, and its response is complete.
-/

namespace Libcacard

open Machine

variable {τ : Type} {emul : Emul τ} {card : VCard τ} {apdu : VCardAPDU}

/-- The data of a PKI applet are those of its handler. -/
theorem AppletOk.process_of_pkiData {a : VCardApplet} {p : VCardAppletPrivate} {signBuffer : Bytes}
    {key : VCardKey} (h : AppletOk a) (hp : a.appletPrivate = some p)
    (hu : p.u = .pkiData signBuffer key) : a.processApdu = .cacPki := by
  cases h with
  | pki => rfl
  | commonRead _ hu' =>
    cases hp
    rw [hu] at hu'
    exact hu'.elim nofun nofun
  | aca _ hu' | passthrough _ hu' =>
    cases hp
    rw [hu] at hu'
    cases hu'
  | gp | msft => cases hp

theorem AppletOk.process_of_ptData {a : VCardApplet} {p : VCardAppletPrivate} {label : String}
    (h : AppletOk a) (hp : a.appletPrivate = some p) (hu : p.u = .ptData label) :
    a.processApdu = .cacPassthrough := by
  cases h with
  | passthrough => rfl
  | commonRead _ hu' =>
    cases hp
    rw [hu] at hu'
    exact hu'.elim nofun nofun
  | aca _ hu' | pki _ hu' =>
    cases hp
    rw [hu] at hu'
    cases hu'
  | gp | msft => cases hp

theorem commandOverflows_iff (hok : CardOk card) :
    CommandOverflows emul card apdu ↔ ¬ (SigningFits card apdu ∧ ObjectFits emul card apdu) := by
  constructor
  · rintro ⟨i, a, p, hi, ha, hp, hover⟩ ⟨hsign, hobject⟩
    generalize a.processApdu = process at hover
    cases hover with
    | sign hu hsigns hlen =>
      have := hsign i a p _ _ hi ha hp hu hsigns
      omega
    | fetch hu hins hnull hdata hparse hover =>
      obtain ⟨h1, h2⟩ := hobject i a p _ _ _ hi ha hp hu hins hnull hdata hparse
      exact hover.elim h1 h2
  · refine not_imp_comm.1 fun hno => ⟨?_, ?_⟩
    · intro i a p signBuffer key hi ha hp hu hsigns
      have hprocess := (hok.applets a (List.mem_of_getElem? ha)).1.process_of_pkiData hp hu
      by_contra hlen
      refine hno ⟨i, a, p, hi, ha, hp, ?_⟩
      rw [hprocess]
      exact .sign hu hsigns (Nat.le_of_not_lt hlen)
    · intro i a p label data ms hi ha hp hu hins hnull hdata hparse
      have hprocess := (hok.applets a (List.mem_of_getElem? ha)).1.process_of_ptData hp hu
      refine not_or.1 fun hover => hno ⟨i, a, p, hi, ha, hp, ?_⟩
      rw [hprocess]
      exact .fetch hu hins hnull hdata hparse hover

/-- One step: it goes through, with a complete answer, unless its command overflows. -/
theorem cardStep_replied {op : CardOp} (hok : CardOk card) (hsign : op.Meets SigningFits card)
    (hobject : op.Meets (ObjectFits emul) card) :
    ∃ reply card', cardStep emul card op = .ok (reply, card') ∧ CardOk card'
      ∧ op.Replied reply := by
  cases op with
  | apdu apdu =>
    rcases vcardProcessApdu_step hok with
      ⟨r, hr, hstep, -⟩ | ⟨-, hover⟩
    · exact ⟨_, r.card, cardStep_apdu hr, hstep.cardOk hok.start, hstep.done.status,
        hstep.done.response⟩
    · exact absurd ⟨hsign apdu rfl, hobject apdu rfl⟩ ((commandOverflows_iff hok).1 hover)
  | reset power =>
    exact ⟨none, _, cardStep_reset hok power, cardOk_reset hok power, trivial⟩

/-- A step that goes through did not overflow. -/
theorem cardStep_objectFits {op : CardOp} {reply : Option CardReply} {card' : VCard τ}
    (hok : CardOk card) (h : cardStep emul card op = .ok (reply, card')) :
    op.Meets (ObjectFits emul) card := by
  rintro apdu rfl
  rcases vcardProcessApdu_step hok with ⟨r, -, -, hno⟩ | ⟨he, -⟩
  · exact (not_not.1 (mt (commandOverflows_iff hok).2 hno)).2
  · simp only [cardStep, he, error_bind, reduceCtorEq] at h

/-- A run of a card that was made answers every command, and answers it completely, as long as no
object it reads has a file whose length overflows. -/
theorem run_replied_iff {digest : Bytes → Option Bytes} {token : τ} {st : Statics}
    {certs : List (Bytes × VCardKey)} (ops : List CardOp)
    (hmade : vcardEmulMakeCard emul digest token st certs = .ok (.done, card))
    (hsign : Along (cardStep emul) (fun card op => op.Meets SigningFits card) card ops) :
    (∃ replies card', run (cardStep emul) card ops = .ok (replies, card')
        ∧ List.Forall₂ CardOp.Replied ops replies)
      ↔ Along (cardStep emul) (fun card op => op.Meets (ObjectFits emul) card) card ops := by
  have hok := (vcardEmulMakeCard_fresh hmade).cardOk
  constructor
  · rintro ⟨replies, card', hrun, -⟩
    exact run_along
      (fun _ _ _ _ hok h => ⟨cardStep_cardOk hok h, cardStep_objectFits hok h⟩) hok hrun
  · intro hobject
    have hstep : ∀ (card : VCard τ) (op : CardOp), CardOk card →
        op.Meets SigningFits card ∧ op.Meets (ObjectFits emul) card →
        ∃ reply card', cardStep emul card op = .ok (reply, card') ∧ CardOk card'
          ∧ op.Replied reply := fun card op hok hP => cardStep_replied hok hP.1 hP.2
    obtain ⟨replies, card', hrun, -, hreplied⟩ := run_total hstep hok (hsign.and hobject)
    exact ⟨replies, card', hrun, hreplied⟩

section Run

/-- SELECT of the Person Instance container on channel 0. -/
def selectPersonInstance : VCardAPDU :=
  ⟨[0x00, 0xa4, 0x04, 0x00, 0x07, 0xa0, 0x00, 0x00, 0x00, 0x79, 0x02, 0x00], ⟨7, 0, some 5⟩,
    by decide, by decide⟩

/-- READ BUFFER of its values. -/
def readValues : VCardAPDU :=
  ⟨[0x80, 0x52, 0x00, 0x00, 0x02, 0x02, 0xff], ⟨2, 0, some 5⟩, by decide, by decide⟩

/-- SELECT of the first PKI applet on channel 0. -/
def selectPki : VCardAPDU :=
  ⟨[0x00, 0xa4, 0x04, 0x00, 0x07, 0xa0, 0x00, 0x00, 0x00, 0x79, 0x01, 0x00], ⟨7, 0, some 5⟩,
    by decide, by decide⟩

/-- SIGN/DECRYPT for two bytes, more of which will come. -/
def signPart : VCardAPDU :=
  ⟨[0x80, 0x42, 0x80, 0x00, 0x02, 0x01, 0x02], ⟨2, 0, some 5⟩, by decide, by decide⟩

/-- SIGN/DECRYPT for the last byte. -/
def signLast : VCardAPDU :=
  ⟨[0x80, 0x42, 0x00, 0x00, 0x01, 0x03], ⟨1, 0, some 5⟩, by decide, by decide⟩

/-- A card was made, and passes a check. -/
def madeWith (check : VCard τ → Bool) (x : Except Fault (VCardStatus × VCard τ)) : Bool :=
  match x with
  | .ok (.done, card) => check card
  | _ => false

theorem exists_of_madeWith {check : VCard τ → Bool} {x : Except Fault (VCardStatus × VCard τ)}
    (h : madeWith check x) : ∃ card, x = .ok (.done, card) ∧ check card := by
  unfold madeWith at h
  split at h
  · exact ⟨_, rfl, h⟩
  · simp at h

/-- The applet at place `i` is found by this AID, and is a passthrough applet. -/
def hasPassthrough (aid : Bytes) (i : ℕ) (card : VCard τ) : Bool :=
  vcardFindApplet card.applets aid = some i
    ∧ card.applets[i]?.any fun a => a.processApdu = .cacPassthrough

theorem exists_of_hasPassthrough {aid : Bytes} {i : ℕ} (hok : CardOk card)
    (h : hasPassthrough aid i card) : vcardFindApplet card.applets aid = some i
      ∧ ∃ p label, p.u = .ptData label
        ∧ card.applets[i]? = some ⟨.cacPassthrough, some .passthrough, aid, some p⟩ := by
  simp only [hasPassthrough, Bool.decide_and, Bool.and_eq_true, decide_eq_true_eq] at h
  obtain ⟨hfind, hpt⟩ := h
  obtain ⟨a, ha, haid⟩ := vcardFindApplet_eq_some hfind
  rw [ha, Option.any_some, decide_eq_true_eq] at hpt
  refine ⟨hfind, ?_⟩
  have haok := (hok.applets a (List.mem_of_getElem? ha)).1
  cases haok with
  | passthrough _ hu =>
    obtain rfl := haid
    exact ⟨_, _, hu, ha⟩
  | commonRead | pki | aca | gp | msft => cases hpt

/-- A card without certificates, and the same card after the container was selected. -/
theorem exists_selected (emul : Emul Unit) (h : madeWith (hasPassthrough cacPersonInstanceAid 8)
    (vcardEmulMakeCard emul (fun _ => none) () .initial [])) :
    ∃ card p label r, vcardEmulMakeCard emul (fun _ => none) () .initial [] = .ok (.done, card)
      ∧ vcardFindApplet card.applets cacPersonInstanceAid = some 8 ∧ p.u = .ptData label
      ∧ card.applets[8]?
        = some ⟨.cacPassthrough, some .passthrough, cacPersonInstanceAid, some p⟩
      ∧ vcardProcessApdu emul card selectPersonInstance = .ok r ∧ CardOk r.card
      ∧ r.card.currentApplet readValues.channel = some 8
      ∧ r.card.applets[8]? = some ⟨.cacPassthrough, some .passthrough, cacPersonInstanceAid,
        some (cacAppletPassthroughReset p)⟩ := by
  obtain ⟨card, hmade, hcheck⟩ := exists_of_madeWith h
  have hok := (vcardEmulMakeCard_fresh hmade).cardOk
  obtain ⟨hfind, p, label, hu, ha⟩ := exists_of_hasPassthrough hok hcheck
  obtain ⟨r, s, hr, -⟩ := vcardProcessApdu_select hok
    (show selectPersonInstance.Selects cacPersonInstanceAid by decide) hfind ha
  refine ⟨card, p, label, _, hmade, hfind, hu, ha, hr, cardStep_cardOk hok (cardStep_apdu hr), ?_,
    List.getElem?_set_self (List.getElem?_eq_some_iff.1 ha).1⟩
  change Function.update card.currentApplet selectPersonInstance.channel (some 8)
    readValues.channel = some 8
  rw [show readValues.channel = selectPersonInstance.channel by decide, Function.update_self]

theorem not_signs_selectPersonInstance : ¬ selectPersonInstance.Signs := by decide

theorem not_signs_readValues : ¬ readValues.Signs := by decide

theorem meets_signingFits_of_not_signs (h : ¬ apdu.Signs) :
    (CardOp.apdu apdu).Meets SigningFits card := by
  rintro _ ⟨⟩ i a p signBuffer key - - - - hsigns
  exact absurd hsigns h

/-- An input is signed in two parts, and an object is read. -/
def signAndRead : List CardOp :=
  [.apdu selectPki, .apdu signPart, .apdu signLast, .apdu selectPersonInstance, .apdu readValues]

/-- A token whose objects have one record. -/
def oneRecord : Emul Unit :=
  Emul.plain (some [0x01, 0x02, 0x07, 0x08]) fun _ h => Option.some.inj h ▸ by decide

theorem run_replied_signAndRead : ∃ card replies card',
    vcardEmulMakeCard oneRecord (fun _ => none) () .initial [([1, 2, 3], 0)] = .ok (.done, card)
      ∧ run (cardStep oneRecord) card signAndRead = .ok (replies, card')
      ∧ List.Forall₂ CardOp.Replied signAndRead replies := by
  obtain ⟨card, hmade, hcheck⟩ := exists_of_madeWith (show madeWith
    (fun card => Along (cardStep oneRecord) (fun card op => op.Meets SigningFits card) card
        signAndRead
      ∧ Along (cardStep oneRecord) (fun card op => op.Meets (ObjectFits oneRecord) card) card
        signAndRead)
    (vcardEmulMakeCard oneRecord (fun _ => none) () .initial [([1, 2, 3], 0)]) by decide +kernel)
  obtain ⟨hsign, hobject⟩ := of_decide_eq_true hcheck
  obtain ⟨replies, card', hrun, hreplied⟩ := (run_replied_iff signAndRead hmade hsign).2 hobject
  exact ⟨card, replies, card', hmade, hrun, hreplied⟩

/-- `n` records, all with one tag and value. -/
def sameRecords (n : ℕ) (tag : UInt8) (v : Bytes) : Bytes :=
  (List.replicate n (tag :: 0xff :: (ushort2lebytes v.length ++ v))).flatten

theorem simpletlvParse_sameRecords (n : ℕ) (tag : UInt8) {v : Bytes} (hv : v.length < 65536) :
    simpletlvParse (sameRecords n tag v) = .ok (List.replicate n (.leaf tag v)) := by
  have hrecords : List.Forall₂ RawRecord
      (List.replicate n (tag :: 0xff :: (ushort2lebytes v.length ++ v)))
      (List.replicate n (.leaf tag v)) := by
    induction n with
    | zero => exact .nil
    | succ n ih => exact .cons (.long tag v hv) ih
  have h := simpletlvParse_flatten hrecords (show Incomplete [] from trivial)
  rwa [List.append_nil] at h

theorem length_sameRecords (n : ℕ) (tag : UInt8) (v : Bytes) :
    (sameRecords n tag v).length = n * (v.length + 4) := by
  simp [sameRecords, length_ushort2lebytes, Nat.add_comm, Nat.add_left_comm]

theorem length_half_replicate (ty : SimpletlvBufferType) (n : ℕ) (m : SimpletlvMember) :
    (half ty (List.replicate n m)).length = n * (halfRecord ty m).length := by
  simp [half, List.length_flatMap]

/-- An object whose values have 2 ^ 31 - 2 bytes. -/
def largeObject : Bytes := sameRecords 32769 0x01 (List.replicate 65534 0x00)

theorem length_largeObject : largeObject.length < 2 ^ 32 := by
  rw [largeObject, length_sameRecords, List.length_replicate]
  decide

theorem fileOverflows_largeObject :
    FileOverflows .value (List.replicate 32769 (.leaf 0x01 (List.replicate 65534 0x00))) := by
  have hvalue : halfRecord .value (.leaf 0x01 (List.replicate 65534 0x00))
      = List.replicate 65534 0x00 := rfl
  unfold FileOverflows
  rw [length_half_replicate, hvalue, List.length_replicate]
  decide

def largeObjectToken : Emul Unit :=
  Emul.plain (some largeObject) fun _ h => Option.some.inj h ▸ length_largeObject

/-- A card without certificates cannot make the container's files of this object. -/
theorem run_largeObject_overflow : ∃ card,
    vcardEmulMakeCard largeObjectToken (fun _ => none) () .initial [] = .ok (.done, card)
      ∧ Along (cardStep largeObjectToken) (fun card op => op.Meets SigningFits card) card
        [.apdu selectPersonInstance, .apdu readValues]
      ∧ ¬ ∃ replies card', run (cardStep largeObjectToken) card
          [.apdu selectPersonInstance, .apdu readValues] = .ok (replies, card')
        ∧ List.Forall₂ CardOp.Replied [.apdu selectPersonInstance, .apdu readValues] replies := by
  obtain ⟨card, p, label, r, hmade, -, hu, -, hr, hok, hi, ha⟩ := exists_selected
    largeObjectToken (by decide +kernel)
  refine ⟨card, hmade, ⟨meets_signingFits_of_not_signs not_signs_selectPersonInstance, fun _ _ _ =>
    ⟨meets_signingFits_of_not_signs not_signs_readValues, fun _ _ _ => trivial⟩⟩, ?_⟩
  rintro ⟨replies, card', hrun, -⟩
  obtain ⟨o, card₁, os, hstep, hrun, -⟩ := run_cons_eq_ok.1 hrun
  obtain ⟨-, rfl⟩ := Prod.mk.inj (Except.ok.inj (hstep.symm.trans (cardStep_apdu hr)))
  obtain ⟨o, card₂, os, hstep₂, -, -⟩ := run_cons_eq_ok.1 hrun
  exact (cardStep_objectFits hok hstep₂ readValues rfl 8 _ (cacAppletPassthroughReset p) label
    largeObject _ hi ha rfl hu rfl (.inl rfl) rfl
    (simpletlvParse_sameRecords 32769 0x01 (by rw [List.length_replicate]; decide))).2
    fileOverflows_largeObject

end Run

end Libcacard
