import Libcacard.Card7816
import Libcacard.CardStep
import Libcacard.Lib.Run

/-!
# Runs of a card

A card is made from certificates and then processes commands and is reset, in any order. Several
cards of one program share its static variables, so between two steps of one card another may
have changed them.
-/

namespace Libcacard

open Machine

variable {τ : Type}

/-- `vcard_emul_make_card` for a reader of CAC cards; `digest` is `vcard_emul_create_serial`'s hash
of the first certificate, if it can be computed. -/
def vcardEmulMakeCard (emul : Emul τ) (digest : Bytes → Option Bytes) (token : τ) (st : Statics)
    (certs : List (Bytes × VCardKey)) : Except Fault (VCardStatus × VCard τ) :=
  let card := vcardNew token st
  let card := match certs with
    | [] => card
    | (cert, _) :: _ =>
      match digest cert with
      | some serial => vcardSetSerial card serial
      | none => card
  vcardInit emul card .cac certs

inductive CardOp
  | apdu (apdu : VCardAPDU)
  | reset (power : VCardPower)

/-- What a step gives the reader: what a command left, or nothing. -/
structure CardReply where
  status : VCardStatus
  response : Option VCardResponse
  deriving DecidableEq, Repr

def cardStep (emul : Emul τ) (card : VCard τ) :
    CardOp → Except Fault (Option CardReply × VCard τ)
  | .apdu apdu => do
    let r ← vcardProcessApdu emul card apdu
    return (some ⟨r.status, r.response⟩, r.card)
  | .reset power => do return (none, ← vcardReset emul card power)

/-- The cards of a program, in any state they can get to. -/
inductive Reachable (emul : Emul τ) (digest : Bytes → Option Bytes) : VCard τ → Prop
  | made {token : τ} {st : Statics} {certs : List (Bytes × VCardKey)} {card : VCard τ}
    (h : vcardEmulMakeCard emul digest token st certs = .ok (.done, card)) :
    Reachable emul digest card
  | step {card card' : VCard τ} {op : CardOp} {reply : Option CardReply}
    (h : Reachable emul digest card) (hstep : cardStep emul card op = .ok (reply, card')) :
    Reachable emul digest card'
  | other {card : VCard τ} (h : Reachable emul digest card) (st : Statics) :
    Reachable emul digest { card with statics := st }

/-- A command got a complete answer. -/
def CardOp.Replied : CardOp → Option CardReply → Prop
  | .apdu a, some r =>
    r.status = .done ∧ ∃ response, r.response = some response ∧ response.Complete a.aLe
  | .reset _, none => True
  | .apdu _, none | .reset _, some _ => False

/-- A step meets a condition on commands; a reset always does. -/
def CardOp.Meets (P : VCard τ → VCardAPDU → Prop) (card : VCard τ) (op : CardOp) : Prop :=
  ∀ apdu, op = .apdu apdu → P card apdu

/-- The input a PKI applet has got stays below 2 ^ 31 bytes. -/
def SigningFits (card : VCard τ) (apdu : VCardAPDU) : Prop :=
  ∀ i a p signBuffer key, card.currentApplet apdu.channel = some i → card.applets[i]? = some a →
    a.appletPrivate = some p → p.u = .pkiData signBuffer key → apdu.Signs →
    signBuffer.length + apdu.aLc < 2 ^ 31

theorem signingFits_iff {card : VCard τ} {apdu : VCardAPDU} :
    (∀ i ∈ card.currentApplet apdu.channel, ∀ a ∈ card.applets[i]?, ∀ p ∈ a.appletPrivate,
      ∀ d ∈ (pkiData p.u).toOption, apdu.Signs → d.1.length + apdu.aLc < 2 ^ 31)
      ↔ SigningFits card apdu := by
  constructor
  · intro h i a p signBuffer key hi ha hp hu
    exact h i hi a ha p hp (signBuffer, key) (by rw [hu]; rfl)
  · intro h i hi a ha p hp d hd
    rcases hu : p.u <;> rw [hu] at hd <;> cases hd
    exact h i a p _ _ hi ha hp hu

instance SigningFits.decidable (card : VCard τ) (apdu : VCardAPDU) :
    Decidable (SigningFits card apdu) := decidable_of_iff _ signingFits_iff

/-- If the command makes a passthrough applet read its object, the length of neither of the
object's files overflows. -/
def ObjectFits (emul : Emul τ) (card : VCard τ) (apdu : VCardAPDU) : Prop :=
  ∀ i a p label data ms, card.currentApplet apdu.channel = some i → card.applets[i]? = some a →
    a.appletPrivate = some p → p.u = .ptData label → apdu.aIns = Ins.cacReadBuffer →
    (p.tagBuffer = none ∨ p.valBuffer = none) →
    (emul.readObject card.token label).1 = some data → simpletlvParse data = .ok ms →
    ¬ FileOverflows .tl ms ∧ ¬ FileOverflows .value ms

/-- The length of neither file of an object overflows. -/
def ObjectFilesFit (object : Option Bytes) : Prop :=
  ∀ data ∈ object, ∀ ms ∈ (simpletlvParse data).toOption,
    ¬ FileOverflows .tl ms ∧ ¬ FileOverflows .value ms

instance (object : Option Bytes) : Decidable (ObjectFilesFit object) :=
  inferInstanceAs (Decidable (∀ data ∈ object, ∀ ms ∈ (simpletlvParse data).toOption,
    ¬ FileOverflows .tl ms ∧ ¬ FileOverflows .value ms))

theorem objectFits_iff {emul : Emul τ} {card : VCard τ} {apdu : VCardAPDU} :
    (∀ i ∈ card.currentApplet apdu.channel, ∀ a ∈ card.applets[i]?, ∀ p ∈ a.appletPrivate,
      ∀ label ∈ (ptData p.u).toOption, apdu.aIns = Ins.cacReadBuffer →
      (p.tagBuffer = none ∨ p.valBuffer = none) →
      ObjectFilesFit (emul.readObject card.token label).1) ↔ ObjectFits emul card apdu := by
  constructor
  · intro h i a p label data ms hi ha hp hu hins hnull hdata hparse
    exact h i hi a ha p hp label (by rw [hu]; rfl) hins hnull data hdata ms (by rw [hparse]; rfl)
  · intro h i hi a ha p hp label hlabel hins hnull data hdata ms hms
    rcases hu : p.u <;> rw [hu] at hlabel <;> cases hlabel
    rcases hparse : simpletlvParse data with e | ms' <;> rw [hparse] at hms <;> cases hms
    exact h i a p _ data ms hi ha hp hu hins hnull hdata hparse

instance ObjectFits.decidable (emul : Emul τ) (card : VCard τ) (apdu : VCardAPDU) :
    Decidable (ObjectFits emul card apdu) := decidable_of_iff _ objectFits_iff

instance CardOp.Meets.decidable {P : VCard τ → VCardAPDU → Prop}
    [∀ card apdu, Decidable (P card apdu)] (card : VCard τ) :
    ∀ op : CardOp, Decidable (op.Meets P card)
  | .apdu a => decidable_of_iff (P card a)
    ⟨fun h _ heq => by cases heq; exact h, fun h => h a rfl⟩
  | .reset _ => .isTrue fun _ heq => by cases heq

end Libcacard
