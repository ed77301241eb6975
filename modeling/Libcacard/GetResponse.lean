import Libcacard.CardStep

/-!
# Delivering a payload in parts

What a sequence of GET RESPONSE commands is answered with, by the lengths they ask for.
-/

namespace Libcacard

open Machine

variable {τ : Type}

/-- GET RESPONSE as the ISO layer takes it. -/
def VCardAPDU.GetsResponse (apdu : VCardAPDU) : Prop := apdu.IsIso ∧ apdu.aIns = Ins.getResponse

instance (apdu : VCardAPDU) : Decidable apdu.GetsResponse := inferInstanceAs (Decidable (_ ∧ _))

/-- What is pending on a card. -/
def VCard.pending (card : VCard τ) : Option Bytes :=
  card.bufferResponse.map VCardBufferResponse.remaining

/-- The card has the same applets, and the same of them are current. -/
def VCard.SameApplets (card card' : VCard τ) : Prop :=
  card'.applets = card.applets ∧ card'.currentApplet = card.currentApplet

/-- The data of a response, without its status. -/
def VCardResponse.data (r : VCardResponse) : Bytes := r.bData.take r.bLen

/-- The status of a part behind which `left` bytes are left. -/
def partStatus (left : ℕ) : UInt16 :=
  if left = 0 then Status.success
  else (0x61 : UInt8).toUInt16 <<< 8 ||| (UInt8.ofNat (min 256 left)).toUInt16

/-- The answers, from what is pending on. -/
def getResponses : Option Bytes → List ℕ → List VCardResponse
  | _, [] => []
  | none, _ :: Les => vcardMakeResponse Status.errorDataNotFound :: getResponses none Les
  | some rest, Le :: Les =>
    dataResponse (rest.take Le) (partStatus (rest.length - Le))
      :: getResponses (if rest.length ≤ Le then none else some (rest.drop Le)) Les

end Libcacard
