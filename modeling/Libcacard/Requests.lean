import Libcacard.Transfer

/-!
# Asking for properties

What GET PROPERTIES has to return for a list of tags, and how a command that asked for too much is
repeated.
-/

namespace Libcacard

open Machine

variable {τ : Type}

/-- The first member with each of the tags, in the order of the tags. -/
def requested (properties : List SimpletlvMember) (tags : Bytes) : List SimpletlvMember :=
  tags.filterMap fun t => properties.find? fun m => m.tag = t

/-- Every tag is that of a member. -/
def AllFound (properties : List SimpletlvMember) (tags : Bytes) : Prop :=
  ∀ t ∈ tags, ∃ m ∈ properties, m.tag = t

instance (properties : List SimpletlvMember) (tags : Bytes) :
    Decidable (AllFound properties tags) :=
  decidable_of_iff (tags.all fun t => properties.any fun m => m.tag = t) (by simp [AllFound])

/-- What a GET PROPERTIES asks an applet for is encoded to `payload`. -/
def VCardAPDU.AsksPayload (apdu : VCardAPDU) (shared : ByteArr 5) (p : VCardAppletPrivate)
    (payload : Bytes) : Prop :=
  apdu.aP2 = 0x00 ∧ ∃ n tags cp, apdu.AsksTags p n tags
    ∧ askedProperties (p.properties.tlv shared) n tags = some cp ∧ serialise cp = payload

/-- The same command with `hint` for its Le. -/
structure VCardAPDU.Repeats (again apdu : VCardAPDU) (hint : UInt8) : Prop where
  aCla_eq : again.aCla = apdu.aCla
  aIns_eq : again.aIns = apdu.aIns
  aP1_eq : again.aP1 = apdu.aP1
  aP2_eq : again.aP2 = apdu.aP2
  body_eq : again.body = apdu.body
  aLe_eq : again.aLe = if hint = 0 then 256 else hint.toNat

/-- When the command is answered `6C xx`, it can be repeated with `xx` for its Le, and is then
answered by all that it asks for and `9000`. -/
def LengthHintUsable (emul : Emul τ) (card : VCard τ) (p : VCardAppletPrivate)
    (apdu : VCardAPDU) : Prop :=
  ∀ r hint, vcardProcessApdu emul card apdu = .ok r →
    r.response = some (vcardResponseNewStatusBytes 0x6c hint) →
    ∃ payload, apdu.AsksPayload card.statics.cccBufferProperties p payload
      ∧ (∃ again : VCardAPDU, again.Repeats apdu hint)
      ∧ ∀ again : VCardAPDU, again.Repeats apdu hint →
        ∃ r', vcardProcessApdu emul r.card again = .ok r'
          ∧ r'.response = some (dataResponse payload Status.success)

end Libcacard
