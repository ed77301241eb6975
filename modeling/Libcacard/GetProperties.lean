import Libcacard.AcaFormats
import Libcacard.Channels
import Libcacard.Program

/-!
# What GET PROPERTIES says of the files

The properties of an applet with one object have the lengths of its two files in them. A PKI
applet has them in its own copy, and all the CCC applets of a program in one static list.
-/

namespace Libcacard

open Machine

variable {τ : Type}

/-- The value of the first record with this tag. -/
def valueOf (tag : UInt8) (bs : Bytes) : Option Bytes :=
  (simpletlvParse bs).toOption.bind fun ms => ms.findSome? (readLeaf tag some)

/-- The lengths of the tag file and of the value file, behind the type of tag. -/
def readLengths : Bytes → Option (ℕ × ℕ)
  | [_, tagLo, tagHi, valLo, valHi] =>
    some (lebytes2ushort tagLo tagHi, lebytes2ushort valLo valHi)
  | _ => none

/-- The lengths in the buffer properties of an object. -/
def bufferLengths (object : UInt8) (payload : Bytes) : Option (ℕ × ℕ) :=
  ((valueOf object payload).bind (valueOf Tag.propertiesBufferProperties)).bind readLengths

/-- GET PROPERTIES for all properties, or for tags an applet with one object has, with that of the
object among them. -/
structure VCardAPDU.AsksProperties (apdu : VCardAPDU) (object : UInt8) : Prop where
  ins : apdu.aIns = Ins.cacGetProperties
  p2 : apdu.aP2 = 0x00
  p1 : (apdu.aP1 = 0x01 ∧ apdu.aLc = 0) ∨ apdu.aP1 = 0x40
    ∨ (apdu.aP1 = 0x02 ∧ object ∈ apdu.body
      ∧ ∀ tag ∈ apdu.body,
        tag ∈ [Tag.propertiesAppletInformation, Tag.propertiesNumberObjects, object])

/-- These bytes are reported: they are the answer or what it announces, or, when more were asked
for, the answer is the lower byte of how many they are. -/
def Processed.Reports (r : Processed τ) (payload : Bytes) (aLe : ℕ) : Prop :=
  if payload.length < aLe then
    r.response = some (vcardResponseNewStatusBytes 0x6c (UInt8.ofNat payload.length))
  else r.Answers payload aLe

/-- The card with applet `i` current on the channel of a command. -/
def VCard.withCurrent (card : VCard τ) (apdu : VCardAPDU) (i : ℕ) : VCard τ :=
  { card with currentApplet := Function.update card.currentApplet apdu.channel (some i) }

/-- However GET PROPERTIES is sent to applet `i`, it reports the lengths of that applet's files. -/
def DescribesFiles (emul : Emul τ) (card : VCard τ) (object : UInt8) (i : ℕ) : Prop :=
  ∀ a p apdu, card.applets[i]? = some a → a.appletPrivate = some p → apdu.AsksProperties object →
    ∃ r payload, vcardProcessApdu emul (card.withCurrent apdu i) apdu = .ok r
      ∧ r.Reports payload apdu.aLe
      ∧ bufferLengths object payload = some (bufferLen p.tagBuffer, bufferLen p.valBuffer)

/-- The CCC applet and the PKI applets of a card report the lengths of their files. -/
def PropertiesRight (emul : Emul τ) (card : VCard τ) : Prop :=
  ∀ i a, card.applets[i]? = some a →
    (a.aid = cacCccAid → DescribesFiles emul card Tag.propertiesTvObject i)
      ∧ (a.processApdu = .cacPki → DescribesFiles emul card Tag.propertiesPkiObject i)

/-- The files of the PKI applets have lengths that two bytes can tell. -/
def VCard.SmallFiles (card : VCard τ) : Prop :=
  ∀ a ∈ card.applets, ∀ p, a.processApdu = .cacPki → a.appletPrivate = some p →
    bufferLen p.tagBuffer ≤ 65535 ∧ bufferLen p.valBuffer ≤ 65535

end Libcacard
