import Libcacard.CardRun
import Libcacard.GetResponse

/-!
# Reading a file

READ BUFFER reads a part of one of the two files of an applet, and GET RESPONSE fetches what the
command did not ask for. A client reads a file in chunks, each from where the last one ended.
-/

namespace Libcacard

open Machine

variable {τ : Type}

inductive AppletFile
  | tag
  | value
  deriving DecidableEq, Repr

/-- The first byte of a READ BUFFER for the file. -/
def AppletFile.code : AppletFile → UInt8
  | tag => 0x01
  | value => 0x02

def VCardAppletPrivate.file (p : VCardAppletPrivate) : AppletFile → Option Bytes
  | .tag => p.tagBuffer
  | .value => p.valBuffer

def VCardProcessAPDU.AnswersReadBuffer : VCardProcessAPDU → Prop
  | cacCommonRead | cacPki | cacPassthrough => True
  | cacAca | gp | msft => False

instance : DecidablePred VCardProcessAPDU.AnswersReadBuffer
  | .cacCommonRead | .cacPki | .cacPassthrough => .isTrue trivial
  | .cacAca | .gp | .msft => .isFalse id

/-- On `channel` an applet is current that answers READ BUFFER and has built both its files. -/
structure ServesFiles (card : VCard τ) (channel : Fin maxChannel) (p : VCardAppletPrivate) :
    Prop where
  exists_applet : ∃ i a, card.currentApplet channel = some i ∧ card.applets[i]? = some a
    ∧ a.appletPrivate = some p ∧ a.processApdu.AnswersReadBuffer
  tagBuffer_ne : p.tagBuffer ≠ none
  valBuffer_ne : p.valBuffer ≠ none

/-- READ BUFFER for `size` bytes of a file, from `offset` on. -/
structure VCardAPDU.Reads (apdu : VCardAPDU) (file : AppletFile) (offset : ℕ) (size : UInt8) :
    Prop where
  aIns_eq : apdu.aIns = Ins.cacReadBuffer
  offset_eq : bebytes2ushort apdu.aP1 apdu.aP2 = offset
  body_eq : apdu.body = [file.code, size]

/-- The last of the answers is `9000`, and no earlier one is. -/
def UntilSuccess (responses : List VCardResponse) : Prop :=
  ∃ init last, responses = init ++ [last] ∧ last.bStatus = Status.success
    ∧ ∀ r ∈ init, r.bStatus ≠ Status.success

/-- The command, and GET RESPONSE commands until `9000`, are answered by `data`. -/
def Fetches (emul : Emul τ) (card : VCard τ) (apdu : VCardAPDU) (gs : List VCardAPDU)
    (data : Bytes) (card' : VCard τ) : Prop :=
  (∀ g ∈ gs, g.GetsResponse) ∧ ∃ responses, UntilSuccess responses
    ∧ responses.flatMap VCardResponse.data = data
    ∧ run (cardStep emul) card ((apdu :: gs).map .apdu)
      = .ok (responses.map (fun response => some ⟨.done, some response⟩), card')

/-- The command is answered by a status alone, and there is nothing to fetch. -/
def AnswersStatus (emul : Emul τ) (card : VCard τ) (apdu : VCardAPDU) (status : UInt16) : Prop :=
  ∃ r response, vcardProcessApdu emul card apdu = .ok r ∧ r.status = .done
    ∧ r.response = some response ∧ response.bStatus = status ∧ response.data = []
    ∧ r.card.pending = none

/-- A file is read in chunks of the sizes, from `offset` on. -/
inductive ReadsChunks (emul : Emul τ) (channel : Fin maxChannel) (file : AppletFile) :
    VCard τ → ℕ → List UInt8 → List Bytes → VCard τ → Prop
  | nil {card : VCard τ} {offset : ℕ} : ReadsChunks emul channel file card offset [] [] card
  | cons {card card₁ card₂ : VCard τ} {apdu : VCardAPDU} {gs : List VCardAPDU} {offset : ℕ}
    {size : UInt8} {sizes : List UInt8} {data : Bytes} {chunks : List Bytes}
    (hchannel : apdu.channel = channel) (hreads : apdu.Reads file offset size)
    (hfetches : Fetches emul card apdu gs data card₁)
    (h : ReadsChunks emul channel file card₁ (offset + data.length) sizes chunks card₂) :
    ReadsChunks emul channel file card offset (size :: sizes) (data :: chunks) card₂

/-- The chunks are the file, as far as they reach, and once they have reached its end they are
empty. -/
structure Reconstructs (f : Bytes) (sizes : List UInt8) (chunks : List Bytes) : Prop where
  flatten_eq : chunks.flatten = f.take (sizes.map UInt8.toNat).sum
  complete : f.length ≤ sizes.length → chunks.flatten = f
  rest_nil : ∀ n, f.length ≤ ((sizes.take n).map UInt8.toNat).sum → ∀ c ∈ chunks.drop n, c = []

end Libcacard
