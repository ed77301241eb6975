import Libcacard.CardRun
import Libcacard.Serialise
import Libcacard.SocketRead

/-!
# Commands as bytes

`vreader_xfr_bytes` takes a command as bytes and copies as much of the response as the caller's
buffer has room for. The client's buffer has 270 bytes, and a response with more than 268 bytes of
data does not get there whole.
-/

namespace Libcacard

open Machine

variable {τ : Type}

/-- What the caller has afterwards: `*receive_buf_len`, and what was copied to its buffer. -/
structure Xfr (τ : Type) where
  status : VReaderStatus
  receiveBufLen : ℕ
  receiveBuf : Bytes
  card : Option (VCard τ)

/-- `vreader_xfr_bytes` for a reader with this card in it. -/
def vreaderXfrBytes (emul : Emul τ) (card : Option (VCard τ)) (sendBuf : Bytes)
    (receiveBufLen : ℕ) : Except Fault (Xfr τ) :=
  match card with
  | none => .ok ⟨.noCard, receiveBufLen, [], none⟩
  | some card => do
    let r ← match ← vcardApduNew sendBuf with
      | .error status => .ok (.withStatus card status)
      | .ok apdu => vcardProcessApdu emul card apdu
    if r.status = .fail then return ⟨.noCard, 0, [], some r.card⟩
    match r.status, r.response with
    | .done, some response =>
      let size := min receiveBufLen response.bTotalLen
      return ⟨.ok, size, ← readBytes response.bData 0 size, some r.card⟩
    | _, _ => throw .assertion

/-! ## Whole answers -/

/-- What is left of the pending response. -/
def VCard.pendingBytes (card : VCard τ) : Bytes :=
  match card.bufferResponse with
  | none => []
  | some b => b.remaining

/-- These data are all that was computed for the command and was not kept, and all that was taken
from the pending response. -/
structure Processed.Delivers (card : VCard τ) (apdu : VCardAPDU) (r : Processed τ)
    (data : Bytes) : Prop where
  computed : ∀ p Le, .response p Le ∈ r.card.calls →
    p = data ∨ r.card.bufferResponse = some (.ofBytes p)
  removed : apdu.aIns = Ins.getResponse → card.pendingBytes = data ++ r.card.pendingBytes

/-- The client gets the whole answer to a command: its data and behind them its status. -/
def XfrWhole (emul : Emul τ) (card : VCard τ) (command : Bytes) : Prop :=
  ∃ x data sw1 sw2, vreaderXfrBytes emul (some card) command apduBufSize = .ok x
    ∧ x.status = .ok ∧ x.receiveBufLen = x.receiveBuf.length ∧ x.receiveBuf = data ++ [sw1, sw2]
    ∧ (∀ status, vcardApduNew command = .ok (.error status) →
      data = [] ∧ (sw1, sw2) = statusBytes status)
    ∧ ∀ apdu, vcardApduNew command = .ok (.ok apdu) →
      ∃ r response, vcardProcessApdu emul card apdu = .ok r ∧ r.response = some response
        ∧ sw1 = response.bSw1 ∧ sw2 = response.bSw2 ∧ r.Delivers card apdu data

/-! ## Long answers -/

/-- GET PROPERTIES for tags among the first `n` properties, or for all of these. -/
inductive VCardAPDU.AsksTags (apdu : VCardAPDU) (p : VCardAppletPrivate) : ℕ → Bytes → Prop
  | all (hP1 : apdu.aP1 = 0x01) (hLc : apdu.aLc = 0) : AsksTags apdu p p.propertiesLen []
  | tags (hP1 : apdu.aP1 = 0x02) (hLc : apdu.aLc ≠ 0) : AsksTags apdu p p.propertiesLen apdu.body
  | long (hP1 : apdu.aP1 = 0x40) : AsksTags apdu p p.longPropertiesLen []

/-- What an applet with more than 268 bytes of data in its answer was asked for: the result of an
operation, properties of just the length the command says, or a table. -/
inductive LongData (emul : Emul τ) (shared : ByteArr 5) (token : τ) (apdu : VCardAPDU)
    (p : VCardAppletPrivate) : Prop
  | sign {signBuffer : Bytes} {key : VCardKey} (hu : p.u = .pkiData signBuffer key)
    (hsigns : apdu.Signs) (hP1 : apdu.aP1 = 0x00)
    (hok : (emul.rsaOp token key (signBuffer ++ apdu.body)).1 = Status.success)
    (hlen : 268 < (emul.rsaOp token key (signBuffer ++ apdu.body)).2.1.length)
    (hle : (emul.rsaOp token key (signBuffer ++ apdu.body)).2.1.length ≤ apdu.aLe)
  | properties {n : ℕ} {tags : Bytes} {cp : List SimpletlvMember}
    (hins : apdu.aIns = Ins.cacGetProperties) (hP2 : apdu.aP2 = 0x00)
    (hasks : apdu.AsksTags p n tags)
    (hcp : askedProperties (p.properties.tlv shared) n tags = some cp)
    (hlen : 268 < (serialise cp).length) (hle : (serialise cp).length = apdu.aLe)
  | table {n len : ℕ} (hu : p.u = .acaData n) (hins : apdu.aIns = Ins.cacGetAcr)
    (hP2 : apdu.aP2 = 0x00) (hLc : apdu.aLc = 0) (htable : tableLength apdu.aP1 n = some len)
    (hlen : 268 < len) (hle : len ≤ apdu.aLe)

/-- What a command with more than 268 bytes of data in its answer asks for: that much of the pending
response, or such data of the current applet. -/
inductive LongAnswer (emul : Emul τ) (card : VCard τ) (apdu : VCardAPDU) : Prop
  | pending {b : VCardBufferResponse} (hiso : apdu.IsIso) (hins : apdu.aIns = Ins.getResponse)
    (hb : card.bufferResponse = some b) (hlen : 268 < min b.len apdu.aLe)
  | applet {i : ℕ} {a : VCardApplet} {p : VCardAppletPrivate}
    (hi : card.currentApplet apdu.channel = some i) (ha : card.applets[i]? = some a)
    (hp : a.appletPrivate = some p)
    (h : LongData emul card.statics.cccBufferProperties card.token apdu p)

end Libcacard
