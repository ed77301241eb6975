import Libcacard.Card7816

/-!
# PTS

A command of class `FF` is not an APDU but a protocol selection, which is to be sent back as it
came. It is looked for before the applets are asked, on a card of a PC/SC reader as on all others.
-/

namespace Libcacard

open Machine

variable {τ : Type}

/-- `vcard_process_apdu`, of a card whose applets are called by `processAppletApdu` -/
def vcardProcessApduBy (emul : Emul τ)
    (processAppletApdu : VCard τ → VCardAPDU → Except Fault (Processed τ)) (card : VCard τ)
    (apdu : VCardAPDU) : Except Fault (Processed τ) := do
  let card := { card with calls := [] }
  if apdu.aType = VCardAPDUType.pts.value then
    let r := vcardResponseNewData apdu.aData
    -- PTS responses have no status bytes
    return .answer card { r with bTotalLen := r.bLen }
  -- clear out buffer_response, do not return an error
  let card := if apdu.aIns ≠ Ins.getResponse then { card with bufferResponse := none } else card
  let r ← processAppletApdu card apdu
  if r.status ≠ .next then return r
  match r.card.type with
  | .fileSystem => return vcard7816FileSystemProcessApdu r.card
  | .vm => vcard7816VmProcessApdu emul r.card apdu
  -- if we are type direct, then the applet should handle everything
  | .direct => throw .assertion

/-! ## Cards of PC/SC readers -/

/-- What `send_receive` got from the reader, whose state is the card's token; nothing when it
failed. -/
abbrev SendReceive (τ : Type) := τ → Bytes → Option Bytes × τ

/-- `apdu_cb` -/
def apduCb (sendReceive : SendReceive τ) (card : VCard τ) (apdu : VCardAPDU) : Processed τ :=
  let (rc, token) := sendReceive card.token apdu.aData
  let card := { card with token := token }
  match rc with
  | none => ⟨.fail, none, card⟩
  | some outbuf =>
    if outbuf.length < 2 then ⟨.fail, none, card⟩
    else
      let response := vcardResponseNewData (outbuf.take (outbuf.length - 2))
      .answer card (vcardResponseSetStatusBytes response (outbuf.getD (outbuf.length - 2) 0)
        (outbuf.getD (outbuf.length - 1) 0))

/-- `vcard_process_applet_apdu`, of a card whose only applet is that of `apdu_cb` -/
def pcscProcessAppletApdu (sendReceive : SendReceive τ) (card : VCard τ) (apdu : VCardAPDU) :
    Except Fault (Processed τ) :=
  if h : apdu.aChannel < maxChannel then
    match card.currentApplet ⟨apdu.aChannel, h⟩ with
    | none => .ok ⟨.next, none, card⟩
    | some _ => .ok (apduCb sendReceive card apdu)
  else .error .outOfBounds

/-! ## What is meant to hold -/

/-- The command is sent back without status bytes, and nothing else happens. -/
def EchoesPts (card : VCard τ) (rawApdu : Bytes) (x : Except Fault (Processed τ)) : Prop :=
  ∃ r response, x = .ok r ∧ r.status = .done ∧ r.response = some response
    ∧ response.bData.take response.bTotalLen = rawApdu ∧ response.bTotalLen = response.bLen
    ∧ r.card.currentApplet = card.currentApplet ∧ r.card.applets = card.applets
    ∧ r.card.bufferResponse = card.bufferResponse

end Libcacard
