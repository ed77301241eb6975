import Libcacard.VCard

/-!
# The ISO layer

A command first goes to the applet that is current on its channel. What an applet passes on is
answered here: the selection of applets, the PIN, and the pending response.
-/

namespace Libcacard

open Machine

variable {τ : Type}

/-- The AID of the Global Platform Card Manager. -/
def gpAid : Bytes := [0xa0, 0x00, 0x00, 0x00, 0x03, 0x00, 0x00]

/-- Its response on select. -/
def gpResponse : Bytes :=
  [0x6f, 0x19, 0x84, 0x08, 0xa0, 0x00, 0x00, 0x00, 0x03, 0x00, 0x00, 0x00, 0xa5, 0x0d, 0x9f,
    0x6e, 0x06, 0x12, 0x91, 0x51, 0x81, 0x01, 0x00, 0x9f, 0x65, 0x01, 0xff]

def fciTemplateInit : Bytes :=
  [0x6f, 0x0b, 0x84, 0x07, 0x00, 0x00, 0x00, 0x00, 0x00, 0x00, 0x00, 0x00, 0x00, 0x00, 0x00,
    0x00, 0x00, 0x00, 0x00, 0x00, 0xa5, 0x00]

/-- The FCI template of an AID, whose length was asserted to fit. -/
def fciTemplate (aid : Bytes) : Bytes :=
  let t := fciTemplateInit.set 1 (UInt8.ofNat (aid.length + 4))
  let t := t.set 3 (UInt8.ofNat aid.length)
  let t := splice t 4 aid
  let t := t.set (aid.length + 4) 0xa5
  t.set (aid.length + 5) 0x00

namespace Processed

def answer (card : VCard τ) (r : VCardResponse) : Processed τ := ⟨.done, some r, card⟩

/-- The command is answered with a status word. -/
def withStatus (card : VCard τ) (status : UInt16) : Processed τ :=
  answer card (vcardMakeResponse status)

end Processed

/-- SELECT FILE -/
def vmSelectFile (card : VCard τ) (apdu : VCardAPDU) : Except Fault (Processed τ) := do
  -- GSC-IS: 5.3.3.2 Select Applet APDU: P1 = 0x04
  if apdu.aP1 ≠ 0x04 then return .withStatus card Status.errorFunctionNotSupported
  let currentApplet := vcardFindApplet card.applets apdu.body
  let card ← vcardSelectApplet card apdu.aChannel currentApplet
  if currentApplet = none then return .withStatus card Status.errorFileNotFound
  if currentApplet = vcardFindApplet card.applets gpAid then
    let (r, s) ← vcardResponseNew card.toSession gpResponse gpResponse.length apdu.aLe
      Status.success
    return .answer { card with toSession := s } r
  let fciTemplateLen := 6 + apdu.aLc
  if fciTemplateInit.length < fciTemplateLen then throw .assertion
  let (r, s) ← vcardResponseNew card.toSession (fciTemplate apdu.body) fciTemplateLen apdu.aLe
    Status.success
  return .answer { card with toSession := s } r

/-- VERIFY -/
def vmVerify (emul : Emul τ) (card : VCard τ) (apdu : VCardAPDU) : Processed τ :=
  if apdu.aP1 ≠ 0x00 ∨ apdu.aP2 ≠ 0x00 then .withStatus card Status.errorWrongParameters
  else if apdu.aLc = 0 then
    let (loggedIn, token) := emul.isLoggedIn card.token
    let card := { card with token := token }
    -- if we are already logged in, we should succeed just now
    if loggedIn ≠ 0 then .withStatus card Status.success
    else
      let count := vcardGetLoginCount emul card.toSession
      if count < 0 then .withStatus card Status.errorDataNotFound
      else
        let count := if 0xf < count then 0xf else count
        .answer card (vcardResponseNewStatusBytes 0x63 (0xc0 ||| UInt8.ofNat count.toNat))
  else
    let (status, token) := emul.login card.token apdu.body
    let s := { card.toSession with token := token }
    .withStatus { card with toSession := s.log (.login apdu.body status) } status

/-- GET RESPONSE -/
def vmGetResponse (card : VCard τ) (apdu : VCardAPDU) : Except Fault (Processed τ) :=
  match card.bufferResponse with
  | none => .ok (.withStatus card Status.errorDataNotFound)
  | some bufferResponse => do
    let bytesToCopy := min bufferResponse.len apdu.aLe
    let nextByteCount := min 256 (bufferResponse.len - bytesToCopy)
    let (r, s) ← vcardResponseNewBytes card.toSession bufferResponse.remaining bytesToCopy
      apdu.aLe (if nextByteCount ≠ 0 then 0x61 else 0x90) (UInt8.ofNat nextByteCount)
    let left := bufferResponse.advance bytesToCopy (Nat.min_le_left _ _)
    return .answer
      { card with toSession := { s with
          bufferResponse := if nextByteCount = 0 then none else some left } } r

def vcard7816VmProcessApdu (emul : Emul τ) (card : VCard τ) (apdu : VCardAPDU) :
    Except Fault (Processed τ) :=
  -- parse the class first
  if apdu.aGenType ≠ .iso then .ok (.withStatus card Status.errorCommandNotSupported)
  else if apdu.aSecureMessaging ≠ 0 then .ok (.withStatus card Status.errorSecureNotSupported)
  else
    match apdu.aIns with
    | Ins.selectFile => vmSelectFile card apdu
    | Ins.verify => .ok (vmVerify emul card apdu)
    | Ins.getResponse => vmGetResponse card apdu
    -- every other instruction, the known ones and GET DATA among them
    | _ => .ok (.withStatus card Status.errorCommandNotSupported)

def vcard7816FileSystemProcessApdu (card : VCard τ) : Processed τ :=
  .withStatus card Status.errorCommandNotSupported

/-- The values of the enumeration `VCardAPDUType`. -/
def VCardAPDUType.value : VCardAPDUType → ℕ
  | iso => 0
  | rfu => 1
  | pts => 2
  | proprietary => 3

/-- `vcard_process_apdu`. The first test compares the class nibble with a value of the
enumeration. -/
def vcardProcessApdu (emul : Emul τ) (card : VCard τ) (apdu : VCardAPDU) :
    Except Fault (Processed τ) := do
  let card := { card with calls := [] }
  if apdu.aType = VCardAPDUType.pts.value then
    let r := vcardResponseNewData apdu.aData
    -- PTS responses have no status bytes
    return .answer card { r with bTotalLen := r.bLen }
  -- clear out buffer_response, do not return an error
  let card := if apdu.aIns ≠ Ins.getResponse then { card with bufferResponse := none } else card
  let r ← vcardProcessAppletApdu emul card apdu
  if r.status ≠ .next then return r
  match r.card.type with
  | .fileSystem => return vcard7816FileSystemProcessApdu r.card
  | .vm => vcard7816VmProcessApdu emul r.card apdu
  -- if we are type direct, then the applet should handle everything
  | .direct => throw .assertion

end Libcacard
