import Libcacard.Aca

/-!
# The applets of a CAC card

A handler is called for the applet that is current on the command's channel, and gets that
applet's private data, which is what `vcard_get_current_applet_private` finds there. It leaves a
status, a response unless it passes the command on, the private data and the session. What the
CCC applets share of their properties is `shared`.
-/

namespace Libcacard

open Machine

variable {τ : Type} (shared : ByteArr 5)

/-- What a handler leaves. -/
structure Handled (τ : Type) where
  status : VCardStatus
  response : Option VCardResponse
  appletPrivate : Option VCardAppletPrivate
  session : Session τ

namespace Handled

/-- The command is answered. -/
def answer (p : VCardAppletPrivate) (r : VCardResponse × Session τ) : Handled τ :=
  ⟨.done, some r.1, some p, r.2⟩

/-- The command is answered with a status word. -/
def withStatus (p : VCardAppletPrivate) (s : Session τ) (status : UInt16) : Handled τ :=
  answer p (vcardMakeResponse status, s)

/-- The command is left to the ISO layer. -/
def pass (p : Option VCardAppletPrivate) (s : Session τ) : Handled τ := ⟨.next, none, p, s⟩

end Handled

/-- The private data a handler starts with: `g_assert(applet_private)`. -/
def assertPrivate : Option VCardAppletPrivate → Except Fault VCardAppletPrivate
  | some p => .ok p
  | none => .error .assertion

/-! ## What all applets answer -/

def cacCommonProcessApdu (p : VCardAppletPrivate) (s : Session τ) (apdu : VCardAPDU) :
    Except Fault (Handled τ) :=
  let properties := p.properties.tlv shared
  match apdu.aIns with
  | Ins.cacGetProperties => do
    if apdu.aP2 ≠ 0x00 then return .withStatus p s Status.errorP1P2Incorrect
    match apdu.aP1 with
    | 0x00 => return .withStatus p s Status.errorP1P2Incorrect
    -- get all the properties
    | 0x01 =>
      if apdu.aLc ≠ 0 then return .withStatus p s Status.errorDataInvalid
      return .answer p (← getProperties s properties p.propertiesLen [] apdu.aLe)
    -- get the properties of the tags in the body
    | 0x02 =>
      if apdu.aLc = 0 then return .withStatus p s Status.errorDataInvalid
      return .answer p (← getProperties s properties p.propertiesLen apdu.body apdu.aLe)
    -- get the properties with some more values
    | 0x40 => return .answer p (← getProperties s properties p.longPropertiesLen [] apdu.aLe)
    | _ => return .withStatus p s Status.errorP1P2Incorrect
  | Ins.selectFile =>
    -- let the 7816 code handle applet switches
    if apdu.aP1 ≠ 0x02 then .ok (.pass (some p) s)
    else if apdu.aLc ≠ 2 then .ok (.withStatus p s Status.errorDataInvalid)
    else if apdu.body ∉ p.coids then .ok (.withStatus p s Status.errorFileNotFound)
    else .ok (.withStatus p s Status.success)
  | Ins.getResponse | Ins.verify => .ok (.pass (some p) s)
  | _ => .ok (.withStatus p s Status.errorInsCodeInvalid)

/-- One READ BUFFER from a file, for `size` bytes from `offset` on. -/
def readFile (s : Session τ) (file : Option Bytes) (size offset : ℕ) (aLe : ℕ) :
    Except Fault (VCardResponse × Session τ) :=
  let file := file.getD []
  let size : ℤ := min size (file.length - offset)
  -- overrun
  if size < 0 then .ok (vcardMakeResponse Status.errorP1P2Incorrect, s)
  else vcardResponseNewBytes s (file.drop offset) size aLe 0x90 0x00

def cacCommonProcessApduRead (p : VCardAppletPrivate) (s : Session τ) (apdu : VCardAPDU) :
    Except Fault (Handled τ) :=
  match apdu.aIns with
  | Ins.cacReadBuffer => do
    -- the body contains exactly two bytes
    if apdu.aLc ≠ 2 then return .withStatus p s Status.errorDataInvalid
    let size := (← readByte apdu.body 1).toNat
    let offset := bebytes2ushort apdu.aP1 apdu.aP2
    match ← readByte apdu.body 0 with
    | 0x02 => return .answer p (← readFile s p.valBuffer size offset apdu.aLe)
    | 0x01 => return .answer p (← readFile s p.tagBuffer size offset apdu.aLe)
    | _ => return .withStatus p s Status.errorDataInvalid
  | Ins.cacUpdateBuffer => .ok (.withStatus p s Status.errorCommandNotSupported)
  | _ => cacCommonProcessApdu shared p s apdu

/-! ## Resets -/

/-- The key and the input so far of a PKI applet. -/
def pkiData : AppletUnion → Except Fault (Bytes × VCardKey)
  | .pkiData signBuffer key => .ok (signBuffer, key)
  | _ => .error .badAddress

def cacAppletPkiReset (p : VCardAppletPrivate) : Except Fault VCardAppletPrivate := do
  let (_, key) ← pkiData p.u
  return { p with u := .pkiData [] key }

def cacAppletPassthroughReset (p : VCardAppletPrivate) : VCardAppletPrivate :=
  { p with tagBuffer := none, valBuffer := none }

/-! ## The PKI applets -/

def cacAppletPkiProcessApdu (emul : Emul τ) (p : VCardAppletPrivate) (s : Session τ)
    (apdu : VCardAPDU) : Except Fault (Handled τ) := do
  let (signBuffer, key) ← pkiData p.u
  match apdu.aIns with
  | Ins.cacUpdateBuffer => return .withStatus p s Status.errorConditionNotSatisfied
  | Ins.cacSignDecrypt =>
    if apdu.aP2 ≠ 0 then return .withStatus p s Status.errorP1P2Incorrect
    -- the sum is an `int`
    if 2 ^ 31 ≤ signBuffer.length + apdu.aLc then throw .overflow
    let signBuffer := signBuffer ++ apdu.body
    match apdu.aP1 with
    -- we haven't yet sent the whole buffer, wait for the rest
    | 0x80 => return .withStatus { p with u := .pkiData signBuffer key } s Status.success
    -- we now have the whole buffer, do the operation
    | 0x00 =>
      let (status, signBuffer', token) := emul.rsaOp s.token key signBuffer
      let s := { s with token := token }.log (.rsaOp key signBuffer)
      let p := { p with u := .pkiData [] key }
      if status ≠ Status.success then return .withStatus p s status
      return .answer p
        (← vcardResponseNew s signBuffer' signBuffer.length apdu.aLe Status.success)
    | _ => return .withStatus { p with u := .pkiData [] key } s Status.errorP1P2Incorrect
  | _ => cacCommonProcessApduRead shared p s apdu

/-! ## The ACA applet -/

def acaData : AppletUnion → Except Fault ℕ
  | .acaData pkiApplets => .ok pkiApplets
  | _ => .error .badAddress

def cacAppletAcaProcessApdu (p : VCardAppletPrivate) (s : Session τ) (apdu : VCardAPDU) :
    Except Fault (Handled τ) := do
  let pkiApplets ← acaData p.u
  match apdu.aIns with
  | Ins.cacGetAcr =>
    if apdu.aP2 ≠ 0x00 then return .withStatus p s Status.errorP1P2Incorrect
    let format : AcrFormat := if apdu.aP1 &&& 0x40 ≠ 0 then .extended else .simpleTlv
    match apdu.aP1 with
    -- all ACR table entries
    | 0x00 | 0x40 | 0x41 =>
      if apdu.aLc ≠ 0 then return .withStatus p s Status.errorDataInvalid
      return .answer p (← cacAcaGetAcrResponse s apdu.aLe none format)
    -- one entry, by its ACRID
    | 0x01 =>
      if apdu.aLc ≠ 1 then return .withStatus p s Status.errorDataInvalid
      let acrid ← readByte apdu.body 0
      return .answer p (← cacAcaGetAcrResponse s apdu.aLe (some acrid) format)
    -- all Applet/Object ACR table entries
    | 0x10 | 0x50 | 0x51 | 0x52 =>
      if apdu.aLc ≠ 0 then return .withStatus p s Status.errorDataInvalid
      let (r, s) ← cacAcaGetAppletAcrResponse s apdu.aLe pkiApplets .all format
      return ⟨.done, r, some p, s⟩
    -- the entries of one applet
    | 0x11 =>
      if apdu.aLc ≠ 7 then return .withStatus p s Status.errorDataInvalid
      let (r, s) ← cacAcaGetAppletAcrResponse s apdu.aLe pkiApplets (.aid apdu.body) format
      return ⟨.done, r, some p, s⟩
    -- the entry of one object
    | 0x12 =>
      if apdu.aLc ≠ 2 then return .withStatus p s Status.errorDataInvalid
      let (r, s) ← cacAcaGetAppletAcrResponse s apdu.aLe pkiApplets (.coid apdu.body) format
      return ⟨.done, r, some p, s⟩
    -- the Access Method Provider table
    | 0x20 | 0x60 =>
      if apdu.aLc ≠ 0 then return .withStatus p s Status.errorDataInvalid
      return .answer p (← cacAcaGetAmpResponse s apdu.aLe format)
    -- the Service Applet table
    | 0x21 | 0x61 =>
      if apdu.aLc ≠ 0 then return .withStatus p s Status.errorDataInvalid
      return .answer p (← cacAcaGetServiceResponse s apdu.aLe pkiApplets format)
    | _ => return .withStatus p s Status.errorCommandNotSupported
  | _ => cacCommonProcessApdu shared p s apdu

/-! ## The passthrough applets -/

def ptData : AppletUnion → Except Fault String
  | .ptData label => .ok label
  | _ => .error .badAddress

/-- The two files of an object of the token, which are empty when there is none. -/
def passthroughFiles : Option Bytes → Except Fault (Option Bytes × Option Bytes)
  | some data => do
    let tlv ← simpletlvParse data
    return (← cacCreateTlFile tlv, ← cacCreateValFile tlv)
  | none => .ok (cacCreateEmptyFile, cacCreateEmptyFile)

def cacPassthroughContainerProcessApdu (emul : Emul τ) (p : VCardAppletPrivate) (s : Session τ)
    (apdu : VCardAPDU) : Except Fault (Handled τ) := do
  let label ← ptData p.u
  -- the data were not yet retrieved from the card
  if apdu.aIns = Ins.cacReadBuffer ∧ (p.tagBuffer = none ∨ p.valBuffer = none) then
    let (data, token) := emul.readObject s.token label
    let s := { s with token := token }.log (.readObject label)
    let (tagBuffer, valBuffer) ← passthroughFiles data
    cacCommonProcessApduRead shared { p with tagBuffer := tagBuffer, valBuffer := valBuffer } s apdu
  else cacCommonProcessApduRead shared p s apdu

/-! ## The Global Platform and the Microsoft applet -/

def cardRecognitionData : Bytes :=
  [0x66, 0x31, 0x73, 0x2f, 0x06, 0x07, 0x2a, 0x86, 0x48, 0x86, 0xfc, 0x6b, 0x01, 0x60, 0x0c,
    0x06, 0x0a, 0x2a, 0x86, 0x48, 0x86, 0xfc, 0x6b, 0x02, 0x02, 0x02, 0x01, 0x63, 0x09, 0x06,
    0x07, 0x2a, 0x86, 0x48, 0x86, 0xfc, 0x6b, 0x03, 0x64, 0x0b, 0x06, 0x09, 0x2a, 0x86, 0x48,
    0x86, 0xfc, 0x6b, 0x04, 0x03, 0x10]

def msftGetData : Bytes :=
  [0x30, 0x1d, 0x02, 0x01, 0x00, 0x16, 0x04, 0x4d, 0x53, 0x46, 0x54, 0x30, 0x12, 0x04, 0x10,
    0xe2, 0x80, 0xe9, 0xd2, 0x51, 0x88, 0x87, 0x4f, 0x81, 0xd6, 0x4f, 0x25, 0x4e, 0x38, 0x00,
    0x1d]

def cplpDataSize : ℕ := 45

/-- `cplp_data` before any card's serial number is written into it. -/
def cplpDataInit : ByteArr cplpDataSize :=
  ⟨[0x9f, 0x7f, 0x2a, 0x00, 0x05, 0x00, 0x45, 0xd0, 0x01, 0x40, 0x21, 0x01, 0x01, 0x07, 0x4f,
    0x00, 0x00, 0x00, 0x00, 0x00, 0x00, 0x47, 0x92, 0x72, 0x05, 0x16, 0x73, 0x72, 0x05, 0x16,
    0x74, 0x72, 0x05, 0x00, 0x00, 0x0a, 0x40, 0x00, 0x00, 0x00, 0x00, 0x00, 0x09, 0x29, 0xbb], rfl⟩

/-- Bytes of the card's serial number take the place of a part of the template. -/
def cplpDataOf (serial : ByteArr 32) (serialLen : ℕ) (cplpData : ByteArr cplpDataSize) :
    ByteArr cplpDataSize :=
  if 0 < serialLen then
    cplpData.write 15 (serial.1.take 6) (by simp [serial.2, cplpDataSize])
  else cplpData

/-- The template `cplp_data` is the program's, and is left with the serial number in it. -/
def gpAppletContainerProcessApdu (cplpData : ByteArr cplpDataSize) (p : Option VCardAppletPrivate)
    (s : Session τ) (apdu : VCardAPDU) : Except Fault (Handled τ × ByteArr cplpDataSize) := do
  match apdu.aIns with
  | Ins.getData =>
    let tag := bebytes2ushort apdu.aP1 apdu.aP2
    if tag = 0x9f7f then
      let cplpData := cplpDataOf s.serial s.serialLen cplpData
      let (r, s) ← vcardResponseNew s cplpData.1 cplpDataSize apdu.aLe Status.success
      return (⟨.done, some r, p, s⟩, cplpData)
    if tag = 0x0066 then
      let (r, s) ← vcardResponseNew s cardRecognitionData cardRecognitionData.length apdu.aLe
        Status.success
      return (⟨.done, some r, p, s⟩, cplpData)
    return (⟨.done, some (vcardMakeResponse Status.errorDataNotFound), p, s⟩, cplpData)
  | _ => return (.pass p s, cplpData)

/-- `VCARD_COMPAT_WINDOWS` -/
def compatWindows : UInt32 := 0x01

def vcardSetCompat (s : Session τ) (set : UInt32) : Session τ :=
  { s with compat := s.compat ||| set }

def msftAppletContainerProcessApdu (p : Option VCardAppletPrivate) (s : Session τ)
    (apdu : VCardAPDU) : Except Fault (Handled τ) := do
  match apdu.aIns with
  | Ins.getData =>
    if bebytes2ushort apdu.aP1 apdu.aP2 = 0x7f68 then
      -- assuming the driver is on Windows
      let s := vcardSetCompat s compatWindows
      let (r, s) ← vcardResponseNew s msftGetData msftGetData.length apdu.aLe Status.success
      return ⟨.done, some r, p, s⟩
    return ⟨.done, some (vcardMakeResponse Status.errorDataNotFound), p, s⟩
  | _ => return .pass p s

end Libcacard
