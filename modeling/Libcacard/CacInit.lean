import Libcacard.Card7816

/-!
# Building a CAC card

One PKI applet for each certificate, the ACA and CCC applets and the containers, then the Global
Platform and the Microsoft applet. An applet that cannot be built ends the initialisation, and the
card keeps the applets added before.
-/

namespace Libcacard

open Machine

variable {τ : Type}

def cacAcaAid : Bytes := [0xa0, 0x00, 0x00, 0x00, 0x79, 0x03, 0x00]
def cacCccAid : Bytes := [0xa0, 0x00, 0x00, 0x01, 0x16, 0xdb, 0x00]
def cac02fbAid : Bytes := [0xa0, 0x00, 0x00, 0x00, 0x79, 0x02, 0xfb]
def cac1201Aid : Bytes := [0xa0, 0x00, 0x00, 0x00, 0x79, 0x12, 0x01]
def cac1202Aid : Bytes := [0xa0, 0x00, 0x00, 0x00, 0x79, 0x12, 0x02]
def cac02f0Aid : Bytes := [0xa0, 0x00, 0x00, 0x00, 0x79, 0x02, 0xf0]
def cac02f1Aid : Bytes := [0xa0, 0x00, 0x00, 0x00, 0x79, 0x02, 0xf1]
def cac02f2Aid : Bytes := [0xa0, 0x00, 0x00, 0x00, 0x79, 0x02, 0xf2]
def cacAccessControlAid : Bytes := [0xa0, 0x00, 0x00, 0x01, 0x16, 0x30, 0x00]
def cacPkiCertificateAid : Bytes := [0xa0, 0x00, 0x00, 0x00, 0x79, 0x02, 0xfe]
def cacPkiCredentialAid : Bytes := [0xa0, 0x00, 0x00, 0x00, 0x79, 0x02, 0xfd]
def cacPersonInstanceAid : Bytes := [0xa0, 0x00, 0x00, 0x00, 0x79, 0x02, 0x00]
def cacPersonnelAid : Bytes := [0xa0, 0x00, 0x00, 0x00, 0x79, 0x02, 0x01]

/-- The AID of the applet of certificate `i`. -/
def pkiAid (i : ℕ) : Bytes := [0xa0, 0x00, 0x00, 0x00, 0x79, 0x01, UInt8.ofNat i]

def appletInformation : SimpletlvMember :=
  .leaf Tag.propertiesAppletInformation [0x10, 0x02, 0x06, 0x02, 0x03]

/-- The length of a buffer an applet has. -/
def bufferLen (buffer : Option Bytes) : ℕ := (buffer.getD []).length

/-! ## PKI applets -/

/-- What is read from a PKI applet. -/
def pkiBuffer (cert : Bytes) : List SimpletlvMember :=
  [.leaf Tag.pkiCertinfo [0x00], .leaf Tag.pkiCertificate cert, .leaf Tag.pkiMscuid [],
    .leaf Tag.pkiErrorDetectionCode []]

def pkiProperties (objectId : Bytes) (tagLen valLen : ℕ) (bits : ℤ) : List SimpletlvMember :=
  [appletInformation,
    .leaf Tag.propertiesNumberObjects [0x01],
    .compound Tag.propertiesPkiObject
      [.leaf Tag.propertiesObjectId objectId,
        .leaf Tag.propertiesBufferProperties
          ([0x00] ++ ushort2lebytes tagLen ++ ushort2lebytes valLen),
        .leaf Tag.propertiesPkiProperties
          [0x06, if 0 < bits then UInt8.ofNat (bits.toNat / 8 / 8) else 0x10, 0x01, 0x01],
        .leaf 0x26 [0x01]],
    .leaf 0x39 [0x00],
    .leaf 0x3a [0xa0, 0x00, 0x00, 0x00, 0x79, 0x03, 0x00]]

def cacNewPkiAppletPrivate (emul : Emul τ) (i : ℕ) (cert : Bytes) (key : VCardKey) :
    Except Fault (Option VCardAppletPrivate) := do
  match ← cacCreateTlFile (pkiBuffer cert) with
  | none => return none
  | some tagBuffer =>
    match ← cacCreateValFile (pkiBuffer cert) with
    | none => return none
    | some valBuffer =>
      let objectId := [0x01, UInt8.ofNat i]
      let properties :=
        pkiProperties objectId tagBuffer.length valBuffer.length (emul.rsaBits key)
      return (simpletlvClone properties).map fun properties =>
        { tagBuffer := some tagBuffer, valBuffer := some valBuffer
          properties := .own properties, propertiesLen := 3, longPropertiesLen := 5
          coids := [objectId], u := .pkiData [] key }

def cacNewPkiApplet (emul : Emul τ) (i : ℕ) (cert : Bytes) (key : VCardKey) :
    Except Fault (Option VCardApplet) := do
  return (← cacNewPkiAppletPrivate emul i cert key).map fun p =>
    ⟨.cacPki, some .pki, pkiAid i, some p⟩

/-! ## The CCC applet -/

/-- The URLs every card has. -/
def commonCardurls : List Bytes :=
  [[0xa0, 0x00, 0x00, 0x00, 0x79, 0x01, 0x02, 0xfb, 0x02, 0xfb, 0x00, 0x00, 0x00, 0x00, 0x00, 0x00],
    [0xa0, 0x00, 0x00, 0x00, 0x79, 0x01, 0x02, 0xfe, 0x02, 0xfe, 0x00, 0x00, 0x00, 0x00, 0x00, 0x00],
    [0xa0, 0x00, 0x00, 0x00, 0x79, 0x01, 0x02, 0xfd, 0x02, 0xfd, 0x00, 0x00, 0x00, 0x00, 0x00, 0x00],
    [0xa0, 0x00, 0x00, 0x00, 0x79, 0x01, 0x02, 0x00, 0x02, 0x00, 0x00, 0x00, 0x00, 0x00, 0x00, 0x00],
    [0xa0, 0x00, 0x00, 0x00, 0x79, 0x01, 0x02, 0x01, 0x02, 0x01, 0x00, 0x00, 0x00, 0x00, 0x00, 0x00],
    [0xa0, 0x00, 0x00, 0x01, 0x16, 0x01, 0x30, 0x00, 0x30, 0x00, 0x00, 0x00, 0x00, 0x00, 0x00, 0x00],
    [0xa0, 0x00, 0x00, 0x01, 0x16, 0x01, 0x60, 0x10, 0x30, 0x00, 0x00, 0x00, 0x00, 0x00, 0x00, 0x00],
    [0xa0, 0x00, 0x00, 0x01, 0x16, 0x01, 0x60, 0x30, 0x30, 0x00, 0x00, 0x00, 0x00, 0x00, 0x00, 0x00],
    [0xa0, 0x00, 0x00, 0x01, 0x16, 0x01, 0x90, 0x00, 0x30, 0x00, 0x00, 0x00, 0x00, 0x00, 0x00, 0x00],
    [0xa0, 0x00, 0x00, 0x00, 0x79, 0x01, 0x12, 0x01, 0x12, 0x01, 0x00, 0x00, 0x00, 0x00, 0x00, 0x00],
    [0xa0, 0x00, 0x00, 0x00, 0x79, 0x01, 0x12, 0x02, 0x12, 0x02, 0x00, 0x00, 0x00, 0x00, 0x00, 0x00]]

/-- The URL of PKI applet `i`. -/
def pkiCardurl (i : ℕ) : ByteArr 16 :=
  ⟨[0xa0, 0x00, 0x00, 0x00, 0x79, 0x04, 0x01, UInt8.ofNat i, 0x01, UInt8.ofNat i, 0x00, 0x00, 0x00,
    0x00, 0x00, 0x00], rfl⟩

/-- A slot for the URL of a PKI applet. -/
def cardurlMember : Option (ByteArr 16) → SimpletlvMember
  | none => .none Tag.cccApplicationCardurl 16 none
  | some url => .leaf Tag.cccApplicationCardurl url.1

/-- What is read from the CCC applet, with these slots. -/
def cccBuffer (slots : Fin maxPkiApplets → Option (ByteArr 16)) : List SimpletlvMember :=
  [.leaf Tag.cccCardIdentifier
      [0xa0, 0x00, 0x00, 0x00, 0x79, 0x03, 0x02, 0x40, 0x70, 0x50, 0x72, 0x36, 0x0e, 0x00, 0x00,
        0x58, 0xbd, 0x00, 0x2c, 0x19, 0xb5],
    .leaf Tag.cccCapabilityContainerVersion [0x21],
    .leaf Tag.cccCapabilityGrammarVersion [0x21]]
  ++ commonCardurls.map (.leaf Tag.cccApplicationCardurl)
  ++ List.ofFn (fun i => cardurlMember (slots i))
  ++ [.leaf Tag.cccPkcs15 [0x00],
    .leaf Tag.cccRegisteredDataModelNumber [0x10],
    .leaf Tag.cccAccessControlRuleTable
      [0x07, 0xa0, 0x00, 0x00, 0x00, 0x79, 0x03, 0x00, 0x00, 0x00, 0x00, 0x00, 0x00, 0x00, 0x00,
        0x00, 0x00],
    .leaf Tag.cccCardApdus [],
    .leaf Tag.cccRedirectionTag [],
    .leaf Tag.cccCapabilityTuples [],
    .leaf Tag.cccStatusTuples [],
    .leaf Tag.cccNextCcc [],
    .leaf Tag.cccErrorDetectionCode []]

/-- The slots when the first `certCount` were filled: the others are as they were. -/
def fillSlots (slots : Fin maxPkiApplets → Option (ByteArr 16)) (certCount : ℕ) :
    Fin maxPkiApplets → Option (ByteArr 16) :=
  fun i => if i < certCount then some (pkiCardurl i) else slots i

/-- `cac_new_ccc_applet_private` goes on with what its earlier calls left in its statics. -/
def cacNewCccAppletPrivate (st : Statics) (certCount : ℕ) :
    Except Fault (Option VCardAppletPrivate × Statics) := do
  -- too many objects for now
  if maxPkiApplets < certCount then return (none, st)
  let slots := fillSlots st.cccPkiSlots certCount
  let st := { st with cccPkiSlots := slots }
  match ← cacCreateTlFile (cccBuffer slots) with
  | none => return (none, st)
  | some tagBuffer =>
    match ← cacCreateValFile (cccBuffer slots) with
    | none => return (none, st)
    | some valBuffer =>
      let st := { st with
        cccBufferProperties :=
          ⟨[0x00] ++ ushort2lebytes tagBuffer.length ++ ushort2lebytes valBuffer.length, rfl⟩ }
      return (some
        { tagBuffer := some tagBuffer, valBuffer := some valBuffer
          properties := .cccLink, propertiesLen := 3, longPropertiesLen := 5
          coids := [[0xdb, 0x00]], u := .cccData }, st)

def cacNewCccApplet (st : Statics) (certCount : ℕ) :
    Except Fault (Option VCardApplet × Statics) := do
  let (p, st) ← cacNewCccAppletPrivate st certCount
  return (p.map fun p => ⟨.cacCommonRead, none, cacCccAid, some p⟩, st)

/-! ## The ACA applet -/

def acaProperties : List SimpletlvMember :=
  [.leaf Tag.propertiesAppletInformation [0x10, 0x02, 0x06, 0x02, 0x02],
    .leaf 0x23 [0x20, 0x11, 0x00, 0x00, 0x00, 0x00, 0x00, 0x00, 0x00, 0x00, 0x00, 0x58],
    .leaf 0x2a [0x02, 0x00],
    .leaf 0x2b [0xa0, 0x00, 0x00, 0x00, 0x79],
    .leaf 0x22 [0x00, 0x00, 0x00, 0xda, 0x01, 0xb4, 0x03, 0x30, 0x00, 0x00, 0x00, 0x70, 0x00, 0x51,
      0x02, 0x9d],
    .leaf 0x2c [0x00],
    .leaf 0x20 [0x08, 0x01],
    .leaf 0x21 [0x0f],
    .leaf 0x32 [0x03, 0x03, 0x03, 0x03],
    .leaf 0x30 [0x08],
    .leaf 0x31 [0x06, 0x08, 0x00, 0x00],
    .leaf 0x24 [0xff],
    .leaf 0x25 [0x01, 0x00],
    .leaf 0x26 [0x01]]

/-- The list its properties link to never changes. -/
def cacNewAcaAppletPrivate (certCount : ℕ) : VCardAppletPrivate :=
  { tagBuffer := none, valBuffer := none
    properties := .own acaProperties, propertiesLen := 1, longPropertiesLen := 14
    coids := [[0x03, 0x00]], u := .acaData certCount }

def cacNewAcaApplet (certCount : ℕ) : VCardApplet :=
  ⟨.cacAca, none, cacAcaAid, some (cacNewAcaAppletPrivate certCount)⟩

/-! ## Containers -/

/-- The TV object of a container's properties. -/
def tvObject (objectId : Bytes) (typeOfTag : UInt8) : SimpletlvMember :=
  .compound Tag.propertiesTvObject
    [.leaf Tag.propertiesObjectId objectId,
      .leaf Tag.propertiesBufferProperties [typeOfTag, 0x60, 0x00, 0x60, 0x00],
      .leaf 0x26 [0x01]]

/-- The static list the properties are cloned from has room for five objects. -/
def cacNewEmptyAppletPrivate (objects : List Bytes) : Except Fault (Option VCardAppletPrivate) := do
  -- not a SimpleTLV
  let tvObjects ← fitting 5 (objects.map (tvObject · 0x01))
  let properties :=
    [appletInformation, .leaf Tag.propertiesNumberObjects [UInt8.ofNat objects.length]] ++ tvObjects
  return (simpletlvClone properties).map fun properties =>
    { tagBuffer := cacCreateEmptyFile, valBuffer := cacCreateEmptyFile
      properties := .own properties, propertiesLen := 2 + objects.length
      longPropertiesLen := 2 + objects.length, coids := objects, u := .reserved }

def cacNewEmptyApplet (aid : Bytes) (coids : List Bytes) : Except Fault (Option VCardApplet) := do
  return (← cacNewEmptyAppletPrivate coids).map fun p => ⟨.cacCommonRead, none, aid, some p⟩

/-- The object identifier is the last two bytes of the AID. -/
def cacNewPassthroughAppletPrivate (label : String) (aid : Bytes) : Option VCardAppletPrivate :=
  let objectId := aid.drop (aid.length - 2)
  (simpletlvClone [appletInformation, .leaf Tag.propertiesNumberObjects [0x01],
    tvObject objectId 0x00]).map fun properties =>
      { tagBuffer := none, valBuffer := none
        properties := .own properties, propertiesLen := 3, longPropertiesLen := 3
        coids := [objectId], u := .ptData label }

def cacNewPassthroughApplet (label : String) (aid : Bytes) : Option VCardApplet :=
  (cacNewPassthroughAppletPrivate label aid).map fun p =>
    ⟨.cacPassthrough, some .passthrough, aid, some p⟩

/-! ## The card -/

/-- Builds and adds applets one after the other, up to one that cannot be built. -/
def addNewApplets (card : VCard τ) :
    List (Except Fault (Option VCardApplet)) → Except Fault (VCardStatus × VCard τ)
  | [] => .ok (.done, card)
  | new :: news => do
    match ← new with
    | none => return (.fail, card)
    | some applet => addNewApplets (vcardAddApplet card applet) news

/-- The containers of a card, in the order they are added. -/
def cacContainers : List (Except Fault (Option VCardApplet)) :=
  [cacNewEmptyApplet cac02f0Aid [],
    cacNewEmptyApplet cac02f1Aid [],
    cacNewEmptyApplet cac02f2Aid [],
    cacNewEmptyApplet cac02fbAid [[0x02, 0xfb]],
    cacNewEmptyApplet cacPkiCertificateAid [[0x02, 0xfe]],
    cacNewEmptyApplet cacPkiCredentialAid [[0x02, 0xfd]],
    .ok (cacNewPassthroughApplet "Person Instance" cacPersonInstanceAid),
    .ok (cacNewPassthroughApplet "Personnel" cacPersonnelAid),
    cacNewEmptyApplet cac1201Aid [[0x12, 0x01]],
    cacNewEmptyApplet cac1202Aid [[0x12, 0x02]],
    cacNewEmptyApplet cacAccessControlAid [[0x30, 0x00], [0x60, 0x10], [0x60, 0x30], [0x90, 0x00]]]

/-- `cac_card_init` for certificates with their keys. -/
def cacCardInit (emul : Emul τ) (card : VCard τ) (certs : List (Bytes × VCardKey)) :
    Except Fault (VCardStatus × VCard τ) := do
  let card := { card with type := .vm }
  let certCount := certs.length
  -- too many PKI objects
  if maxPkiApplets < certCount then return (.fail, card)
  let pkis := certs.zipIdx.map fun ((cert, key), i) => cacNewPkiApplet emul i cert key
  let (rv, card) ← addNewApplets card (pkis ++ [.ok (some (cacNewAcaApplet certCount))])
  if rv ≠ .done then return (.fail, card)
  let (ccc, st) ← cacNewCccApplet card.statics certCount
  addNewApplets { card with statics := st } (.ok ccc :: cacContainers)

def gpContainerAid : Bytes := [0xa0, 0x00, 0x00, 0x00, 0x03, 0x00, 0x00]

def gpCardInit (card : VCard τ) : VCard τ :=
  vcardAddApplet card ⟨.gp, none, gpContainerAid, none⟩

def msftContainerAid : Bytes :=
  [0xa0, 0x00, 0x00, 0x03, 0x97, 0x43, 0x49, 0x44, 0x5f, 0x01, 0x00]

def msftCardInit (card : VCard τ) : VCard τ :=
  vcardAddApplet card ⟨.msft, none, msftContainerAid, none⟩

inductive VCardEmulType
  | none
  | cac
  | passthru
  deriving DecidableEq, Repr

def vcardInit (emul : Emul τ) (card : VCard τ) (type : VCardEmulType)
    (certs : List (Bytes × VCardKey)) : Except Fault (VCardStatus × VCard τ) :=
  match type with
  | .cac => do
    let (rv, card) ← cacCardInit emul card certs
    if rv = .done then return (.done, msftCardInit (gpCardInit card))
    return (rv, card)
  | .none | .passthru => .ok (.fail, card)

end Libcacard
