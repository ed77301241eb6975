import Libcacard.Response
import Libcacard.SimpleTlv

/-!
# The data of a CAC applet

Each applet has a file of tags and lengths and a file of values, its properties, and what its own
kind needs. A file is two bytes of length and one half of a SimpleTLV encoding.
-/

namespace Libcacard

open Machine

/-- The union in `VCardAppletPrivate`. `sign_buffer` is NULL exactly when its length is 0. -/
inductive AppletUnion
  | pkiData (signBuffer : Bytes) (key : VCardKey)
  | cccData
  | acaData (pkiApplets : ℕ)
  | ptData (label : String)
  | reserved
  deriving DecidableEq, Repr

/-- The properties of an applet: its own copy, or a link to the function's static list, which
holds the buffer properties of the last CCC applet created. -/
inductive AppletProperties
  | own (tlv : List SimpletlvMember)
  | cccLink

/-- `tagBuffer` and `valBuffer` are `none` while NULL; each length is that of the buffer. -/
structure VCardAppletPrivate where
  tagBuffer : Option Bytes
  valBuffer : Option Bytes
  properties : AppletProperties
  propertiesLen : ℕ
  longPropertiesLen : ℕ
  coids : List Bytes
  u : AppletUnion

/-! ## Files -/

/-- `cac_create_file`, with `none` for the failure that returns 0 and a NULL buffer. The buffer's
size is computed in an `int`. -/
def cacCreateFile (tlv : List SimpletlvMember) (type : SimpletlvBufferType) :
    Except Fault (Option Bytes) := do
  let len := simpletlvGetLength tlv type
  if len < 0 then return none
  if 2 ^ 31 ≤ 2 + len then throw .overflow
  let (mem, buffer) := Memory.malloc [] (2 + len).toNat
  let start := buffer.add 2
  let encode := match type with
    | .tl => some simpletlvEncodeTl
    | .value => some simpletlvEncodeVal
    | .both => none
  match encode with
  | none => return none
  | some encode =>
    let (mem, r) ← encode mem tlv (some start) len.toNat none
    if r.rv ≤ 0 then return none
    let mem ← mem.store buffer (ushort2lebytes r.rv.toNat)
    return some (← Heap.read mem buffer.block)

def cacCreateTlFile (tlv : List SimpletlvMember) : Except Fault (Option Bytes) :=
  cacCreateFile tlv .tl

def cacCreateValFile (tlv : List SimpletlvMember) : Except Fault (Option Bytes) :=
  cacCreateFile tlv .value

def cacCreateEmptyFile : Option Bytes := some [0x00, 0x00]

/-! ## Copies -/

mutual

/-- The loop of `simpletlv_clone` from a member on. -/
def simpletlvCloneFrom : List SimpletlvMember → Option (List SimpletlvMember)
  | [] => some []
  | m :: ms =>
    match simpletlvCloneMember m, simpletlvCloneFrom ms with
    | some c, some cs => some (c :: cs)
    | _, _ => none

def simpletlvCloneMember : SimpletlvMember → Option SimpletlvMember
  | .none tag length value => some (.none tag length value)
  | .leaf tag value => some (.leaf tag value)
  | .compound tag child =>
    if child.isEmpty then none else (simpletlvCloneFrom child).map (.compound tag)

end

/-- `simpletlv_clone`; `none` is NULL, which `g_new` returns for a list of no members. -/
def simpletlvClone (tlv : List SimpletlvMember) : Option (List SimpletlvMember) :=
  if tlv.isEmpty then none else simpletlvCloneFrom tlv

/-! ## Tags -/

namespace Tag

abbrev pkiCertificate : UInt8 := 0x70
abbrev pkiCertinfo : UInt8 := 0x71
abbrev pkiMscuid : UInt8 := 0x72
abbrev pkiErrorDetectionCode : UInt8 := 0xfe

abbrev acrNumEntries : UInt8 := 0xa1
abbrev acrEntry : UInt8 := 0xa0
abbrev acrNumApplets : UInt8 := 0x81
abbrev acrAppletAcr : UInt8 := 0x80
abbrev acrObjectAcr : UInt8 := 0x82
abbrev acrAmpNumEntries : UInt8 := 0x91
abbrev acrAmpEntry : UInt8 := 0x90
abbrev acrAid : UInt8 := 0x92
abbrev acrServiceNumEntries : UInt8 := 0x94
abbrev acrServiceEntry : UInt8 := 0x93

abbrev cccCardIdentifier : UInt8 := 0xf0
abbrev cccCapabilityContainerVersion : UInt8 := 0xf1
abbrev cccCapabilityGrammarVersion : UInt8 := 0xf2
abbrev cccApplicationCardurl : UInt8 := 0xf3
abbrev cccPkcs15 : UInt8 := 0xf4
abbrev cccRegisteredDataModelNumber : UInt8 := 0xf5
abbrev cccAccessControlRuleTable : UInt8 := 0xf6
abbrev cccCardApdus : UInt8 := 0xf7
abbrev cccRedirectionTag : UInt8 := 0xfa
abbrev cccCapabilityTuples : UInt8 := 0xfb
abbrev cccStatusTuples : UInt8 := 0xfc
abbrev cccNextCcc : UInt8 := 0xfd
abbrev cccErrorDetectionCode : UInt8 := 0xfe

abbrev propertiesAppletInformation : UInt8 := 0x01
abbrev propertiesNumberObjects : UInt8 := 0x40
abbrev propertiesObjectId : UInt8 := 0x41
abbrev propertiesBufferProperties : UInt8 := 0x42
abbrev propertiesPkiProperties : UInt8 := 0x43
abbrev propertiesTvObject : UInt8 := 0x50
abbrev propertiesPkiObject : UInt8 := 0x51

end Tag

/-! ## Properties -/

/-- The list `properties` points to, while the buffer properties CCC applets share are `shared`. -/
def AppletProperties.tlv (shared : ByteArr 5) : AppletProperties → List SimpletlvMember
  | .own tlv => tlv
  | .cccLink =>
    [.leaf Tag.propertiesAppletInformation [0x10, 0x02, 0x06, 0x02, 0x03],
      .leaf Tag.propertiesNumberObjects [0x01],
      -- two of the three members of its object
      .compound Tag.propertiesTvObject
        [.leaf Tag.propertiesObjectId [0xdb, 0x00],
          .leaf Tag.propertiesBufferProperties shared.1],
      .leaf 0x39 [0x00],
      .leaf 0x3a [0xa0, 0x00, 0x00, 0x00, 0x79, 0x03, 0x00]]

variable {τ : Type}

/-- The first `n` members of a list, all of which are there. -/
def firstMembers (tlv : List SimpletlvMember) (n : ℕ) : Except Fault (List SimpletlvMember) :=
  if n ≤ tlv.length then .ok (tlv.take n) else .error .outOfBounds

/-- The members with these tags, in their order, or `none` when one has no member. -/
def matchingMembers (properties : List SimpletlvMember) : Bytes → Option (List SimpletlvMember)
  | [] => some []
  | t :: tags =>
    match properties.find? (fun m => m.tag = t), matchingMembers properties tags with
    | some m, some cp => some (m :: cp)
    | _, _ => none

/-- The properties a command asks for. -/
def askedProperties (properties : List SimpletlvMember) (n : ℕ) (tags : Bytes) :
    Option (List SimpletlvMember) :=
  if tags = [] then some (properties.take n) else matchingMembers (properties.take n) tags

/-- `get_properties`; without tags all properties are returned. -/
def getProperties (s : Session τ) (properties : List SimpletlvMember) (propertiesLen : ℕ)
    (tags : Bytes) (aLe : ℕ) : Except Fault (VCardResponse × Session τ) := do
  let properties ← firstMembers properties propertiesLen
  match if tags = [] then some properties else matchingMembers properties tags with
  -- this tag was not found
  | none => return (vcardMakeResponse Status.errorDataNotFound, s)
  | some cp =>
    let (rv, propertiesBuffer) ← simpletlvEncodeNew cp
    -- an `unsigned int`
    let propertiesBufferLen := (rv % 2 ^ 32).toNat
    if propertiesBufferLen = 0 then return (vcardMakeResponse Status.errorGeneral, s)
    if propertiesBufferLen < aLe then
      return (vcardResponseNewStatusBytes 0x6c (UInt8.ofNat propertiesBufferLen), s)
    vcardResponseNew s (propertiesBuffer.getD []) (toInt32 propertiesBufferLen) aLe Status.success

/-! ## The loops of GET PROPERTIES

`cp` is an array with a slot for every tag, of which the first `k` were written. -/

namespace InMemory

/-- The first member from `i` on with this tag, of which there are `left`. -/
def findProperty (properties : List SimpletlvMember) (tag : UInt8) :
    ℕ → ℕ → Except Fault (Option SimpletlvMember)
  | _, 0 => .ok none
  | i, left + 1 =>
    match properties[i]? with
    | none => .error .outOfBounds
    | some m =>
      if m.tag = tag then .ok (some m) else findProperty properties tag (i + 1) left

/-- The loop over the tags, which ends at one that was not found. -/
def copyProperties (properties : List SimpletlvMember) (propertiesLen : ℕ) :
    Bytes → ℕ → List (Option SimpletlvMember) →
      Except Fault (Option (List (Option SimpletlvMember)))
  | [], _, cp => .ok (some cp)
  | t :: tags, k, cp => do
    match ← findProperty properties t 0 propertiesLen with
    | none => return none
    | some m =>
      if k < cp.length then copyProperties properties propertiesLen tags (k + 1) (cp.set k (some m))
      else throw .outOfBounds

/-- The members in an array of which every slot is read. -/
def slots : List (Option SimpletlvMember) → Except Fault (List SimpletlvMember)
  | [] => .ok []
  | none :: _ => .error .badAddress
  | some m :: cp => do return m :: (← slots cp)

/-- What is handed to the encoder, or `none` when a tag was not found. -/
def selectProperties (properties : List SimpletlvMember) (propertiesLen : ℕ) (tags : Bytes) :
    Except Fault (Option (List SimpletlvMember)) := do
  if tags = [] then return some (← firstMembers properties propertiesLen)
  match ← copyProperties properties propertiesLen tags 0 (List.replicate tags.length none) with
  | none => return none
  | some cp => return some (← slots cp)

def encodeProperties (s : Session τ) (cp : List SimpletlvMember) (aLe : ℕ) :
    Except Fault (VCardResponse × Session τ) := do
  let (rv, propertiesBuffer) ← simpletlvEncodeNew cp
  let propertiesBufferLen := (rv % 2 ^ 32).toNat
  if propertiesBufferLen = 0 then return (vcardMakeResponse Status.errorGeneral, s)
  if propertiesBufferLen < aLe then
    return (vcardResponseNewStatusBytes 0x6c (UInt8.ofNat propertiesBufferLen), s)
  vcardResponseNew s (propertiesBuffer.getD []) (toInt32 propertiesBufferLen) aLe Status.success

def getProperties (s : Session τ) (properties : List SimpletlvMember) (propertiesLen : ℕ)
    (tags : Bytes) (aLe : ℕ) : Except Fault (VCardResponse × Session τ) := do
  match ← selectProperties properties propertiesLen tags with
  -- this tag was not found
  | none => return (vcardMakeResponse Status.errorDataNotFound, s)
  | some cp => encodeProperties s cp aLe

end InMemory

end Libcacard
