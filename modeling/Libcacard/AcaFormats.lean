import Libcacard.Aca
import Libcacard.Lib.Decode

/-!
# Reading the tables of the ACA applet

What the two formats of a table say, as one who receives them reads it: the applets by AID, and the
applets with their objects and the instructions on them.
-/

namespace Libcacard

open Machine

/-- The entries of the first `pkiApplets` PKI applets and all behind the ten of PKI applets. -/
def AppletTable.listed {α : Type} (table : AppletTable α) (pkiApplets : ℕ) : List α :=
  table.entries.take pkiApplets ++ table.entries.drop 10

/-! ## Access control rules -/

/-- A rule as the encoding above the table states it. -/
def AcrEntry.documented (e : AcrEntry) : Bytes :=
  [e.acrid, e.acrtype, UInt8.ofNat e.accessMethods.length]
    ++ e.accessMethods.flatMap AcrAccessMethod.toBytes

structure SentAcr where
  acrid : UInt8
  acrtype : UInt8
  accessMethods : List AcrAccessMethod
  deriving DecidableEq, Repr

def AcrEntry.sent (e : AcrEntry) : SentAcr := ⟨e.acrid, e.acrtype, e.accessMethods⟩

def readLeaf {β : Type} (tag : UInt8) (f : Bytes → Option β) : SimpletlvMember → Option β
  | .leaf t v => if t = tag then f v else none
  | _ => none

def readAccessMethod : Decoder AcrAccessMethod
  | providerId :: key :: bs => some (⟨providerId, key⟩, bs)
  | _ => none

/-- ACRID, ACRType, the number of access methods and as many methods. -/
def readAcrEntry : Bytes → Option SentAcr
  | acrid :: acrtype :: n :: bs =>
    ((readAccessMethod.many n.toNat).only bs).map (⟨acrid, acrtype, ·⟩)
  | _ => none

/-- The number of rules, and as many rules. -/
def readAcrTable : List SimpletlvMember → Option (List SentAcr)
  | [] => none
  | m :: ms =>
    if readLeaf Tag.acrNumEntries some m = some [UInt8.ofNat ms.length] ∧ ms.length < 256 then
      ms.mapM (readLeaf Tag.acrEntry readAcrEntry)
    else none

/-- The access methods behind a rule, of which zeros in place of the only one are none, and the
zero that ends them. -/
def readMethodsExtended : Bytes → Option (List AcrAccessMethod)
  | [p, k, 0] => some (if p = 0 ∧ k = 0 then [] else [⟨p, k⟩])
  | [p, k, p', k', 0] => some [⟨p, k⟩, ⟨p', k'⟩]
  | _ => none

/-- ACRID, ACRType, a byte that says nothing of these, and the access methods. -/
def readAcrEntryExtended : Bytes → Option SentAcr
  | acrid :: acrtype :: _ :: bs => (readMethodsExtended bs).map (⟨acrid, acrtype, ·⟩)
  | _ => none

def readAcrExtended : Bytes → Option (List SentAcr) :=
  (Decoder.sized readAcrEntryExtended).toEnd

/-- Every rule is listed by its documented encoding, a filter leaves those with its identifier,
and both formats read back to the table. -/
structure AcrFormatsAgree (table : List AcrEntry) : Prop where
  listed : cacAcaGetAcr table none = .ok (some (.leaf Tag.acrNumEntries [UInt8.ofNat table.length]
    :: table.map fun e => .leaf Tag.acrEntry e.documented))
  filtered : ∀ acrid, cacAcaGetAcr table (some acrid)
    = .ok (if (table.filter fun e => e.acrid = acrid) = [] then none
      else some ((table.filter fun e => e.acrid = acrid).map fun e =>
        .leaf Tag.acrEntry e.documented))
  read : ∃ ms buffer, cacAcaGetAcr table none = .ok (some ms)
    ∧ acrTableExtended table = .ok buffer
    ∧ readAcrTable ms = some (table.map AcrEntry.sent)
    ∧ readAcrExtended buffer = some (table.map AcrEntry.sent)

/-- The bytes of the structure of a rule begin with its documented encoding: behind ACRID and
ACRType come the applet's identifier, a byte of padding and the number of methods. -/
def AcrEntry.DocumentedInMemory (e : AcrEntry) : Prop :=
  e.accessMethods = [] ∧ e.appletId = 0
    ∨ e.accessMethods = [⟨0, 1⟩] ∧ e.appletId = 1
    ∨ e.accessMethods = [⟨0, 2⟩, ⟨0, 0⟩] ∧ e.appletId = 2

/-! ## Applets by AID -/

def AidEntry.sent (e : AidEntry) : UInt8 × Bytes := (e.id, e.aid)

/-- An applet identifier, the byte `sep`, the length of an AID and the AID. -/
def readAid (sep : UInt8) : Decoder (UInt8 × Bytes)
  | id :: b :: bs => if b = sep then (Decoder.sized some).map (id, ·) bs else none
  | _ => none

/-- The number of entries, and as many entries. -/
def readServiceTable : List SimpletlvMember → Option (List (UInt8 × Bytes))
  | [] => none
  | m :: ms =>
    if readLeaf Tag.acrServiceNumEntries some m = some [UInt8.ofNat ms.length] ∧ ms.length < 256 then
      ms.mapM (readLeaf Tag.acrServiceEntry (readAid Tag.acrAid).only)
    else none

def readServiceExtended : Bytes → Option (List (UInt8 × Bytes)) := (readAid 0).toEnd

/-- Both answers are there, and list the AIDs of the active entries in the order of the table. -/
def ServiceFormatsAgree (table : AppletTable AidEntry) (pkiApplets : ℕ) : Prop :=
  ∃ ms buffer, cacAcaGetServiceTable table pkiApplets = .ok ms
    ∧ serviceTableExtended table pkiApplets = .ok buffer
    ∧ readServiceTable ms = some ((table.listed pkiApplets).map AidEntry.sent)
    ∧ readServiceExtended buffer = some ((table.listed pkiApplets).map AidEntry.sent)

/-- The number of entries, and as many entries. -/
def readAmpTable : List SimpletlvMember → Option (List (UInt8 × Bytes))
  | [] => none
  | m :: ms =>
    if readLeaf Tag.acrAmpNumEntries some m = some [UInt8.ofNat ms.length] ∧ ms.length < 256 then
      ms.mapM (readLeaf Tag.acrAmpEntry (readAid Tag.acrAid).only)
    else none

/-- The list has the announced entries of the table in order, and is the same whatever the other
entries of the array are. -/
structure AmpListsEntries (table : AmpTable) : Prop where
  listed : ∃ ms, cacAcaGetAmp table = .ok ms
    ∧ readAmpTable ms = some ((table.entries.take table.numEntries).map AidEntry.sent)
  within : ∀ entries : List AidEntry, entries.length = table.entries.length →
    entries.take table.numEntries = table.entries.take table.numEntries →
    cacAcaGetAmp { table with entries := entries } = cacAcaGetAmp table

/-! ## Applets and their objects -/

/-- An instruction with the arguments its configuration selects. -/
structure SentIns where
  code : UInt8
  config : UInt8
  p1 : Option UInt8
  p2 : Option UInt8
  data1 : Option UInt8
  acrid : UInt8
  deriving DecidableEq, Repr

structure SentObject where
  id0 : UInt8
  id1 : UInt8
  ins : List SentIns
  deriving DecidableEq, Repr

structure SentApplet where
  id : UInt8
  objects : List SentObject
  deriving DecidableEq, Repr

def CacIns.sent (i : CacIns) : SentIns :=
  ⟨i.code, i.config, if i.hasP1 then some i.p1 else none, if i.hasP2 then some i.p2 else none,
    if i.hasData1 then some i.data1 else none, i.acrid⟩

def AcrObject.sent (o : AcrObject) : SentObject := ⟨o.id0, o.id1, o.ins.map CacIns.sent⟩

def AcrApplet.sent (a : AcrApplet) : SentApplet := ⟨a.id, a.objects.map AcrObject.sent⟩

/-- The first active object with this identifier. -/
def AppletTable.firstObject (table : AppletTable AcrApplet) (pkiApplets : ℕ) (id0 id1 : UInt8) :
    Option AcrObject :=
  ((table.listed pkiApplets).flatMap AcrApplet.objects).find? fun o => o.id0 = id0 ∧ o.id1 = id1

/-- A byte that is only there if `has`. -/
def readArg : Bool → Decoder (Option UInt8)
  | false, bs => some (none, bs)
  | true, b :: bs => some (some b, bs)
  | true, [] => none

def readIns : Decoder SentIns
  | code :: config :: bs => do
    let (p1, bs) ← readArg (config &&& 0x01 ≠ 0) bs
    let (p2, bs) ← readArg (config &&& 0x02 ≠ 0) bs
    let (data1, bs) ← readArg (config &&& 0x04 ≠ 0) bs
    match bs with
    | acrid :: bs => some (⟨code, config, p1, p2, data1, acrid⟩, bs)
    | [] => none
  | _ => none

def readObject : Bytes → Option SentObject
  | id0 :: id1 :: bs => (readIns.toEnd bs).map (⟨id0, id1, ·⟩)
  | _ => none

/-- An applet identifier, the number of objects and as many objects. -/
def readApplet (object : Decoder SentObject) : Bytes → Option SentApplet
  | id :: n :: bs => ((object.many n.toNat).only bs).map (⟨id, ·⟩)
  | _ => none

/-- An object in a record of an applet. -/
def readObjectRecord : Decoder SentObject
  | tag :: bs => if tag = Tag.acrObjectAcr then Decoder.sized readObject bs else none
  | [] => none

def readAppletAcr : Bytes → Option SentApplet := readApplet readObjectRecord

def readAppletsExtended : Bytes → Option (List SentApplet) :=
  (Decoder.sized (readApplet (Decoder.sized readObject))).toEnd

end Libcacard
