import Libcacard.AcaTables

/-!
# The answers of the ACA applet

Every table is sent in one of two formats, as a SimpleTLV list behind the applet's information or
in a compressed form without tags. Buffers and lists are allocated for the number of entries a
table announces, and writing more is a fault.
-/

namespace Libcacard

open Machine

variable {τ : Type}

inductive AcrFormat
  | simpleTlv
  | extended
  deriving DecidableEq, Repr

/-- `xs`, which is written to an array of `n`. -/
def fitting {α : Type} (n : ℕ) (xs : List α) : Except Fault (List α) :=
  if xs.length ≤ n then .ok xs else .error .outOfBounds

def cacAcaGetProperties : List SimpletlvMember :=
  [.leaf Tag.propertiesAppletInformation [0x10, 0x02, 0x06, 0x02, 0x02]]

/-- Puts the applet's information before a list, encodes both and answers with that. -/
def acaRespond (s : Session τ) (Le : ℕ) (acr : List SimpletlvMember) :
    Except Fault (VCardResponse × Session τ) := do
  let (rv, buffer) ← simpletlvEncodeNew (cacAcaGetProperties ++ acr)
  match buffer with
  | none => return (vcardMakeResponse Status.errorGeneral, s)
  | some buffer => vcardResponseNew s buffer (toInt32 rv) Le Status.success

/-! ## Access control rules -/

/-- The member of an entry: as many of its structure's bytes as an encoding of it would have. -/
def acrEntryMember (e : AcrEntry) : SimpletlvMember :=
  .leaf Tag.acrEntry (e.toBytes.take (2 * e.accessMethods.length + 3))

def cacAcaGetAcr (table : List AcrEntry) (acrid : Option UInt8) :
    Except Fault (Option (List SimpletlvMember)) := do
  let numEntries : UInt8 := UInt8.ofNat table.length
  let r ← match acrid with
    | some acrid =>
      fitting 1 ((table.filter fun e => e.acrid = acrid).map acrEntryMember)
    | none =>
      fitting (numEntries.toNat + 1) (.leaf Tag.acrNumEntries [numEntries] :: table.map acrEntryMember)
  -- we did not find the requested ACRID
  return if r = [] then none else some r

def acrEntryExtended (e : AcrEntry) : Bytes :=
  [if e.accessMethods.length = 2 then 0x08 else 0x06, e.acrid, e.acrtype, e.appletId]
    ++ e.accessMethods.flatMap AcrAccessMethod.toBytes
    ++ (if e.accessMethods.length = 0 then [0x00, 0x00] else []) ++ [0x00]

def acrTableExtended (table : List AcrEntry) : Except Fault Bytes :=
  if ∃ e ∈ table, maxAccessMethods < e.accessMethods.length then .error .assertion
  else fitting (table.length * (7 + 2 * (maxAccessMethods - 1))) (table.flatMap acrEntryExtended)

def cacAcaGetAcrResponse (s : Session τ) (Le : ℕ) (acrid : Option UInt8) (format : AcrFormat) :
    Except Fault (VCardResponse × Session τ) := do
  match format with
  | .simpleTlv =>
    match ← cacAcaGetAcr acrTable acrid with
    -- the requested ACR was not found
    | none => return (vcardMakeResponse Status.errorDataNotFound, s)
    | some acr => acaRespond s Le acr
  | .extended =>
    let buffer ← acrTableExtended acrTable
    vcardResponseNew s buffer buffer.length Le Status.success

/-! ## Applets by AID -/

/-- The member of an entry: its identifier, the tag and length of its AID, and as many bytes of
its structure as the AID has. -/
def aidEntryMember (tag : UInt8) (e : AidEntry) : SimpletlvMember :=
  .leaf tag ([e.id, Tag.acrAid, UInt8.ofNat e.aid.length] ++ e.toBytes.take e.aid.length)

def cacAcaGetServiceTable (table : AppletTable AidEntry) (pkiApplets : ℕ) :
    Except Fault (List SimpletlvMember) := do
  let numEntries := table.numStatic + pkiApplets
  let r ← fitting (numEntries + 1) (.leaf Tag.acrServiceNumEntries [UInt8.ofNat numEntries]
    :: (table.active pkiApplets).map (aidEntryMember Tag.acrServiceEntry))
  if r.length = numEntries + 1 then return r else throw .assertion

def aidEntryExtended (e : AidEntry) : Bytes := [e.id, 0, UInt8.ofNat e.aid.length] ++ e.aid

def serviceTableExtended (table : AppletTable AidEntry) (pkiApplets : ℕ) : Except Fault Bytes :=
  fitting ((table.numStatic + pkiApplets) * (3 + maxAidLen))
    ((table.active pkiApplets).flatMap aidEntryExtended)

def cacAcaGetServiceResponse (s : Session τ) (Le pkiApplets : ℕ) (format : AcrFormat) :
    Except Fault (VCardResponse × Session τ) := do
  match format with
  | .simpleTlv => acaRespond s Le (← cacAcaGetServiceTable serviceTable pkiApplets)
  | .extended =>
    let buffer ← serviceTableExtended serviceTable pkiApplets
    vcardResponseNew s buffer buffer.length Le Status.success

/-- The loop goes from 1 to `num_entries`. -/
def cacAcaGetAmp (table : AmpTable) : Except Fault (List SimpletlvMember) := do
  let entries ← (List.range table.numEntries).mapM fun i =>
    match table.entries[i + 1]? with
    | some e => .ok (aidEntryMember Tag.acrAmpEntry e)
    | none => .error Fault.outOfBounds
  return .leaf Tag.acrAmpNumEntries [UInt8.ofNat table.numEntries] :: entries

def cacAcaGetAmpResponse (s : Session τ) (Le : ℕ) (format : AcrFormat) :
    Except Fault (VCardResponse × Session τ) := do
  match format with
  | .simpleTlv => acaRespond s Le (← cacAcaGetAmp ampTable)
  | .extended => vcardResponseNew s ampTableExtended ampTableExtended.length Le Status.success

/-! ## Applets and their objects -/

/-- Writes `xs` behind what was written, if the space that is left takes it. -/
def putBytes (xs : Bytes) : Bytes × ℕ → Option (Bytes × ℕ)
  | (p, outlen) => if outlen < xs.length then none else some (p ++ xs, outlen - xs.length)

def acrInsEncode (i : CacIns) (o : Bytes × ℕ) : Option (Bytes × ℕ) := do
  let o ← putBytes [i.code, i.config] o
  let o ← if i.hasP1 then putBytes [i.p1] o else some o
  let o ← if i.hasP2 then putBytes [i.p2] o else some o
  let o ← if i.hasData1 then putBytes [i.data1] o else some o
  putBytes [i.acrid] o

def acrInsListEncode : List CacIns → Bytes × ℕ → Option (Bytes × ℕ)
  | [], o => some o
  | i :: is, o => (acrInsEncode i o).bind (acrInsListEncode is)

/-- What `acr_applet_object_encode` writes to an output of `outlen` bytes. -/
def acrAppletObjectEncode (object : AcrObject) (outlen : ℕ) : Option Bytes :=
  ((putBytes [object.id0, object.id1] ([], outlen)).bind (acrInsListEncode object.ins)).map Prod.fst

/-- The size `acr_applet_encode` counts for an instruction. -/
def acrInsLength (i : CacIns) : ℕ := 3 + i.hasP1.toNat + i.hasP2.toNat + i.hasData1.toNat

def acrAppletLength (applet : AcrApplet) : ℕ :=
  2 + (applet.objects.map fun o => 4 + (o.ins.map acrInsLength).sum).sum

/-- The objects of an applet behind `p`, in a buffer of `bufferLen` bytes. -/
def acrObjectsEncode (bufferLen : ℕ) : List AcrObject → Bytes → Except Fault (Option Bytes)
  | [], p => .ok (some p)
  | o :: os, p =>
    if bufferLen < p.length + 2 then .error .outOfBounds
    else
      match acrAppletObjectEncode o (bufferLen - (p.length + 2)) with
      | none => .ok none
      | some obj =>
        acrObjectsEncode bufferLen os (p ++ [Tag.acrObjectAcr, UInt8.ofNat obj.length] ++ obj)

def acrAppletEncode (applet : AcrApplet) : Except Fault (Option Bytes) := do
  let bufferLen := acrAppletLength applet
  match ← acrObjectsEncode bufferLen applet.objects [applet.id, UInt8.ofNat applet.objects.length] with
  | none => return none
  | some p => if p.length = bufferLen then return some p else throw .assertion

/-- The record of the first active object with this identifier. -/
def cacAcaGetAppletAcrCoid (table : AppletTable AcrApplet) (pkiApplets : ℕ) (coid : Bytes) :
    Option SimpletlvMember :=
  (table.active pkiApplets).findSome? fun applet =>
    applet.objects.findSome? fun o =>
      if [o.id0, o.id1] = coid then
        (acrAppletObjectEncode o (acrMaxInstructions * 6 + 2)).map (.leaf Tag.acrObjectAcr)
      else none

def aidToAppletId (table : AppletTable AidEntry) (pkiApplets : ℕ) (aid : Bytes) : UInt8 :=
  match (table.active pkiApplets).find? fun e => e.aid = aid with
  | some e => e.id
  | none => 0x00

/-- The records of these applets; `none` when one cannot be encoded. -/
def acrAppletMembers : List AcrApplet → Except Fault (Option (List SimpletlvMember))
  | [] => .ok (some [])
  | a :: as => do
    match ← acrAppletEncode a with
    | none => return none
    | some v =>
      match ← acrAppletMembers as with
      | none => return none
      | some ms => return some (.leaf Tag.acrAppletAcr v :: ms)

/-- `cac_aca_get_applet_acr` for one AID, or for all applets without one. -/
def cacAcaGetAppletAcr (services : AppletTable AidEntry) (table : AppletTable AcrApplet)
    (pkiApplets : ℕ) (aid : Bytes) : Except Fault (Option (List SimpletlvMember)) := do
  let numApplets := table.numStatic + pkiApplets
  if aid ≠ [] then
    let appletId := aidToAppletId services pkiApplets aid
    if appletId = 0 then return none
    match ← acrAppletMembers ((table.active pkiApplets).filter fun a => a.id = appletId) with
    | none => return none
    | some r => return some (← fitting 1 r)
  else
    match ← acrAppletMembers (table.active pkiApplets) with
    | none => return none
    | some r =>
      return some (← fitting (numApplets + 1)
        (.leaf Tag.acrNumApplets [UInt8.ofNat numApplets] :: r))

/-- The objects of an applet in the compressed form: each has its length before it. The space
counted as left does not count these lengths. -/
def objectsExtended (bufferLen : ℕ) : List AcrObject → Bytes × ℕ →
    Except Fault (Option (Bytes × ℕ))
  | [], o => .ok (some o)
  | o :: os, (p, plen) =>
    match acrAppletObjectEncode o plen with
    | none => .ok none
    | some obj => do
      let p ← fitting bufferLen (p ++ [UInt8.ofNat obj.length] ++ obj)
      objectsExtended bufferLen os (p, plen - obj.length)

def appletsExtended (bufferLen : ℕ) : List AcrApplet → Bytes × ℕ →
    Except Fault (Option (Bytes × ℕ))
  | [], o => .ok (some o)
  | a :: as, (p, plen) =>
    if plen < 3 then .ok none
    else do
      -- the length of the record is written when its objects are
      let start ← fitting bufferLen (p ++ [0x00, a.id, UInt8.ofNat a.objects.length])
      match ← objectsExtended bufferLen a.objects (start, plen - 3) with
      | none => return none
      | some (q, plen) =>
        appletsExtended bufferLen as (q.set p.length (UInt8.ofNat (q.length - p.length - 1)), plen)

def appletsTableExtended (table : AppletTable AcrApplet) (pkiApplets : ℕ) :
    Except Fault (Option Bytes) := do
  let bufferLen := (table.numStatic + pkiApplets)
    * (3 + acrMaxAppletObjects * (3 + acrMaxInstructions * 6))
  match ← appletsExtended bufferLen (table.active pkiApplets) ([], bufferLen) with
  | none => return none
  | some (p, _) => return some p

/-- What is asked for: everything, the record of one applet or that of one object. -/
inductive AcrQuery
  | all
  | aid (aid : Bytes)
  | coid (coid : Bytes)
  deriving DecidableEq, Repr

/-- `cac_aca_get_applet_acr_response`; the compressed form leaves a NULL response when it fails. -/
def cacAcaGetAppletAcrResponse (s : Session τ) (Le pkiApplets : ℕ) (query : AcrQuery)
    (format : AcrFormat) : Except Fault (Option VCardResponse × Session τ) := do
  match format with
  | .simpleTlv =>
    match query with
    | .coid coid =>
      match cacAcaGetAppletAcrCoid appletsTable pkiApplets coid with
      | none => return (some (vcardMakeResponse Status.errorWrongParametersInData), s)
      | some acr => let (r, s) ← acaRespond s Le [acr]; return (some r, s)
    | .aid aid =>
      match ← cacAcaGetAppletAcr serviceTable appletsTable pkiApplets aid with
      | none => return (some (vcardMakeResponse Status.errorDataNotFound), s)
      | some acr => let (r, s) ← acaRespond s Le acr; return (some r, s)
    | .all =>
      match ← cacAcaGetAppletAcr serviceTable appletsTable pkiApplets [] with
      | none => return (some (vcardMakeResponse Status.errorGeneral), s)
      | some acr => let (r, s) ← acaRespond s Le acr; return (some r, s)
  | .extended =>
    match ← appletsTableExtended appletsTable pkiApplets with
    | none => return (none, s)
    | some buffer =>
      let (r, s) ← vcardResponseNew s buffer buffer.length Le Status.success
      return (some r, s)

end Libcacard
