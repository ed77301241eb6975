import Libcacard.CacFiles

/-!
# The tables of the ACA applet

The access control rules, the applets and their objects with the rules for each instruction, and
the applets and method providers by AID. The program passes entries around as the bytes of their
structures, so the layout of a structure is part of what is sent.
-/

namespace Libcacard

open Machine

/-- An `unsigned int` in memory. -/
def uintBytes (n : ℕ) : Bytes :=
  [UInt8.ofNat n, UInt8.ofNat (n / 2 ^ 8), UInt8.ofNat (n / 2 ^ 16), UInt8.ofNat (n / 2 ^ 24)]

/-- An array of `n` bytes that holds `xs` and then zeros. -/
def zeroPadded (n : ℕ) (xs : Bytes) : Bytes := xs ++ List.replicate (n - xs.length) 0

/-! ## Access control rules -/

def maxAccessMethods : ℕ := 2

inductive AcrType
  | always
  | never
  | xauth
  | xauthOrPin
  | secureChannelGp
  | acrPinAlways
  | pin
  | xauthThenPin
  | updateOnce
  | pinThenXauth
  | secureChannelIso
  | xauthAndPin
  deriving DecidableEq, Repr

def AcrType.code : AcrType → UInt8
  | always => 0x00
  | never => 0x01
  | xauth => 0x02
  | xauthOrPin => 0x03
  | secureChannelGp => 0x04
  | acrPinAlways => 0x05
  | pin => 0x06
  | xauthThenPin => 0x07
  | updateOnce => 0x08
  | pinThenXauth => 0x09
  | secureChannelIso => 0x0b
  | xauthAndPin => 0x0c

structure AcrAccessMethod where
  providerId : UInt8
  keyIDOrReference : UInt8
  deriving DecidableEq, Repr

def AcrAccessMethod.toBytes (m : AcrAccessMethod) : Bytes := [m.providerId, m.keyIDOrReference]

structure AcrEntry where
  acrid : UInt8
  acrtype : UInt8
  appletId : UInt8
  accessMethods : List AcrAccessMethod
  accessMethods_le : accessMethods.length ≤ maxAccessMethods := by decide
  deriving DecidableEq, Repr

/-- The bytes of a `struct acr_entry`: three characters, one byte of padding, the number of
methods and the methods. -/
def AcrEntry.toBytes (e : AcrEntry) : Bytes :=
  [e.acrid, e.acrtype, e.appletId, 0] ++ uintBytes e.accessMethods.length
    ++ zeroPadded (2 * maxAccessMethods) (e.accessMethods.flatMap AcrAccessMethod.toBytes)

def acrTable : List AcrEntry :=
  [⟨0x00, AcrType.always.code, 0x00, [], by decide⟩,
    ⟨0x01, AcrType.never.code, 0x00, [], by decide⟩,
    ⟨0x02, AcrType.always.code, 0x1f, [], by decide⟩,
    ⟨0x06, AcrType.pin.code, 0x00, [⟨0x1e, 0x00⟩], by decide⟩,
    ⟨0x04, AcrType.secureChannelGp.code, 0x1f, [⟨0x1f, 0x21⟩], by decide⟩,
    ⟨0x08, AcrType.xauthOrPin.code, 0x00, [⟨0x1d, 0x01⟩, ⟨0x1e, 0x01⟩], by decide⟩,
    ⟨0x09, AcrType.xauth.code, 0x00, [⟨0x1d, 0x01⟩], by decide⟩,
    ⟨0x0a, AcrType.xauthOrPin.code, 0x00, [⟨0x1d, 0x03⟩, ⟨0x1e, 0x01⟩], by decide⟩,
    ⟨0x0b, AcrType.xauth.code, 0x00, [⟨0x1d, 0x00⟩], by decide⟩,
    ⟨0x10, AcrType.always.code, 0x1e, [], by decide⟩,
    ⟨0x11, AcrType.always.code, 0x1d, [], by decide⟩]

/-! ## Applets by AID -/

def maxAidLen : ℕ := 7

/-- A `struct applet_entry` or a `struct amp_entry`, which have one layout. -/
structure AidEntry where
  id : UInt8
  aid : Bytes
  aid_le : aid.length ≤ maxAidLen := by decide
  deriving DecidableEq, Repr

/-- The identifier, three bytes of padding, the length of the AID, the AID and one byte of
padding. -/
def AidEntry.toBytes (e : AidEntry) : Bytes :=
  [e.id, 0, 0, 0] ++ uintBytes e.aid.length ++ zeroPadded (maxAidLen + 1) e.aid

/-- A table whose first ten entries are those of the PKI applets, and of whose other entries
there are `numStatic`. -/
structure AppletTable (α : Type) where
  numStatic : ℕ
  entries : List α

/-- The entries that are not skipped as those of unused PKI applets. -/
def AppletTable.active {α : Type} (table : AppletTable α) (pkiApplets : ℕ) : List α :=
  (table.entries.zipIdx.filter fun (_, i) => ¬ (pkiApplets ≤ i ∧ i < 10)).map Prod.fst

def serviceTable : AppletTable AidEntry where
  numStatic := 12
  entries :=
    [⟨0x61, [0xa0, 0x00, 0x00, 0x00, 0x79, 0x01, 0x00], by decide⟩,
      ⟨0x62, [0xa0, 0x00, 0x00, 0x00, 0x79, 0x01, 0x01], by decide⟩,
      ⟨0x63, [0xa0, 0x00, 0x00, 0x00, 0x79, 0x01, 0x02], by decide⟩,
      ⟨0x64, [0xa0, 0x00, 0x00, 0x00, 0x79, 0x01, 0x03], by decide⟩,
      ⟨0x65, [0xa0, 0x00, 0x00, 0x00, 0x79, 0x01, 0x04], by decide⟩,
      ⟨0x66, [0xa0, 0x00, 0x00, 0x00, 0x79, 0x01, 0x05], by decide⟩,
      ⟨0x67, [0xa0, 0x00, 0x00, 0x00, 0x79, 0x01, 0x06], by decide⟩,
      ⟨0x68, [0xa0, 0x00, 0x00, 0x00, 0x79, 0x01, 0x07], by decide⟩,
      ⟨0x69, [0xa0, 0x00, 0x00, 0x00, 0x79, 0x01, 0x08], by decide⟩,
      ⟨0x6a, [0xa0, 0x00, 0x00, 0x00, 0x79, 0x01, 0x09], by decide⟩,
      ⟨0x40, [0xa0, 0x00, 0x00, 0x01, 0x16, 0x30, 0x00], by decide⟩,
      ⟨0x4f, [0xa0, 0x00, 0x00, 0x01, 0x16, 0xdb, 0x00], by decide⟩,
      ⟨0x4b, [0xa0, 0x00, 0x00, 0x00, 0x79, 0x02, 0xfb], by decide⟩,
      ⟨0x41, [0xa0, 0x00, 0x00, 0x00, 0x79, 0x02, 0x00], by decide⟩,
      ⟨0x42, [0xa0, 0x00, 0x00, 0x00, 0x79, 0x02, 0x01], by decide⟩,
      ⟨0x4e, [0xa0, 0x00, 0x00, 0x00, 0x79, 0x02, 0xfe], by decide⟩,
      ⟨0x4d, [0xa0, 0x00, 0x00, 0x00, 0x79, 0x02, 0xfd], by decide⟩,
      ⟨0x50, [0xa0, 0x00, 0x00, 0x00, 0x79, 0x02, 0xf2], by decide⟩,
      ⟨0x51, [0xa0, 0x00, 0x00, 0x00, 0x79, 0x02, 0xf0], by decide⟩,
      ⟨0x52, [0xa0, 0x00, 0x00, 0x00, 0x79, 0x02, 0xf1], by decide⟩,
      ⟨0x44, [0xa0, 0x00, 0x00, 0x00, 0x79, 0x12, 0x01], by decide⟩,
      ⟨0x45, [0xa0, 0x00, 0x00, 0x00, 0x79, 0x12, 0x02], by decide⟩]

/-- The array has five entries, of which the table announces `numEntries`. -/
structure AmpTable where
  numEntries : ℕ
  entries : List AidEntry

def ampTable : AmpTable where
  numEntries := 3
  entries :=
    [⟨0x1f, [0xa0, 0x00, 0x00, 0x00, 0x79, 0x03, 0x00], by decide⟩,
      ⟨0x1e, [0xa0, 0x00, 0x00, 0x00, 0x79, 0x03, 0x00], by decide⟩,
      ⟨0x1d, [0xa0, 0x00, 0x00, 0x00, 0x79, 0x03, 0x00], by decide⟩,
      ⟨0x00, [], by decide⟩,
      ⟨0x00, [], by decide⟩]

def ampTableExtended : Bytes :=
  [0x1f, 0x00, 0x07, 0xa0, 0x00, 0x00, 0x00, 0x79, 0x03, 0x00, 0x12, 0x00, 0x00, 0x00,
    0x1e, 0x00, 0x07, 0xa0, 0x00, 0x00, 0x00, 0x79, 0x03, 0x00, 0x10, 0x01, 0x00, 0x00,
    0x1d, 0x00, 0x07, 0xa0, 0x00, 0x00, 0x00, 0x79, 0x03, 0x00, 0x01, 0x00, 0x00, 0x00]

/-! ## Applets and their objects -/

def acrMaxInstructions : ℕ := 5
def acrMaxAppletObjects : ℕ := 5

structure CacIns where
  code : UInt8
  acrid : UInt8
  config : UInt8
  p1 : UInt8
  p2 : UInt8
  data1 : UInt8
  deriving DecidableEq, Repr

namespace CacIns

def hasP1 (i : CacIns) : Bool := i.config &&& 0x01 ≠ 0
def hasP2 (i : CacIns) : Bool := i.config &&& 0x02 ≠ 0
def hasData1 (i : CacIns) : Bool := i.config &&& 0x04 ≠ 0

/-- An instruction without a configuration. -/
def plain (code acrid : UInt8) : CacIns := ⟨code, acrid, 0x00, 0, 0, 0⟩

def withP1 (code acrid p1 : UInt8) : CacIns := ⟨code, acrid, 0x01, p1, 0, 0⟩

def withData1 (code acrid data1 : UInt8) : CacIns := ⟨code, acrid, 0x04, 0, 0, data1⟩

end CacIns

structure AcrObject where
  id0 : UInt8
  id1 : UInt8
  ins : List CacIns
  ins_le : ins.length ≤ acrMaxInstructions := by decide
  deriving DecidableEq, Repr

structure AcrApplet where
  id : UInt8
  objects : List AcrObject
  objects_le : objects.length ≤ acrMaxAppletObjects := by decide
  deriving DecidableEq, Repr

namespace Ins

@[match_pattern] abbrev cacGetProperties : UInt8 := 0x56
@[match_pattern] abbrev cacGetAcr : UInt8 := 0x4c
@[match_pattern] abbrev cacReadBuffer : UInt8 := 0x52
@[match_pattern] abbrev cacUpdateBuffer : UInt8 := 0x58
@[match_pattern] abbrev cacSignDecrypt : UInt8 := 0x42

end Ins

/-- The entry of a PKI applet: its object, and its VERIFY. -/
def pkiAcrApplet (id i : UInt8) : AcrApplet :=
  ⟨id,
    [⟨0x01, i, [.plain Ins.cacUpdateBuffer 0x04, .plain Ins.cacReadBuffer 0x00,
        .plain Ins.cacSignDecrypt 0x06], by simp [acrMaxInstructions]⟩,
      ⟨0xff, 0xff, [.plain Ins.verify 0x10], by simp [acrMaxInstructions]⟩],
    by simp [acrMaxAppletObjects]⟩

/-- The object `FF FF` most applets end with. -/
def commonAcrObject : AcrObject :=
  ⟨0xff, 0xff, [.withP1 Ins.externalAuthenticate 0x11 0x00, .plain Ins.getChallenge 0x11,
    .plain Ins.verify 0x10], by decide⟩

/-- The only object of an applet without buffers. -/
def emptyAcrObject : AcrObject :=
  ⟨0xff, 0xff, [.plain Ins.cacUpdateBuffer 0x04, .plain Ins.cacReadBuffer 0x00,
    .withP1 Ins.externalAuthenticate 0x11 0x00, .plain Ins.getChallenge 0x11,
    .plain Ins.verify 0x10], by decide⟩

def appletsTable : AppletTable AcrApplet where
  numStatic := 13
  entries :=
    [pkiAcrApplet 0x61 0x00, pkiAcrApplet 0x62 0x01, pkiAcrApplet 0x63 0x02,
      pkiAcrApplet 0x64 0x03, pkiAcrApplet 0x65 0x04, pkiAcrApplet 0x66 0x05,
      pkiAcrApplet 0x67 0x06, pkiAcrApplet 0x68 0x07, pkiAcrApplet 0x69 0x08,
      pkiAcrApplet 0x6a 0x09,
      ⟨0x1f, [⟨0xff, 0xff, [.plain Ins.verify 0x00], by decide⟩], by decide⟩,
      ⟨0xf4, [⟨0xdb, 0x00, [.plain Ins.cacUpdateBuffer 0x04, .plain Ins.cacReadBuffer 0x00],
        by decide⟩, commonAcrObject], by decide⟩,
      ⟨0x4b, [⟨0x02, 0xfb, [.plain Ins.cacUpdateBuffer 0x06, .plain Ins.cacReadBuffer 0x00],
        by decide⟩, commonAcrObject], by decide⟩,
      ⟨0x41, [⟨0x02, 0x00, [.plain Ins.cacUpdateBuffer 0x09,
        .withData1 Ins.cacReadBuffer 0x00 0x01, .plain Ins.cacReadBuffer 0x08], by decide⟩,
        commonAcrObject], by decide⟩,
      ⟨0x42, [⟨0x02, 0x01, [.plain Ins.cacUpdateBuffer 0x0b,
        .withData1 Ins.cacReadBuffer 0x00 0x01, .plain Ins.cacReadBuffer 0x0a], by decide⟩,
        commonAcrObject], by decide⟩,
      ⟨0x40, [⟨0x30, 0x00, [.plain Ins.cacUpdateBuffer 0x04, .plain Ins.cacReadBuffer 0x00,
          .plain Ins.readBinary 0x00], by decide⟩,
        ⟨0x60, 0x10, [.plain Ins.cacUpdateBuffer 0x04, .withData1 Ins.cacReadBuffer 0x00 0x01,
          .plain Ins.cacReadBuffer 0x06], by decide⟩,
        ⟨0x60, 0x30, [.plain Ins.cacUpdateBuffer 0x04, .withData1 Ins.cacReadBuffer 0x00 0x01,
          .plain Ins.cacReadBuffer 0x06], by decide⟩,
        ⟨0x90, 0x00, [.plain Ins.cacUpdateBuffer 0x04, .plain Ins.cacReadBuffer 0x00],
          by decide⟩,
        commonAcrObject], by decide⟩,
      ⟨0x4e, [⟨0x02, 0xfe, [.plain Ins.cacUpdateBuffer 0x04, .plain Ins.cacReadBuffer 0x00],
        by decide⟩, commonAcrObject], by decide⟩,
      ⟨0x4d, [⟨0x02, 0xfd, [.plain Ins.cacUpdateBuffer 0x06,
        .withData1 Ins.cacReadBuffer 0x00 0x01, .plain Ins.cacReadBuffer 0x06], by decide⟩,
        commonAcrObject], by decide⟩,
      ⟨0x50, [emptyAcrObject], by decide⟩,
      ⟨0x51, [emptyAcrObject], by decide⟩,
      ⟨0x52, [emptyAcrObject], by decide⟩,
      ⟨0x44, [⟨0x12, 0x01, [.plain Ins.cacUpdateBuffer 0x06,
        .withData1 Ins.cacReadBuffer 0x00 0x01, .plain Ins.cacReadBuffer 0x06], by decide⟩,
        commonAcrObject], by decide⟩,
      ⟨0x45, [⟨0x12, 0x02, [.plain Ins.cacUpdateBuffer 0x06,
        .withData1 Ins.cacReadBuffer 0x00 0x01, .plain Ins.cacReadBuffer 0x06], by decide⟩,
        commonAcrObject], by decide⟩]

end Libcacard
