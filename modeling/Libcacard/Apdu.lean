import Libcacard.Common

/-!
# Commands

A command is decoded from raw bytes into the four header bytes, the body and the length of the
answer it asks for. A `VCardAPDU` is one that was decoded: it carries the bytes and what decoding
their lengths gave.
-/

namespace Libcacard

open Machine

namespace Status

abbrev success : UInt16 := 0x9000
abbrev warning : UInt16 := 0x6200
abbrev warningRetCorupt : UInt16 := 0x6281
abbrev warningBufEndBeforeLe : UInt16 := 0x6282
abbrev warningInvalidFileSelected : UInt16 := 0x6283
abbrev warningFciFormatInvalid : UInt16 := 0x6284
abbrev warningChange : UInt16 := 0x6300
abbrev warningFileFilled : UInt16 := 0x6381
abbrev excError : UInt16 := 0x6400
abbrev excErrorChange : UInt16 := 0x6500
abbrev excErrorMemoryFailure : UInt16 := 0x6581
abbrev errorWrongLength : UInt16 := 0x6700
abbrev errorClaNotSupported : UInt16 := 0x6800
abbrev errorChannelNotSupported : UInt16 := 0x6881
abbrev errorSecureNotSupported : UInt16 := 0x6882
abbrev errorCommandNotSupported : UInt16 := 0x6900
abbrev errorCommandIncompatibleWithFile : UInt16 := 0x6981
abbrev errorSecurityNotSatisfied : UInt16 := 0x6982
abbrev errorAuthenticationBlocked : UInt16 := 0x6983
abbrev errorDataInvalid : UInt16 := 0x6984
abbrev errorConditionNotSatisfied : UInt16 := 0x6985
abbrev errorDataNoEf : UInt16 := 0x6986
abbrev errorSmObjectMissing : UInt16 := 0x6987
abbrev errorSmObjectIncorrect : UInt16 := 0x6988
abbrev errorWrongParameters : UInt16 := 0x6a00
abbrev errorWrongParametersInData : UInt16 := 0x6a80
abbrev errorFunctionNotSupported : UInt16 := 0x6a81
abbrev errorFileNotFound : UInt16 := 0x6a82
abbrev errorRecordNotFound : UInt16 := 0x6a83
abbrev errorNoSpaceForFile : UInt16 := 0x6a84
abbrev errorLcTlvInconsistent : UInt16 := 0x6a85
abbrev errorP1P2Incorrect : UInt16 := 0x6a86
abbrev errorLcP1P2Inconsistent : UInt16 := 0x6a87
abbrev errorDataNotFound : UInt16 := 0x6a88
abbrev errorWrongParameters2 : UInt16 := 0x6b00
abbrev errorInsCodeInvalid : UInt16 := 0x6d00
abbrev errorClaInvalid : UInt16 := 0x6e00
abbrev errorGeneral : UInt16 := 0x6f00

end Status

namespace Ins

@[match_pattern] abbrev externalAuthenticate : UInt8 := 0x82
@[match_pattern] abbrev getChallenge : UInt8 := 0x84
@[match_pattern] abbrev readBinary : UInt8 := 0xb0
@[match_pattern] abbrev getData : UInt8 := 0xca
@[match_pattern] abbrev selectFile : UInt8 := 0xa4
@[match_pattern] abbrev verify : UInt8 := 0x20
@[match_pattern] abbrev getResponse : UInt8 := 0xc0

end Ins

inductive VCardAPDUType
  | iso
  | rfu
  | pts
  | proprietary
  deriving DecidableEq, Repr

/-- What `vcard_apdu_set_class` decodes. -/
structure ApduClass where
  aChannel : ℕ
  aSecureMessaging : ℕ
  aType : ℕ
  aGenType : VCardAPDUType
  deriving DecidableEq, Repr

def vcardApduSetClass (aCla : UInt8) : ApduClass :=
  let aType := (aCla &&& 0xf0).toNat
  match aType with
  | 0x00 | 0x80 | 0x90 | 0xa0 => ⟨(aCla &&& 3).toNat, (aCla &&& 0xe).toNat, aType, .iso⟩
  | 0xb0 | 0xc0 => ⟨0, 0, aType, .iso⟩
  -- reserved for future use
  | 0x10 | 0x20 | 0x30 | 0x40 | 0x50 | 0x60 | 0x70 => ⟨0, 0, aType, .rfu⟩
  | _ => ⟨0, 0, aType, if aCla = 0xff then .pts else .proprietary⟩

/-- The lengths of the body and of the answer, and where the body is in the raw command. -/
structure ApduLengths where
  aLc : ℕ
  aLe : ℕ
  aBody : Option ℕ
  deriving DecidableEq, Repr

def bebytes2ushort (hi lo : UInt8) : ℕ := 256 * hi.toNat + lo.toNat

/-- `vcard_apdu_set_length`, by table 5 of 7816-4 part 4; a command it rejects gets a status. -/
def vcardApduSetLength (aData : Bytes) : Except Fault (Except UInt16 ApduLengths) :=
  let aLen := aData.length
  match aLen - 4 with
  | 0 => .ok (.ok ⟨0, 0, none⟩)
  | 1 => do
    let ahLe ← readByte aData 4
    return .ok ⟨0, if ahLe ≠ 0 then ahLe.toNat else 256, none⟩
  | L => do
    let ahLe ← readByte aData 4
    if ahLe = 0 then
      -- extended lengths
      if L < 3 then return .error Status.errorWrongLength
      let hi ← readByte aData 5
      let lo ← readByte aData 6
      let Le := bebytes2ushort hi lo
      if L = 3 then return .ok ⟨0, if Le ≠ 0 then Le else 65536, none⟩
      if Le = 0 then return .error Status.errorWrongLength
      if L = Le + 3 then return .ok ⟨Le, 0, some 7⟩
      if L = Le + 5 then
        let hi ← readByte aData (aLen - 2)
        let lo ← readByte aData (aLen - 1)
        let le := bebytes2ushort hi lo
        return .ok ⟨Le, if le ≠ 0 then le else 65536, some 7⟩
      return .error Status.errorWrongLength
    let aLc := ahLe.toNat
    if L = aLc + 1 then return .ok ⟨aLc, 0, some 5⟩
    if L = aLc + 2 then
      let le ← readByte aData (aLen - 1)
      return .ok ⟨aLc, if le ≠ 0 then le.toNat else 256, some 5⟩
    return .error Status.errorWrongLength

/-- A command `vcard_apdu_new` accepted. -/
structure VCardAPDU where
  aData : Bytes
  lengths : ApduLengths
  header_le : 4 ≤ aData.length
  decoded : vcardApduSetLength aData = .ok (.ok lengths)

namespace VCardAPDU

variable (apdu : VCardAPDU)

def aCla : UInt8 := apdu.aData.get ⟨0, Nat.lt_of_lt_of_le (by decide) apdu.header_le⟩
def aIns : UInt8 := apdu.aData.get ⟨1, Nat.lt_of_lt_of_le (by decide) apdu.header_le⟩
def aP1 : UInt8 := apdu.aData.get ⟨2, Nat.lt_of_lt_of_le (by decide) apdu.header_le⟩
def aP2 : UInt8 := apdu.aData.get ⟨3, Nat.lt_of_lt_of_le (by decide) apdu.header_le⟩

def aLen : ℕ := apdu.aData.length
def aLc : ℕ := apdu.lengths.aLc
def aLe : ℕ := apdu.lengths.aLe

def aChannel : ℕ := (vcardApduSetClass apdu.aCla).aChannel
def aSecureMessaging : ℕ := (vcardApduSetClass apdu.aCla).aSecureMessaging
def aType : ℕ := (vcardApduSetClass apdu.aCla).aType
def aGenType : VCardAPDUType := (vcardApduSetClass apdu.aCla).aGenType

/-- The `a_Lc` bytes at `a_body`. -/
def body : Bytes :=
  match apdu.lengths.aBody with
  | none => []
  | some p => (apdu.aData.drop p).take apdu.aLc

end VCardAPDU

/-- The command decoded from raw bytes, or the status it is rejected with. -/
def vcardApduNew (rawApdu : Bytes) : Except Fault (Except UInt16 VCardAPDU) :=
  if h : rawApdu.length < 4 then .ok (.error Status.errorWrongLength)
  else
    match hl : vcardApduSetLength rawApdu with
    | .error e => .error e
    | .ok (.error status) => .ok (.error status)
    | .ok (.ok lengths) => .ok (.ok ⟨rawApdu, lengths, Nat.le_of_not_lt h, hl⟩)

end Libcacard
