import Libcacard.EmulNss

/-!
# The RSA operation, byte by byte

`vcard_emul_rsa_op` looks for a signature in its buffer, and packs what it decrypted into it, by
index. An index outside the buffer is a fault.
-/

namespace Libcacard

open Machine

variable {σ : Type} (nss : Pk11 σ)

/-! ## The buffer -/

def bufferGet (buffer : Bytes) (i : ℕ) : Except Fault UInt8 :=
  match buffer[i]? with
  | some c => .ok c
  | none => .error .outOfBounds

/-- `memcpy` of some bytes to an index. -/
def bufferPut (buffer : Bytes) (i : ℕ) (xs : Bytes) : Except Fault Bytes :=
  if i + xs.length ≤ buffer.length then .ok (splice buffer i xs) else .error .outOfBounds

/-- The loop over the rsa signature pad, from `i` on with `rest` bytes to go. -/
def scanPad (buffer : Bytes) : ℕ → ℕ → Except Fault ℕ
  | i, 0 => .ok i
  | i, rest + 1 => do
    if (← bufferGet buffer i) ≠ 0xff then return i
    scanPad buffer (i + 1) rest

/-- The hash, if the buffer is a properly formatted PKCS #1 signature. -/
def signatureHash (buffer : Bytes) : Except Fault (Option Bytes) := do
  if (← bufferGet buffer 0) ≠ 0 then return none
  if (← bufferGet buffer 1) ≠ 1 then return none
  let i ← scanPad buffer 2 (buffer.length - 2)
  if ¬ i < buffer.length then return none
  if (← bufferGet buffer i) ≠ 0 then return none
  return some (buffer.drop (i + 1))

/-- The payload packaged up in PKCS #1, behind a constant padding. -/
def packPayload (buffer payload : Bytes) : Except Fault (Option Bytes) := do
  let padLen : ℤ := buffer.length - payload.length
  if padLen < 4 then return none
  let buffer ← bufferPut buffer 0 [0x00]
  let buffer ← bufferPut buffer 1 [0x02]
  let padLen := (padLen - 3).toNat
  let buffer ← bufferPut buffer 2 (List.replicate padLen 0x03)
  let buffer ← bufferPut buffer (padLen + 2) [0x00]
  let buffer ← bufferPut buffer (padLen + 3) payload
  return some buffer

/-! ## The operation -/

/-- The operation on a token that does not do it raw, or claims to and fails. -/
def rsaFallback (t : NssToken σ) (key : VCardKey) (buffer : Bytes) :
    Except Fault (UInt16 × Bytes × NssToken σ) := do
  match ← signatureHash buffer with
  | some hash =>
    let (r, slot) := nss.sign t.slot key hash
    match r with
    | .error e => return (vcardEmulMapError e, buffer, { t with slot := slot })
    | .ok signature =>
      if signature.length ≠ buffer.length then throw .assertion
      let buffer ← bufferPut buffer 0 signature
      return (Status.success, buffer,
        { t with slot := slot, failedX509 := Function.update t.failedX509 key .true })
  | none =>
    let (r, slot) := nss.privDecryptPkcs1 t.slot key buffer
    match r with
    | .error e => return (vcardEmulMapError e, buffer, { t with slot := slot })
    | .ok payload =>
      match ← packPayload buffer payload with
      | none => return (Status.errorGeneral, buffer, { t with slot := slot })
      | some buffer => return (Status.success, buffer,
          { t with slot := slot, failedX509 := Function.update t.failedX509 key .true })

/-- `vcard_emul_rsa_op` -/
def rsaOpBytes (t : NssToken σ) (key : VCardKey) (buffer : Bytes) :
    Except Fault (UInt16 × Bytes × NssToken σ) :=
  if ¬ t.nssEmulInit then .ok (Status.errorConditionNotSatisfied, buffer, t)
  else
    let (found, slot) := nss.findPrivateKeyFromCert t.slot key
    let t := { t with slot := slot }
    if ¬ found then .ok (Status.errorConditionNotSatisfied, buffer, t)
    else if buffer.length ≠ nss.signatureLen key then .ok (Status.errorDataInvalid, buffer, t)
    else
      match rsaRaw nss t key buffer with
      | (some (status, out), t) => .ok (status, out, t)
      | (none, t) => rsaFallback nss t key buffer

/-- The operation gets to its fallback. -/
def FallsBack (t : NssToken σ) (key : VCardKey) (buffer : Bytes) : Prop :=
  t.nssEmulInit ∧ (nss.findPrivateKeyFromCert t.slot key).1
    ∧ (rsaRaw nss { t with slot := (nss.findPrivateKeyFromCert t.slot key).2 } key buffer).1 = none

/-! ## PKCS #1 -/

/-- What is signed for a hash with a key of `k` bytes. -/
def signatureBlock (k : ℕ) (hash : Bytes) : Bytes :=
  [0x00, 0x01] ++ List.replicate (k - hash.length - 3) 0xff ++ 0x00 :: hash

/-- `00 01 FF .. FF 00` and the rest -/
def SignatureShaped (buffer : Bytes) : Prop :=
  ∃ n hash, buffer = [0x00, 0x01] ++ List.replicate n 0xff ++ 0x00 :: hash

/-- A plaintext behind a padding of at least eight bytes, none of them zero. -/
structure Pkcs1Block (block payload : Bytes) : Prop where
  padded : ∃ pad, block = [0x00, 0x02] ++ pad ++ 0x00 :: payload ∧ 8 ≤ pad.length
    ∧ ∀ c ∈ pad, c ≠ 0x00

/-- The plaintext in a block. -/
def pkcs1Unpad : Bytes → Option Bytes
  | 0x00 :: 0x02 :: block =>
    if 8 ≤ (block.takeWhile (· ≠ 0x00)).length ∧ block.dropWhile (· ≠ 0x00) ≠ [] then
      some ((block.dropWhile (· ≠ 0x00)).drop 1)
    else none
  | _ => none

/-- What NSS does with PKCS #1, over the raw operation of a key. -/
structure Pk11.Pkcs1 (raw : VCardKey → Bytes → Bytes) : Prop where
  length : ∀ key c, c.length = nss.signatureLen key → (raw key c).length = nss.signatureLen key
  decryptRaw : ∀ s key c out, (nss.privDecryptRaw s key c).1 = .ok out → out = raw key c
  sign : ∀ s key hash out, (nss.sign s key hash).1 = .ok out →
    hash.length + 11 ≤ nss.signatureLen key
      ∧ out = raw key (signatureBlock (nss.signatureLen key) hash)
  decrypt : ∀ s key c payload, (nss.privDecryptPkcs1 s key c).1 = .ok payload →
    Pkcs1Block (raw key c) payload

/-- The two operations agree, but for the padding of a plaintext. -/
structure AgreesWithRaw (k : ℕ) (buffer out rawOut : Bytes) : Prop where
  signed : SignatureShaped buffer → out = rawOut
  decrypted : ¬ SignatureShaped buffer → out.length = k ∧ ∃ payload,
    Pkcs1Block out payload ∧ Pkcs1Block rawOut payload
      ∧ pkcs1Unpad out = some payload ∧ pkcs1Unpad rawOut = some payload

end Libcacard
