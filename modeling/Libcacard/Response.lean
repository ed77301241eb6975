import Libcacard.Emul

/-!
# Responses

A response is the bytes that are sent back, with the status word behind the data. A payload
longer than the command asked for is kept as the pending response, and the command is answered by
how much there is.
-/

namespace Libcacard

open Machine

inductive VCardStatus
  | done
  | next
  | fail
  deriving DecidableEq, Repr

inductive VCardResponseBufferType
  | malloc
  | mallocData
  | mallocStruct
  | static
  deriving DecidableEq, Repr

/-- `bData` has room for the two status bytes behind its `bLen` bytes of data. -/
structure VCardResponse where
  bData : Bytes
  bStatus : UInt16
  bSw1 : UInt8
  bSw2 : UInt8
  bLen : ℕ
  bTotalLen : ℕ
  bType : VCardResponseBufferType
  deriving DecidableEq, Repr

/-- The pending response: `current` is what was delivered, `len` what is left. -/
structure VCardBufferResponse where
  buffer : Bytes
  current : ℕ
  len : ℕ
  current_add_len : current + len = buffer.length
  deriving DecidableEq, Repr

namespace VCardBufferResponse

/-- `vcard_buffer_response_new` -/
def ofBytes (buffer : Bytes) : VCardBufferResponse := ⟨buffer, 0, buffer.length, Nat.zero_add _⟩

def remaining (b : VCardBufferResponse) : Bytes := b.buffer.drop b.current

/-- `current += n; len -= n` -/
def advance (b : VCardBufferResponse) (n : ℕ) (h : n ≤ b.len) : VCardBufferResponse :=
  ⟨b.buffer, b.current + n, b.len - n, by have := b.current_add_len; omega⟩

theorem length_remaining (b : VCardBufferResponse) : b.remaining.length = b.len := by
  have := b.current_add_len
  rw [remaining, List.length_drop]
  omega

@[simp] theorem remaining_ofBytes (p : Bytes) : (ofBytes p).remaining = p := rfl

@[simp] theorem len_ofBytes (p : Bytes) : (ofBytes p).len = p.length := rfl

theorem remaining_advance (b : VCardBufferResponse) {n : ℕ} (h : n ≤ b.len) :
    (b.advance n h).remaining = b.remaining.drop n := by
  rw [remaining, remaining, List.drop_drop]
  rfl

@[simp] theorem len_advance (b : VCardBufferResponse) {n : ℕ} (h : n ≤ b.len) :
    (b.advance n h).len = b.len - n := rfl

end VCardBufferResponse

/-- What the applets of a card share: its pending response, its compatibility bits and serial
number, and its token. -/
structure Session (τ : Type) where
  bufferResponse : Option VCardBufferResponse
  compat : UInt32
  serial : ByteArr 32
  serialLen : ℕ
  token : τ
  calls : List Call

variable {τ : Type}

def Session.log (s : Session τ) (c : Call) : Session τ := { s with calls := s.calls ++ [c] }

/-! ## Building a response -/

/-- `sw1` and `sw2` of a status -/
def statusBytes (status : UInt16) : UInt8 × UInt8 := ((status >>> 8).toUInt8, status.toUInt8)

def vcardResponseSetStatus (response : VCardResponse) (status : UInt16) : VCardResponse :=
  let (sw1, sw2) := statusBytes status
  { response with
    bStatus := status, bSw1 := sw1, bSw2 := sw2
    bData := splice response.bData response.bLen [sw1, sw2] }

def vcardResponseSetStatusBytes (response : VCardResponse) (sw1 sw2 : UInt8) : VCardResponse :=
  { response with
    bStatus := sw1.toUInt16 <<< 8 ||| sw2.toUInt16, bSw1 := sw1, bSw2 := sw2
    bData := splice response.bData response.bLen [sw1, sw2] }

/-- The `len` bytes a `memcpy` takes from `buf`. -/
def copyOf (buf : Bytes) (len : ℤ) : Except Fault Bytes :=
  if 0 ≤ len then readBytes buf 0 len.toNat else .error .outOfBounds

/-- A response with its data and neither status nor status bytes, which are left as they were
allocated. -/
def vcardResponseNewData (data : Bytes) : VCardResponse :=
  ⟨data ++ [0, 0], 0, 0, 0, data.length, data.length + 2, .malloc⟩

def vcardResponseNewStatus (status : UInt16) : VCardResponse :=
  vcardResponseSetStatus ⟨[0, 0], 0, 0, 0, 0, 2, .mallocStruct⟩ status

def vcardResponseNewStatusBytes (sw1 sw2 : UInt8) : VCardResponse :=
  vcardResponseSetStatusBytes ⟨[0, 0], 0, 0, 0, 0, 2, .mallocStruct⟩ sw1 sw2

/-- The statuses `vcard_make_response` has a response for. -/
def staticStatuses : List UInt16 :=
  [Status.success, Status.warning, Status.warningRetCorupt, Status.warningBufEndBeforeLe,
    Status.warningInvalidFileSelected, Status.warningFciFormatInvalid, Status.warningChange,
    Status.warningFileFilled, Status.excError, Status.excErrorChange,
    Status.excErrorMemoryFailure, Status.errorWrongLength, Status.errorClaNotSupported,
    Status.errorChannelNotSupported, Status.errorSecureNotSupported,
    Status.errorCommandNotSupported, Status.errorCommandIncompatibleWithFile,
    Status.errorSecurityNotSatisfied, Status.errorAuthenticationBlocked, Status.errorDataInvalid,
    Status.errorConditionNotSatisfied, Status.errorDataNoEf, Status.errorSmObjectMissing,
    Status.errorSmObjectIncorrect, Status.errorWrongParameters, Status.errorWrongParametersInData,
    Status.errorFunctionNotSupported, Status.errorFileNotFound, Status.errorRecordNotFound,
    Status.errorNoSpaceForFile, Status.errorLcTlvInconsistent, Status.errorP1P2Incorrect,
    Status.errorLcP1P2Inconsistent, Status.errorDataNotFound, Status.errorWrongParameters2,
    Status.errorInsCodeInvalid, Status.errorClaInvalid, Status.errorGeneral]

def vcardResponseGetStatic (status : UInt16) : VCardResponse :=
  let (sw1, sw2) := statusBytes status
  ⟨[sw1, sw2], status, sw1, sw2, 0, 2, .static⟩

def vcardMakeResponse (status : UInt16) : VCardResponse :=
  if status ∈ staticStatuses then vcardResponseGetStatic status
  -- we don't know this status code, create a response buffer to hold it
  else vcardResponseNewStatus status

/-- `vcard_init_buffer_response`: a pending response there was is dropped. -/
def vcardInitBufferResponse (s : Session τ) (payload : Bytes) : VCardResponse × Session τ :=
  (vcardResponseNewStatusBytes 0x61
      (if 255 < payload.length then 0 else UInt8.ofNat payload.length),
    { s with bufferResponse := some (.ofBytes payload) })

def vcardResponseNew (s : Session τ) (buf : Bytes) (len : ℤ) (Le : ℕ) (status : UInt16) :
    Except Fault (VCardResponse × Session τ) := do
  let payload ← copyOf buf len
  let s := s.log (.response payload Le)
  if Le < len then return vcardInitBufferResponse s payload
  return (vcardResponseSetStatus (vcardResponseNewData payload) status, s)

def vcardResponseNewBytes (s : Session τ) (buf : Bytes) (len : ℤ) (Le : ℕ) (sw1 sw2 : UInt8) :
    Except Fault (VCardResponse × Session τ) := do
  let payload ← copyOf buf len
  let s := s.log (.response payload Le)
  if Le < len then return vcardInitBufferResponse s payload
  return (vcardResponseSetStatusBytes (vcardResponseNewData payload) sw1 sw2, s)

end Libcacard
