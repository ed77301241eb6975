import Libcacard.Response

/-!
# Complete answers

What a reader can send back: the data, which is no more than was asked for, and behind it the two
bytes of the status. A payload is sent whole or kept as the pending response.
-/

namespace Libcacard

open Machine

variable {τ : Type}

/-- A response to a command that asked for `aLe` bytes. -/
structure VCardResponse.Complete (aLe : ℕ) (r : VCardResponse) : Prop where
  bLen_le : r.bLen ≤ aLe
  bTotalLen_eq : r.bTotalLen = r.bLen + 2
  bData_eq : ∃ data : Bytes, data.length = r.bLen ∧ r.bData = data ++ [r.bSw1, r.bSw2]
  bStatus_eq : r.bStatus.toNat = 256 * r.bSw1.toNat + r.bSw2.toNat

/-- The whole payload with a status. -/
def dataResponse (payload : Bytes) (status : UInt16) : VCardResponse :=
  ⟨payload ++ [(statusBytes status).1, (statusBytes status).2], status, (statusBytes status).1,
    (statusBytes status).2, payload.length, payload.length + 2, .malloc⟩

/-- `61 xx` for `n` bytes that can be fetched. -/
def bytesLeft (n : ℕ) : VCardResponse :=
  vcardResponseNewStatusBytes 0x61 (if 255 < n then 0 else UInt8.ofNat n)

/-- Answers with a payload: all of it if it was asked for, else it becomes the pending response. -/
def respond (s : Session τ) (payload : Bytes) (aLe : ℕ) (status : UInt16) :
    VCardResponse × Session τ :=
  let s := s.log (.response payload aLe)
  if aLe < payload.length then
    (bytesLeft payload.length, { s with bufferResponse := some (.ofBytes payload) })
  else (dataResponse payload status, s)

/-- What a command in a session can be answered with. -/
inductive Answered (s : Session τ) (aLe : ℕ) : VCardResponse × Session τ → Prop
  | status (status : UInt16) : Answered s aLe (vcardMakeResponse status, s)
  | statusBytes (sw1 sw2 : UInt8) : Answered s aLe (vcardResponseNewStatusBytes sw1 sw2, s)
  | payload (payload : Bytes) (status : UInt16) :
    Answered s aLe (respond s payload aLe status)

end Libcacard
