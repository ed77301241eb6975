import Libcacard.Answer

/-!
# Answers are complete

Both ways of building a response leave a complete one, and a payload is either delivered or
pending.
-/

namespace Libcacard

open Machine

variable {τ : Type} {s : Session τ} {aLe : ℕ} {r : VCardResponse × Session τ}

theorem toNat_statusBytes (status : UInt16) :
    status.toNat = 256 * (statusBytes status).1.toNat + (statusBytes status).2.toNat := by
  have h := status.toNat_lt
  simp only [statusBytes, UInt16.toNat_toUInt8, UInt16.toNat_shiftRight, Nat.shiftRight_eq_div_pow]
  simp only [UInt16.reduceToNat, Nat.reduceMod, Nat.reducePow]
  omega

theorem toNat_ofStatusBytes (sw1 sw2 : UInt8) :
    (sw1.toUInt16 <<< 8 ||| sw2.toUInt16).toNat = 256 * sw1.toNat + sw2.toNat := by
  have h1 := sw1.toNat_lt
  have h2 := sw2.toNat_lt
  have hor := Nat.two_pow_add_eq_or_of_lt (i := 8) h2 sw1.toNat
  simp only [UInt16.toNat_or, UInt16.toNat_shiftLeft, UInt8.toNat_toUInt16,
    Nat.shiftLeft_eq, UInt16.reduceToNat, Nat.reduceMod, Nat.reducePow]
  rw [Nat.mod_eq_of_lt (by omega), Nat.mul_comm sw1.toNat, ← hor]

theorem statusBytes_ofStatusBytes (sw1 sw2 : UInt8) :
    statusBytes (sw1.toUInt16 <<< 8 ||| sw2.toUInt16) = (sw1, sw2) := by
  have h := toNat_statusBytes (sw1.toUInt16 <<< 8 ||| sw2.toUInt16)
  rw [toNat_ofStatusBytes] at h
  have := sw1.toNat_lt
  have := sw2.toNat_lt
  have := (statusBytes (sw1.toUInt16 <<< 8 ||| sw2.toUInt16)).1.toNat_lt
  have := (statusBytes (sw1.toUInt16 <<< 8 ||| sw2.toUInt16)).2.toNat_lt
  refine Prod.ext (UInt8.toNat_inj.1 ?_) (UInt8.toNat_inj.1 ?_) <;> simp only <;> omega

theorem splice_end (data : Bytes) (a b x y : UInt8) :
    splice (data ++ [a, b]) data.length [x, y] = data ++ [x, y] := by
  rw [splice, List.take_left, List.drop_eq_nil_of_le (by simp)]
  simp

theorem setStatus_newData (payload : Bytes) (status : UInt16) :
    vcardResponseSetStatus (vcardResponseNewData payload) status = dataResponse payload status := by
  simp only [vcardResponseSetStatus, vcardResponseNewData, splice_end, dataResponse]

theorem setStatusBytes_newData (payload : Bytes) (sw1 sw2 : UInt8) :
    vcardResponseSetStatusBytes (vcardResponseNewData payload) sw1 sw2
      = dataResponse payload (sw1.toUInt16 <<< 8 ||| sw2.toUInt16) := by
  simp only [vcardResponseSetStatusBytes, vcardResponseNewData, splice_end, dataResponse,
    statusBytes_ofStatusBytes]

theorem copyOf_natCast {buf : Bytes} {n : ℕ} (h : n ≤ buf.length) :
    copyOf buf n = .ok (buf.take n) := by
  rw [copyOf, if_pos (Int.natCast_nonneg n), Int.toNat_natCast, readBytes_of_le (by omega),
    List.drop_zero]

theorem vcardResponseNew_eq {buf : Bytes} {n : ℕ} {status : UInt16} (h : n ≤ buf.length) :
    vcardResponseNew s buf n aLe status = .ok (respond s (buf.take n) aLe status) := by
  have hlen : (buf.take n).length = n := by simp [h]
  simp only [vcardResponseNew, copyOf_natCast h, ok_bind, pure_eq, respond, hlen, Nat.cast_lt,
    setStatus_newData, vcardInitBufferResponse, bytesLeft]
  split_ifs <;> rfl

theorem vcardResponseNew_all (buf : Bytes) (status : UInt16) :
    vcardResponseNew s buf buf.length aLe status = .ok (respond s buf aLe status) := by
  rw [vcardResponseNew_eq (Nat.le_refl _), List.take_length]

theorem vcardResponseNewBytes_eq {buf : Bytes} {n : ℕ} {sw1 sw2 : UInt8} (h : n ≤ buf.length) :
    vcardResponseNewBytes s buf n aLe sw1 sw2
      = .ok (respond s (buf.take n) aLe (sw1.toUInt16 <<< 8 ||| sw2.toUInt16)) := by
  have hlen : (buf.take n).length = n := by simp [h]
  simp only [vcardResponseNewBytes, copyOf_natCast h, ok_bind, pure_eq, respond, hlen, Nat.cast_lt,
    setStatusBytes_newData, vcardInitBufferResponse, bytesLeft]
  split_ifs <;> rfl

section Complete

theorem complete_dataResponse {payload : Bytes} (h : payload.length ≤ aLe) (status : UInt16) :
    (dataResponse payload status).Complete aLe :=
  ⟨h, rfl, ⟨payload, rfl, rfl⟩, toNat_statusBytes status⟩

theorem complete_statusBytes (sw1 sw2 : UInt8) :
    (vcardResponseNewStatusBytes sw1 sw2).Complete aLe :=
  ⟨Nat.zero_le _, rfl, ⟨[], rfl, rfl⟩, toNat_ofStatusBytes sw1 sw2⟩

theorem complete_makeResponse (status : UInt16) : (vcardMakeResponse status).Complete aLe := by
  unfold vcardMakeResponse
  split_ifs
  · exact ⟨Nat.zero_le _, rfl, ⟨[], rfl, rfl⟩, toNat_statusBytes status⟩
  · exact ⟨Nat.zero_le _, rfl, ⟨[], rfl, rfl⟩, toNat_statusBytes status⟩

theorem Answered.complete (h : Answered s aLe r) : r.1.Complete aLe := by
  cases h with
  | status status => exact complete_makeResponse status
  | statusBytes sw1 sw2 => exact complete_statusBytes sw1 sw2
  | payload payload status =>
    unfold respond
    split_ifs with hle
    · exact complete_statusBytes _ _
    · exact complete_dataResponse (Nat.le_of_not_lt hle) status

end Complete

section Leaves

/-- Only the pending response and the log change. -/
theorem Answered.session_eq (h : Answered s aLe r) :
    r.2 = { s with bufferResponse := r.2.bufferResponse, calls := r.2.calls } := by
  cases h with
  | status | statusBytes => rfl
  | payload payload status =>
    unfold respond
    split_ifs <;> rfl

/-- A pending response that was not there before is a payload the command did not ask for whole,
and the answer says how long it is. -/
theorem Answered.pending (h : Answered s aLe r) (hs : ∀ p Le, Call.response p Le ∉ s.calls) :
    (∃ p, aLe < p.length ∧ r.1 = bytesLeft p.length ∧ r.2.bufferResponse = some (.ofBytes p)
        ∧ r.2.calls = s.calls ++ [.response p aLe])
      ∨ (r.2.bufferResponse = s.bufferResponse
        ∧ ∀ p Le, Call.response p Le ∈ r.2.calls → Le = aLe ∧ p.length ≤ aLe) := by
  cases h with
  | status | statusBytes => exact .inr ⟨rfl, fun p Le hp => absurd hp (hs p Le)⟩
  | payload payload status =>
    unfold respond
    split_ifs with hle
    · exact .inl ⟨payload, hle, rfl, rfl, rfl⟩
    · refine .inr ⟨rfl, fun p Le hp => ?_⟩
      rcases List.mem_append.1 hp with hp | hp
      · exact absurd hp (hs p Le)
      · simp only [List.mem_singleton, Call.response.injEq] at hp
        obtain ⟨rfl, rfl⟩ := hp
        exact ⟨rfl, Nat.le_of_not_lt hle⟩

end Leaves

end Libcacard
