import Libcacard.Proofs.Encode

/-!
# Encoding into a buffer

An encoding call succeeds exactly on trees a record can hold that fit the output, and then writes
their serialisation and nothing else. The comparison with the length of a caller's buffer is made
on `(int)outlen`, so a buffer of 2 ^ 31 bytes or more can be taken for one too small.
-/

namespace Libcacard

open Machine Memory

/-- `outlen` is 0, for an output the call allocates, or `*out` has `outlen` bytes. -/
def ValidOutput (mem : Memory) (out : Option Ptr) (outlen : ℕ) : Prop :=
  outlen < 2 ^ 64
    ∧ (0 < outlen → ∃ p b, out = some p ∧ Heap.Holds mem p.block b ∧ p.off + outlen ≤ b.length)

/-- What the output holds after a successful call. -/
def Written (mem mem' : Memory) (xs : Bytes) (out : Option Ptr) (outlen : ℕ) (r : EncodeResult) :
    Prop :=
  if outlen = 0 then
    if xs = [] then r.out = out ∧ r.newptr = out ∧ mem' = mem
    else r.out = some ⟨mem.length, 0⟩ ∧ r.newptr = some ⟨mem.length, xs.length⟩
      ∧ Heap.Holds mem' mem.length xs
  else ∃ p b, out = some p ∧ r.out = some p ∧ r.newptr = some (p.add xs.length)
    ∧ Heap.Holds mem p.block b ∧ mem' = stored mem p b xs

/-- Nothing outside the output is written to. -/
def WritesOnly (mem mem' : Memory) (out : Option Ptr) (outlen : ℕ) : Prop :=
  if outlen = 0 then ∀ i < mem.length, mem'[i]? = mem[i]?
  else ∃ p b ys, out = some p ∧ Heap.Holds mem p.block b ∧ ys.length ≤ outlen
    ∧ mem' = stored mem p b ys

/-- The call returns, succeeds exactly on trees that can be encoded and fit, writes their
serialisation if it does, and leaves `*out` and `*newptr` alone if it does not. -/
def EncodesExactly (mem : Memory) (tlv : List SimpletlvMember) (out : Option Ptr) (outlen : ℕ)
    (newptr : Option Ptr) : Prop :=
  ∃ mem' r, simpletlvEncode mem tlv out outlen newptr = .ok (mem', r)
    ∧ (0 ≤ r.rv ↔ Encodable tlv ∧ (0 < outlen → simpletlvGetLength tlv .both ≤ outlen))
    ∧ (0 ≤ r.rv → r.rv = simpletlvGetLength tlv .both
      ∧ Written mem mem' (serialise tlv) out outlen r)
    ∧ (r.rv < 0 → r.out = out ∧ r.newptr = newptr)
    ∧ WritesOnly mem mem' out outlen

variable {mem : Memory} {tlv : List SimpletlvMember} {out newptr : Option Ptr} {outlen : ℕ}

theorem simpletlvEncode_nil (h : (serialise tlv).length = 0) :
    simpletlvEncode mem tlv out outlen newptr = .ok (mem, ⟨0, out, out⟩) := by
  rw [simpletlvEncode, simpletlvEncodeInternal, encodeWith.eq_def,
    simpletlvGetLength_both (by omega), if_pos (by omega)]
  rfl

/-- A caller's buffer whose length, as an `int`, is less than what is to be written. -/
theorem simpletlvEncode_noFit (ht : (serialise tlv).length < 2 ^ 31)
    (h0 : 0 < (serialise tlv).length) (hlen : 0 < outlen)
    (h : toInt32 outlen < (serialise tlv).length) :
    simpletlvEncode mem tlv out outlen newptr = .ok (mem, ⟨-1, out, newptr⟩) := by
  rw [simpletlvEncode, simpletlvEncodeInternal, encodeWith.eq_def, simpletlvGetLength_both ht,
    if_neg (by omega), if_neg (by omega), if_neg (by omega), if_neg (by omega)]
  rfl

theorem stored_malloc {xs : Bytes} {n : ℕ} (h : xs.length = n) :
    stored (Heap.alloc mem (List.replicate n 0)) ⟨mem.length, 0⟩ (List.replicate n 0) xs
      = mem ++ [some xs] := by
  simp only [stored, Heap.alloc]
  rw [splice_whole (by simpa using h), List.set_append_right _ _ (le_refl _)]
  simp

/-- An output the call allocates holds the serialisation, or is freed again. -/
theorem simpletlvEncode_new (ht : (serialise tlv).length < 2 ^ 31)
    (h0 : 0 < (serialise tlv).length) :
    (Encodable tlv ∧ simpletlvEncode mem tlv out 0 newptr
        = .ok (mem ++ [some (serialise tlv)], ⟨(serialise tlv).length, some ⟨mem.length, 0⟩,
          some ⟨mem.length, (serialise tlv).length⟩⟩))
      ∨ (¬ Encodable tlv ∧ simpletlvEncode mem tlv out 0 newptr
        = .ok (mem ++ [none], ⟨-1, out, newptr⟩)) := by
  have hb : Heap.Holds (Heap.alloc mem (List.replicate (serialise tlv).length 0)) mem.length
    (List.replicate (serialise tlv).length 0) := Heap.alloc_holds
  have hint : toInt32 (serialise tlv).length = (serialise tlv).length := toInt32_natCast ht
  have hloop := encodeLoop_room tlv _ ⟨mem.length, 0⟩ ⟨mem.length, 0⟩ _ (serialise tlv).length
    (serialise tlv).length 0 hb rfl rfl (by omega) (by simp) (by omega)
  have htoNat : ((serialise tlv).length : ℤ).toNat = (serialise tlv).length := by omega
  rw [simpletlvEncode, simpletlvEncodeInternal, encodeWith.eq_def, simpletlvGetLength_both ht,
    if_neg (by omega), if_neg (by omega), if_pos rfl]
  simp only [malloc, htoNat]
  rcases hloop with ⟨henc, heq⟩ | ⟨henc, ys, hys, heq⟩
  · refine .inl ⟨henc, ?_⟩
    simp only [heq, ok_bind, pure_eq, stored_malloc, Nat.sub_self, Nat.cast_zero, sub_zero,
      toSize_of_lt (show (0 : ℤ) ≤ (serialise tlv).length by omega) (by omega), htoNat, hint]
    simp [Ptr.add]
  · refine .inr ⟨henc, ?_⟩
    have hfree := Heap.free_of_holds (stored_holds ys (p := ⟨mem.length, 0⟩) hb)
    simp only [heq, ok_bind, pure_eq, hfree]
    simp [stored, Heap.alloc]

/-- The output an empty serialisation leaves is the one there was. -/
theorem encodesExactly_nil (hout : ValidOutput mem out outlen) (h : (serialise tlv).length = 0) :
    EncodesExactly mem tlv out outlen newptr := by
  obtain ⟨hnil, henc, -⟩ := serialise_of_isNone (isNone_of_length_serialise h)
  have hlen := simpletlvGetLength_both (show (serialise tlv).length < 2 ^ 31 by omega)
  refine ⟨mem, ⟨0, out, out⟩, simpletlvEncode_nil h, ⟨fun _ => ⟨henc, fun _ => by omega⟩,
    fun _ => le_refl _⟩, fun _ => ⟨by simp [hlen, h], ?_⟩, fun h0 => absurd h0 (by simp), ?_⟩
  · unfold Written
    split_ifs with h0
    · exact ⟨rfl, rfl, rfl⟩
    · obtain ⟨p, b, rfl, hb, -⟩ := hout.2 (by omega)
      exact ⟨p, b, rfl, rfl, by rw [h]; rfl, hb, by rw [hnil, stored_nil hb]⟩
  · unfold WritesOnly
    split_ifs with h0
    · exact fun _ _ => rfl
    · obtain ⟨p, b, rfl, hb, -⟩ := hout.2 (by omega)
      exact ⟨p, b, [], rfl, hb, by simp, (stored_nil hb).symm⟩

theorem encodesExactly_new (ht : (serialise tlv).length < 2 ^ 31)
    (h0 : 0 < (serialise tlv).length) : EncodesExactly mem tlv out 0 newptr := by
  have hlen := simpletlvGetLength_both ht
  have hne : serialise tlv ≠ [] := List.length_pos_iff.1 h0
  rcases simpletlvEncode_new ht h0 with
    ⟨henc, heq⟩ | ⟨henc, heq⟩
  · refine ⟨_, _, heq, by simp [henc], fun _ => ⟨hlen.symm, ?_⟩, fun h => by simp at h; omega, ?_⟩
    · simp [Written, hne, Heap.Holds]
    · intro i hi
      exact List.getElem?_append_left hi
  · refine ⟨_, _, heq, by simp [henc], fun h => by simp at h, fun _ => ⟨rfl, rfl⟩, ?_⟩
    intro i hi
    exact List.getElem?_append_left hi

theorem encodesExactly_room {p : Ptr} {b : Bytes} (hb : Heap.Holds mem p.block b)
    (h64 : outlen < 2 ^ 64) (hfit : p.off + outlen ≤ b.length) (h0 : 0 < outlen)
    (hroom : ((serialise tlv).length : ℤ) ≤ toInt32 outlen) :
    EncodesExactly mem tlv (some p) outlen newptr := by
  have hmax := toInt32_le outlen
  have hle := toInt32_natCast_le outlen
  have hlen := simpletlvGetLength_both (show (serialise tlv).length < 2 ^ 31 by omega)
  have hloop := encodeLoop_room tlv mem p p b outlen outlen 0 hb (Ptr.add_zero _).symm rfl h64
    (by omega) hroom
  rcases encodeInternal_room newptr hb hloop hroom with
    ⟨henc, heq⟩ | ⟨henc, ys, hys, heq⟩
  · refine ⟨_, _, heq, ?_, fun _ => ⟨hlen.symm, ?_⟩, fun h => ?_, ?_⟩
    · simp only [henc, hlen, true_and]
      omega
    · rw [Written, if_neg (by omega)]
      exact ⟨p, b, rfl, rfl, rfl, hb, rfl⟩
    · simp only at h
      omega
    · rw [WritesOnly, if_neg (by omega)]
      exact ⟨p, b, serialise tlv, rfl, hb, by omega, rfl⟩
  · refine ⟨_, _, heq, by simp [henc], fun h => by simp at h, fun _ => ⟨rfl, rfl⟩, ?_⟩
    rw [WritesOnly, if_neg (by omega)]
    exact ⟨p, b, ys, rfl, hb, by omega, rfl⟩

/-- A buffer that `(int)outlen` says is too small, and the condition that it really is. -/
theorem encodesExactly_noFit_iff (hout : ValidOutput mem out outlen)
    (ht : (serialise tlv).length < 2 ^ 31) (h0 : 0 < (serialise tlv).length) (hlen : 0 < outlen)
    (h : toInt32 outlen < (serialise tlv).length) :
    EncodesExactly mem tlv out outlen newptr
      ↔ ¬ (Encodable tlv ∧ (serialise tlv).length ≤ outlen) := by
  have hget := simpletlvGetLength_both ht
  have heq : simpletlvEncode mem tlv out outlen newptr = .ok (mem, ⟨-1, out, newptr⟩) :=
    simpletlvEncode_noFit ht h0 hlen h
  constructor
  · rintro ⟨mem', r, hr, hsucc, -⟩ ⟨henc, hfit⟩
    obtain ⟨-, rfl⟩ := Prod.mk.inj (Except.ok.inj (heq.symm.trans hr))
    have := hsucc.2 ⟨henc, fun _ => by omega⟩
    simp at this
  · intro hno
    obtain ⟨p, b, rfl, hb, -⟩ := hout.2 hlen
    refine ⟨_, _, heq, ⟨fun h => by simp at h, fun ⟨henc, hle⟩ => ?_⟩, fun h => by simp at h,
      fun _ => ⟨rfl, rfl⟩, ?_⟩
    · exact absurd ⟨henc, by have := hle hlen; omega⟩ hno
    · rw [WritesOnly, if_neg (by omega)]
      exact ⟨p, b, [], rfl, hb, by simp, (stored_nil hb).symm⟩

/-- A tree below 2 ^ 31 bytes is encoded exactly, unless it fits a caller's buffer that the
length of the buffer, as an `int`, says it does not. -/
theorem simpletlvEncode_exact_iff (ht : (serialise tlv).length < 2 ^ 31)
    (hout : ValidOutput mem out outlen) :
    EncodesExactly mem tlv out outlen newptr
      ↔ ¬ (Encodable tlv ∧ 0 < simpletlvGetLength tlv .both ∧ 0 < outlen
        ∧ toInt32 outlen < simpletlvGetLength tlv .both
        ∧ simpletlvGetLength tlv .both ≤ outlen) := by
  rw [simpletlvGetLength_both ht]
  rcases Nat.eq_zero_or_pos (serialise tlv).length with h0 | h0
  · exact iff_of_true (encodesExactly_nil hout h0) (by omega)
  rcases Nat.eq_zero_or_pos outlen with rfl | hlen
  · exact iff_of_true (encodesExactly_new ht h0) (by omega)
  by_cases hroom : ((serialise tlv).length : ℤ) ≤ toInt32 outlen
  · obtain ⟨p, b, rfl, hb, hfit⟩ := hout.2 hlen
    exact iff_of_true (encodesExactly_room hb hout.1 hfit hlen hroom) (by omega)
  · rw [encodesExactly_noFit_iff hout ht h0 hlen (by omega)]
    constructor
    · rintro hno ⟨henc, -, -, -, hle⟩
      exact hno ⟨henc, by omega⟩
    · rintro hno ⟨henc, hle⟩
      exact hno ⟨henc, by omega, hlen, by omega, by omega⟩

/-- One byte under tag 01, into a caller's buffer of five bytes. -/
theorem simpletlvEncode_exact_five :
    EncodesExactly [some [0, 0, 0, 0, 0]] [.leaf 1 [7]] (some ⟨0, 0⟩) 5 none := by
  have hvalid : ValidOutput [some [0, 0, 0, 0, 0]] (some ⟨0, 0⟩) 5 :=
    ⟨by omega, fun _ => ⟨⟨0, 0⟩, _, rfl, rfl, by decide⟩⟩
  exact (simpletlvEncode_exact_iff (by decide) hvalid).2 (by decide)

/-- The same member into a buffer of 2 ^ 31 bytes, whose length is negative as an `int`. -/
theorem simpletlvEncode_large_buffer :
    (serialise [.leaf 1 [7]]).length < 2 ^ 31
      ∧ ValidOutput [some (List.replicate (2 ^ 31) 0)] (some ⟨0, 0⟩) (2 ^ 31)
      ∧ ¬ EncodesExactly [some (List.replicate (2 ^ 31) 0)] [.leaf 1 [7]] (some ⟨0, 0⟩) (2 ^ 31)
        none := by
  have hvalid : ValidOutput [some (List.replicate (2 ^ 31) 0)] (some ⟨0, 0⟩) (2 ^ 31) :=
    ⟨by omega, fun _ => ⟨⟨0, 0⟩, _, rfl, rfl, by rw [List.length_replicate, Nat.zero_add]⟩⟩
  refine ⟨by decide, hvalid, ?_⟩
  rw [encodesExactly_noFit_iff hvalid (by decide) (by decide) (by omega) (by decide)]
  exact fun h => h (by decide)

end Libcacard
