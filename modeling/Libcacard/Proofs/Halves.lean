import Libcacard.Proofs.EncodeExact
import Libcacard.Proofs.Split

/-!
# Splitting a flat list

The tags and lengths of a flat list and its values are written each by an encoder of their own,
have together the length of the whole encoding, and give the leaves back. A list with a compound
has no such halves.
-/

namespace Libcacard

open Machine Memory

/-- This encoder writes `xs` for the list, into any output that has room for them. -/
def EncodesTo (encode : Memory → List SimpletlvMember → Option Ptr → ℕ → Option Ptr →
    Except Fault (Memory × EncodeResult)) (ms : List SimpletlvMember) (xs : Bytes) : Prop :=
  ∀ mem out outlen newptr, ValidOutput mem out outlen →
    (0 < outlen → (xs.length : ℤ) ≤ toInt32 outlen) →
    ∃ mem' r, encode mem ms out outlen newptr = .ok (mem', r) ∧ r.rv = xs.length
      ∧ Written mem mem' xs out outlen r

variable {ty : SimpletlvBufferType} {ms : List SimpletlvMember}

theorem Flat.tail {m : SimpletlvMember} (h : Flat (m :: ms)) : Flat ms :=
  fun m hm => h m (List.mem_cons_of_mem _ hm)

theorem Encodable.sized : ∀ {ms : List SimpletlvMember}, Encodable ms → Sized ms
  | [], _ => fun _ hm => nomatch hm
  | m :: ms, h => by
    refine List.forall_mem_cons.2 ⟨?_, h.2.sized⟩
    rintro tag v rfl
    have := h.1.2
    omega

section Lengths

theorem halfRecord_both {m : SimpletlvMember} (h : m.isCompound = false) :
    halfRecord .both m = record m := by
  cases m with
  | none | leaf => rfl
  | compound => cases h

theorem half_both : ∀ {ms : List SimpletlvMember}, Flat ms → half .both ms = serialise ms
  | [], _ => rfl
  | m :: ms, h => by
    rw [half_cons, serialise, halfRecord_both (h m List.mem_cons_self), half_both h.tail]

theorem length_halfRecord (m : SimpletlvMember) : (halfRecord .both m).length
    = (halfRecord .tl m).length + (halfRecord .value m).length := by
  cases m with
  | none | compound => rfl
  | leaf tag v =>
    simp only [halfRecord, SimpletlvBufferType.hasTl, SimpletlvBufferType.hasValue,
      Bool.false_eq_true, if_true, if_false, List.length_append, List.length_nil]
    omega

theorem length_halves (ms : List SimpletlvMember) :
    (half .both ms).length = (half .tl ms).length + (half .value ms).length := by
  induction ms with
  | nil => rfl
  | cons m ms ih =>
    have := length_halfRecord m
    simp only [half_cons, List.length_append]
    omega

end Lengths

section OneHalf

/-- A half of no bytes: the output is left as it was. -/
theorem encodeHalf_nil {mem : Memory} {out newptr : Option Ptr} {outlen : ℕ} (hflat : Flat ms)
    (hsized : Sized ms) (h0 : (half ty ms).length = 0) :
    simpletlvEncodeInternal mem ms out outlen newptr ty = .ok (mem, ⟨0, out, out⟩) := by
  rw [simpletlvEncodeInternal, encodeWith.eq_def, simpletlvGetLength_half hflat hsized, h0,
    if_pos (by decide)]
  rfl

/-- The call allocates its output. -/
theorem encodeHalf_new {mem : Memory} {out newptr : Option Ptr} (hflat : Flat ms)
    (hsized : Sized ms) (henc : HalfEncodable ty ms) (h0 : 0 < (half ty ms).length)
    (hlen : (half ty ms).length < 2 ^ 31) :
    simpletlvEncodeInternal mem ms out 0 newptr ty
      = .ok (mem ++ [some (half ty ms)], ⟨(half ty ms).length, some ⟨mem.length, 0⟩,
        some ⟨mem.length, (half ty ms).length⟩⟩) := by
  have hb : Heap.Holds (Heap.alloc mem (List.replicate (half ty ms).length 0)) mem.length
    (List.replicate (half ty ms).length 0) := Heap.alloc_holds
  have hint : toInt32 (half ty ms).length = (half ty ms).length := toInt32_natCast hlen
  have htoNat : ((half ty ms).length : ℤ).toNat = (half ty ms).length := Int.toNat_natCast _
  have hloop := @encodeLoop_half ty ms _ ⟨mem.length, 0⟩ ⟨mem.length, 0⟩ _ (half ty ms).length
    (half ty ms).length 0 hflat hb rfl rfl (by omega)
    (by rw [List.length_replicate]; exact Nat.le_of_eq (Nat.zero_add _)) (Nat.le_refl _)
  rw [simpletlvEncodeInternal, encodeWith.eq_def, simpletlvGetLength_half hflat hsized, hint,
    if_neg (by omega), if_neg (by omega), if_pos rfl]
  simp only [malloc, htoNat]
  rcases hloop with ⟨-, heq⟩ | ⟨hnot, -⟩
  · simp only [heq, ok_bind, pure_eq, stored_malloc, Nat.sub_self, Nat.cast_zero, sub_zero,
      toSize_of_lt (show (0 : ℤ) ≤ (half ty ms).length by omega) (by omega), htoNat, hint]
    simp only [Ptr.add, Nat.zero_add]
  · exact absurd henc hnot

/-- A caller's output with room. -/
theorem encodeHalf_room {mem : Memory} {newptr : Option Ptr} {p : Ptr} {b : Bytes} {outlen : ℕ}
    (hflat : Flat ms) (hsized : Sized ms) (henc : HalfEncodable ty ms)
    (h0 : 0 < (half ty ms).length) (hb : Heap.Holds mem p.block b) (h64 : outlen < 2 ^ 64)
    (hfit : p.off + outlen ≤ b.length) (hroom : ((half ty ms).length : ℤ) ≤ toInt32 outlen) :
    simpletlvEncodeInternal mem ms (some p) outlen newptr ty
      = .ok (stored mem p b (half ty ms), ⟨(half ty ms).length, some p,
        some (p.add (half ty ms).length)⟩) := by
  have hle := toInt32_natCast_le outlen
  have hmax := toInt32_le outlen
  have hint : toInt32 (half ty ms).length = (half ty ms).length := toInt32_natCast (by omega)
  have hloop := @encodeLoop_half ty ms mem p p b outlen outlen 0 hflat hb rfl rfl h64
    (by omega) (by omega)
  rw [simpletlvEncodeInternal, encodeWith.eq_def, simpletlvGetLength_half hflat hsized, hint,
    if_neg (by omega), if_neg (by omega), if_neg (by omega), if_pos hroom]
  rcases hloop with ⟨-, heq⟩ | ⟨hnot, -⟩
  · have hrv : toSize ((outlen : ℤ) - (outlen - (half ty ms).length : ℕ))
        = (half ty ms).length := by
      rw [toSize_of_lt (by omega) (by omega)]
      omega
    simp only [heq, ok_bind, hrv, pure_eq, hint]
  · exact absurd henc hnot

theorem encodesTo_half (hflat : Flat ms) (hsized : Sized ms) (henc : HalfEncodable ty ms)
    (hlen : (half ty ms).length < 2 ^ 31) :
    EncodesTo (fun mem tlv out outlen newptr =>
      simpletlvEncodeInternal mem tlv out outlen newptr ty) ms (half ty ms) := by
  intro mem out outlen newptr hout hroom
  rcases Nat.eq_zero_or_pos (half ty ms).length with h0 | h0
  · refine ⟨mem, _, encodeHalf_nil hflat hsized h0, by rw [h0]; rfl, ?_⟩
    have hnil : half ty ms = [] := List.length_eq_zero_iff.1 h0
    rw [hnil]
    unfold Written
    by_cases h : outlen = 0
    · rw [if_pos h, if_pos rfl]
      exact ⟨rfl, rfl, rfl⟩
    · obtain ⟨p, b, rfl, hb, -⟩ := hout.2 (Nat.pos_of_ne_zero h)
      rw [if_neg h]
      exact ⟨p, b, rfl, rfl, rfl, hb, (stored_nil hb).symm⟩
  rcases Nat.eq_zero_or_pos outlen with rfl | hpos
  · refine ⟨_, _, encodeHalf_new hflat hsized henc h0 hlen, rfl, ?_⟩
    rw [Written, if_pos rfl, if_neg (List.length_pos_iff.1 h0)]
    exact ⟨rfl, rfl, by simp [Heap.Holds]⟩
  · obtain ⟨p, b, rfl, hb, hfit⟩ := hout.2 hpos
    refine ⟨_, _, encodeHalf_room hflat hsized henc h0 hb hout.1 hfit (hroom hpos), rfl, ?_⟩
    rw [Written, if_neg (by omega)]
    exact ⟨p, b, rfl, rfl, rfl, hb, rfl⟩

end OneHalf

section Compounds

theorem lengthLoop_compound (hty : ty ≠ .both) : ∀ {ms : List SimpletlvMember},
    (∃ m ∈ ms, m.isCompound) → lengthLoop ty ms = none
  | [], ⟨_, hm, _⟩ => nomatch hm
  | m :: ms, ⟨x, hx, hcomp⟩ => by
    rw [lengthLoop]
    rcases List.mem_cons.1 hx with rfl | hx
    · cases x with
      | none | leaf => cases hcomp
      | compound => rw [memberLength, if_neg hty]
    · rw [lengthLoop_compound hty ⟨x, hx, hcomp⟩]
      rcases memberLength ty m with _ | _ <;> rfl

theorem encodeInternal_compound (hty : ty ≠ .both) (h : ∃ m ∈ ms, m.isCompound) (mem : Memory)
    (out : Option Ptr) (outlen : ℕ) (newptr : Option Ptr) :
    simpletlvEncodeInternal mem ms out outlen newptr ty = .ok (mem, ⟨-1, out, newptr⟩) := by
  have hlen : simpletlvGetLength ms ty = -1 := by
    rw [simpletlvGetLength, lengthLoop_compound hty h]
  rw [simpletlvEncodeInternal, encodeWith.eq_def, hlen, if_neg (by decide), if_pos (by decide)]
  rfl

end Compounds

section BothHalves

/-- The members that are not skipped. -/
def written (ms : List SimpletlvMember) : List SimpletlvMember := ms.filter fun m => !m.isNone

theorem half_written (ty : SimpletlvBufferType) : ∀ ms : List SimpletlvMember,
    half ty (written ms) = half ty ms
  | [] => rfl
  | .none _ _ _ :: ms => half_written ty ms
  | .leaf tag v :: ms => by
    change half ty (.leaf tag v :: written ms) = _
    rw [half_cons, half_cons, half_written ty ms]
  | .compound tag cs :: ms => by
    change half ty (.compound tag cs :: written ms) = _
    rw [half_cons, half_cons, half_written ty ms]

theorem written_leaf : ∀ {ms : List SimpletlvMember}, Flat ms → Encodable ms →
    ∀ m ∈ written ms, ∃ tag v, m = .leaf tag v ∧ v.length ≤ 65534
  | [], _, _ => fun _ hm => nomatch hm
  | .none _ _ _ :: ms, hf, he => by
    change ∀ m ∈ written ms, _
    exact written_leaf hf.tail he.2
  | .leaf tag v :: ms, hf, he =>
    List.forall_mem_cons.2 ⟨⟨tag, v, rfl, he.1.2⟩, written_leaf hf.tail he.2⟩
  | .compound _ _ :: _, hf, _ => nomatch hf _ List.mem_cons_self

/-- A flat list that can be encoded is split into two halves which have the length of its encoding
and give its leaves back; with a compound at its top, neither half is written. -/
theorem split_loses_nothing :
    (∀ ms, Flat ms → Encodable ms → (serialise ms).length < 2 ^ 31 →
      ∃ tl values both, EncodesTo simpletlvEncodeTl ms tl ∧ EncodesTo simpletlvEncodeVal ms values
        ∧ EncodesTo simpletlvEncode ms both ∧ both.length = tl.length + values.length
        ∧ rejoin tl values = some (written ms))
      ∧ ∀ ms, (∃ m ∈ ms, m.isCompound) → ∀ mem out outlen newptr,
        simpletlvEncodeTl mem ms out outlen newptr = .ok (mem, ⟨-1, out, newptr⟩)
          ∧ simpletlvEncodeVal mem ms out outlen newptr = .ok (mem, ⟨-1, out, newptr⟩) := by
  refine ⟨fun ms hflat henc hlen => ?_, fun ms h mem out outlen newptr =>
    ⟨encodeInternal_compound (by decide) h mem out outlen newptr,
      encodeInternal_compound (by decide) h mem out outlen newptr⟩⟩
  have hsum := length_halves ms
  rw [← half_both hflat] at hlen
  refine ⟨half .tl ms, half .value ms, half .both ms,
    encodesTo_half hflat henc.sized (fun _ => henc) (by omega),
    encodesTo_half hflat henc.sized (fun _ => henc) (by omega),
    encodesTo_half hflat henc.sized (fun _ => henc) hlen, hsum, ?_⟩
  rw [← half_written .tl ms, ← half_written .value ms]
  exact rejoin_halves (written_leaf hflat henc)

/-- Two leaves around a member that is skipped. -/
theorem split_loses_nothing_two : ∃ tl values both,
    EncodesTo simpletlvEncodeTl [.leaf 1 [7, 8], .none 2 1 none, .leaf 3 []] tl
      ∧ EncodesTo simpletlvEncodeVal [.leaf 1 [7, 8], .none 2 1 none, .leaf 3 []] values
      ∧ EncodesTo simpletlvEncode [.leaf 1 [7, 8], .none 2 1 none, .leaf 3 []] both
      ∧ both.length = tl.length + values.length
      ∧ rejoin tl values = some (written [.leaf 1 [7, 8], .none 2 1 none, .leaf 3 []]) :=
  split_loses_nothing.1 _ (by simp [Flat, SimpletlvMember.isCompound]) (by decide) (by decide)

end BothHalves

end Libcacard
