import Libcacard.Serialise

/-!
# The length of an encoding

Below 2 ^ 31 bytes the first pass counts what the second will write.
-/

namespace Libcacard

open Machine

theorem length_header (tag : UInt8) (n : ℕ) :
    (header tag n).length = if n < 255 then 2 else 4 := by
  unfold header
  split_ifs <;> simp [length_ushort2lebytes]

theorem two_le_length_header (tag : UInt8) (n : ℕ) : 2 ≤ (header tag n).length := by
  rw [length_header]
  split_ifs <;> omega

theorem recordLength_both (tag : UInt8) (n : ℕ) :
    recordLength .both n = ((header tag n).length + n : ℕ) := by
  rw [length_header]
  simp only [recordLength, SimpletlvBufferType.hasTl, SimpletlvBufferType.hasValue, if_true]
  split_ifs <;> omega

theorem toInt32_natCast {n : ℕ} (h : n < 2 ^ 31) : toInt32 n = n :=
  toInt32_of_lt (by omega) (by omega)

mutual

theorem memberLength_both : ∀ m : SimpletlvMember, (record m).length < 2 ^ 31 →
    memberLength .both m = some ((record m).length : ℤ)
  | .none _ _ _, _ => rfl
  | .leaf tag v, h => by
    simp only [record, List.length_append] at h ⊢
    rw [memberLength, toInt32_natCast (by omega), recordLength_both tag]
  | .compound tag cs, h => by
    simp only [record, List.length_append] at h ⊢
    have hcs := lengthLoop_both cs (by omega)
    rw [memberLength, if_pos rfl, hcs]
    simp only [toInt32_natCast (show (serialise cs).length < 2 ^ 31 by omega),
      recordLength_both tag]

theorem lengthLoop_both : ∀ ms : List SimpletlvMember, (serialise ms).length < 2 ^ 31 →
    lengthLoop .both ms = some ((serialise ms).length : ℤ)
  | [], _ => rfl
  | m :: ms, h => by
    simp only [serialise, List.length_append] at h ⊢
    rw [lengthLoop, memberLength_both m (by omega), lengthLoop_both ms (by omega)]
    simp

end

theorem simpletlvGetLength_both {ms : List SimpletlvMember} (h : (serialise ms).length < 2 ^ 31) :
    simpletlvGetLength ms .both = (serialise ms).length := by
  simp only [simpletlvGetLength, lengthLoop_both ms h, toInt32_natCast h]

theorem simpletlvGetLength_range (ms : List SimpletlvMember) (ty : SimpletlvBufferType) :
    -2 ^ 31 ≤ simpletlvGetLength ms ty ∧ simpletlvGetLength ms ty < 2 ^ 31 := by
  unfold simpletlvGetLength
  split
  · exact ⟨le_toInt32 _, toInt32_le _⟩
  · omega

section Nothing

theorem isNone_of_length_record {m : SimpletlvMember} (h : (record m).length = 0) :
    m.isNone = true := by
  rcases m with _ | ⟨tag, v⟩ | ⟨tag, cs⟩
  · rfl
  · have := two_le_length_header tag v.length
    simp only [record, List.length_append] at h
    omega
  · have := two_le_length_header tag (serialise cs).length
    simp only [record, List.length_append] at h
    omega

theorem serialise_of_isNone : ∀ {ms : List SimpletlvMember}, (∀ m ∈ ms, m.isNone) →
    serialise ms = [] ∧ Encodable ms ∧ lengthLoop .both ms = some 0 ∧ topLevel ms = []
  | [], _ => ⟨rfl, trivial, rfl, rfl⟩
  | .none _ _ _ :: ms, h => by
    obtain ⟨h1, h2, h3, h4⟩ := serialise_of_isNone fun m hm => h m (List.mem_cons_of_mem _ hm)
    refine ⟨by rw [serialise, h1]; rfl, ⟨trivial, h2⟩, by rw [lengthLoop, h3]; rfl, h4⟩
  | .leaf tag v :: ms, h => by simpa [SimpletlvMember.isNone] using h _ (List.mem_cons_self ..)
  | .compound tag cs :: ms, h => by simpa [SimpletlvMember.isNone] using h _ (List.mem_cons_self ..)

theorem encodable_iff_forall {ms : List SimpletlvMember} :
    Encodable ms ↔ ∀ m ∈ ms, EncodableMember m := by
  induction ms with
  | nil => exact iff_of_true trivial (List.forall_mem_nil _)
  | cons m ms ih => rw [List.forall_mem_cons, Encodable, ih]

theorem isNone_of_length_serialise : ∀ {ms : List SimpletlvMember}, (serialise ms).length = 0 →
    ∀ m ∈ ms, m.isNone
  | [], _, m, hm => by simp at hm
  | x :: ms, h, m, hm => by
    simp only [serialise, List.length_append] at h
    rcases List.mem_cons.1 hm with rfl | hm
    · exact isNone_of_length_record (by omega)
    · exact isNone_of_length_serialise (by omega) m hm

end Nothing

end Libcacard
