import Libcacard.Proofs.Length

/-!
# What the encoder writes

In an output with room for it, a list of members that can be encoded is written as its
serialisation, and one that cannot stops in the middle. The space that is left when a compound's
children are written is the space there was before its tag, so all that is kept of it is that it
is no less than what remains to be written, as an `int` and so as a `size_t`.
-/

namespace Libcacard

open Machine Memory

theorem toInt32_natCast_le (n : ℕ) : toInt32 n ≤ n := by
  obtain ⟨k, hk⟩ := toInt32_emod n
  have := toInt32_le n
  have := le_toInt32 n
  omega

theorem toInt32_sub {n m k : ℕ} (hm : m + k = n) (hk : (k : ℤ) ≤ toInt32 n) :
    toInt32 m = toInt32 n - k := by
  obtain ⟨a, ha⟩ := toInt32_emod n
  obtain ⟨b, hb⟩ := toInt32_emod m
  have := toInt32_le n
  have := le_toInt32 n
  have := toInt32_le m
  have := le_toInt32 m
  omega

variable {mem : Memory} {p : Ptr} {b : Bytes}

section PutTag

variable {tag : UInt8} {n : ℕ}

theorem putTag_ok (hb : Heap.Holds mem p.block b) {pLen : ℕ} (ht : TagOk tag) (hn : n ≤ 65534)
    (hfit : p.off + (header tag n).length ≤ b.length) (hroom : (header tag n).length ≤ pLen) :
    simpletlvPutTag mem tag n p pLen
      = .ok (stored mem p b (header tag n), some (p.add (header tag n).length)) := by
  rw [length_header] at hfit hroom
  unfold simpletlvPutTag
  rw [if_neg (by split_ifs at hroom <;> omega), if_neg (by simpa [TagOk, not_or] using ht),
    store_eq hb (by simp only [List.length_singleton]; split_ifs at hfit <;> omega), ok_bind,
    length_header]
  have hb' := stored_holds [tag] hb
  have hl : p.off + [tag].length ≤ b.length := by
    simp only [List.length_singleton]; split_ifs at hfit <;> omega
  have h1 : p.add 1 = p.add [tag].length := rfl
  have hlen := length_splice hl
  by_cases hs : n < 255
  · rw [if_pos hs] at hfit
    rw [if_pos hs, if_pos hs, store_eq (p := p.add 1) hb' (by
      simp only [Ptr.add_off, List.length_singleton, hlen]; omega), h1, stored_stored hl, header,
      if_pos hs]
    rfl
  · rw [if_neg hs] at hfit
    rw [if_neg hs, if_pos (by omega), if_neg hs, store_eq (p := p.add 1) hb' (by
      simp only [Ptr.add_off, List.length_cons, length_ushort2lebytes, hlen]; omega), h1,
      stored_stored hl, header, if_neg hs]
    rfl

/-- What a tag or a length that has no record leaves: at most the tag. -/
theorem putTag_fail (hb : Heap.Holds mem p.block b) (pLen : ℕ)
    (h : ¬ (TagOk tag ∧ n ≤ 65534)) (hfit : p.off + 1 ≤ b.length) :
    ∃ xs, xs.length ≤ 1 ∧ simpletlvPutTag mem tag n p pLen = .ok (stored mem p b xs, none) := by
  unfold simpletlvPutTag
  by_cases hs : pLen < 2 ∨ (pLen < 4 ∧ 0xff ≤ n)
  · exact ⟨[], by simp, by rw [if_pos hs, stored_nil hb]⟩
  rw [if_neg hs]
  by_cases ht : tag = 0x00 ∨ tag = 0xff
  · exact ⟨[], by simp, by rw [if_pos ht, stored_nil hb]⟩
  have hn : 65534 < n := by
    by_contra hn
    exact h ⟨by simpa [TagOk, not_or] using ht, by omega⟩
  refine ⟨[tag], by simp, ?_⟩
  rw [if_neg ht, store_eq hb (by simpa using hfit), ok_bind, if_neg (by omega), if_neg (by omega)]
  rfl

/-- Whatever space it is given, `simpletlv_put_tag` writes the header or fails. -/
theorem putTag_eq_ok (hb : Heap.Holds mem p.block b) {pLen : ℕ} {mem' : Memory} {q : Ptr}
    (h : simpletlvPutTag mem tag n p pLen = .ok (mem', some q)) :
    (TagOk tag ∧ n ≤ 65534) ∧ 2 ≤ pLen ∧ p.off + (header tag n).length ≤ b.length
      ∧ mem' = stored mem p b (header tag n) ∧ q = p.add (header tag n).length := by
  rw [length_header]
  unfold simpletlvPutTag at h
  split at h
  · simp at h
  rename_i hroom
  split at h
  · simp at h
  rename_i h2
  obtain ⟨m1, hm1, h⟩ := bind_eq_ok.1 h
  obtain ⟨hf1, rfl⟩ := store_eq_ok hb hm1
  have hb' := stored_holds [tag] hb
  have hlen := length_splice hf1
  have h1 : p.add 1 = p.add [tag].length := rfl
  have ht : TagOk tag := by simpa [TagOk, not_or] using h2
  by_cases hs : n < 255
  · rw [if_pos hs] at h
    obtain ⟨m2, hm2, h⟩ := bind_eq_ok.1 h
    obtain ⟨hf2, rfl⟩ := store_eq_ok (p := p.add 1) hb' hm2
    simp only [Ptr.add_off, List.length_singleton, hlen] at hf2
    simp only [pure_eq, Except.ok.injEq, Prod.mk.injEq, Option.some.injEq] at h
    rw [if_pos hs, header, if_pos hs, ← h.1, ← h.2, h1, stored_stored hf1]
    exact ⟨⟨ht, by omega⟩, by omega, by omega, rfl, rfl⟩
  · rw [if_neg hs] at h
    by_cases hl : n < 0xffff
    · rw [if_pos hl] at h
      obtain ⟨m2, hm2, h⟩ := bind_eq_ok.1 h
      obtain ⟨hf2, rfl⟩ := store_eq_ok (p := p.add 1) hb' hm2
      simp only [Ptr.add_off, List.length_cons, length_ushort2lebytes, hlen] at hf2
      simp only [pure_eq, Except.ok.injEq, Prod.mk.injEq, Option.some.injEq] at h
      rw [if_neg hs, header, if_neg hs, ← h.1, ← h.2, h1, stored_stored hf1]
      exact ⟨⟨ht, by omega⟩, by omega, by omega, rfl, rfl⟩
    · rw [if_neg hl] at h
      simp at h

end PutTag

section Room

theorem encodeLoop_cons (ty : SimpletlvBufferType) {m : SimpletlvMember} (hm : m.isNone = false)
    (ms : List SimpletlvMember) (mem : Memory) (tmp : Ptr) (tmpLen : ℕ) (p : Ptr) (pLen : ℕ) :
    encodeLoop ty (m :: ms) mem tmp tmpLen p pLen = (do
      match ← encodeMember ty m mem p pLen with
      | (mem, none) => return (mem, none)
      | (mem, some p) => do
        let used ← Memory.diff p tmp
        encodeLoop ty ms mem tmp tmpLen p (toSize (tmpLen - used))) := by
  cases m with
  | none => simp [SimpletlvMember.isNone] at hm
  | leaf => rfl
  | compound => rfl

/-- A call that got as far as writing: the whole of `xs` if `P`, part of it if not. -/
def Writes {β : Type*} (P : Prop) (mem : Memory) (p : Ptr) (b xs : Bytes)
    (res : Except Fault (Memory × β)) (done failed : β) : Prop :=
  (P ∧ res = .ok (stored mem p b xs, done))
    ∨ (¬ P ∧ ∃ ys, ys.length ≤ xs.length ∧ res = .ok (stored mem p b ys, failed))

/-- Encoding into a caller's buffer with room, given what the loop over the members does. -/
theorem encodeInternal_room {ms : List SimpletlvMember} {outlen : ℕ} (newptr : Option Ptr)
    (hb : Heap.Holds mem p.block b)
    (hloop : Writes (Encodable ms) mem p b (serialise ms)
      (encodeLoop .both ms mem p outlen p outlen)
      (some (p.add (serialise ms).length, outlen - (serialise ms).length)) none)
    (hroom : ((serialise ms).length : ℤ) ≤ toInt32 outlen) :
    Writes (Encodable ms) mem p b (serialise ms)
      (simpletlvEncodeInternal mem ms (some p) outlen newptr .both)
      ⟨(serialise ms).length, some p, some (p.add (serialise ms).length)⟩
      ⟨-1, some p, newptr⟩ := by
  have hmax := toInt32_le outlen
  have hle := toInt32_natCast_le outlen
  have hlen := simpletlvGetLength_both (show (serialise ms).length < 2 ^ 31 by omega)
  by_cases h0 : (serialise ms).length = 0
  · obtain ⟨hnil, henc, -⟩ := serialise_of_isNone (isNone_of_length_serialise h0)
    refine .inl ⟨henc, ?_⟩
    rw [simpletlvEncodeInternal, encodeWith, hlen, if_pos (by omega), hnil, stored_nil hb]
    rfl
  have hout : outlen ≠ 0 := by
    rintro rfl
    simp only [show toInt32 ((0 : ℕ) : ℤ) = 0 by decide] at hroom
    omega
  rw [simpletlvEncodeInternal, encodeWith, hlen, if_neg (by omega), if_neg (by omega),
    if_neg hout, if_pos hroom]
  rcases hloop with ⟨henc, heq⟩ | ⟨henc, ys, hys, heq⟩
  · refine .inl ⟨henc, ?_⟩
    have hrv : toSize ((outlen : ℤ) - (outlen - (serialise ms).length : ℕ))
        = (serialise ms).length := by
      rw [toSize_of_lt (by omega) (by omega)]
      omega
    simp only [heq, ok_bind, hrv, pure_eq, toInt32_natCast (show (serialise ms).length < 2 ^ 31 by
      omega)]
  · refine .inr ⟨henc, ys, hys, ?_⟩
    simp only [heq, ok_bind, pure_eq]

theorem encodeLeaf_room {tag : UInt8} {v : Bytes} {mem : Memory} {p : Ptr} {b : Bytes} {pLen : ℕ}
    (hb : Heap.Holds mem p.block b) (hfit : p.off + (record (.leaf tag v)).length ≤ b.length)
    (hroom : ((record (.leaf tag v)).length : ℤ) ≤ toInt32 pLen) :
    Writes (EncodableMember (.leaf tag v)) mem p b (record (.leaf tag v))
      (encodeMember .both (.leaf tag v) mem p pLen)
      (some (p.add (record (.leaf tag v)).length)) none := by
  have hle := toInt32_natCast_le pLen
  have htwo := two_le_length_header tag v.length
  simp only [record, List.length_append] at hfit hroom ⊢
  unfold encodeMember
  by_cases henc : TagOk tag ∧ v.length ≤ 65534
  · refine .inl ⟨henc, ?_⟩
    have hb' := stored_holds (header tag v.length) hb
    have hf : p.off + (header tag v.length).length ≤ b.length := by omega
    have hl := length_splice hf
    have htag := putTag_ok hb henc.1 henc.2 hf (show _ ≤ pLen by omega)
    simp only [SimpletlvBufferType.hasTl, SimpletlvBufferType.hasValue, if_true, htag, ok_bind]
    rw [store_eq (p := p.add (header tag v.length).length) hb' (by
      simp only [Ptr.add_off, hl]; omega), stored_stored hf, Ptr.add_add]
    rfl
  · obtain ⟨xs, hxs, heq⟩ := putTag_fail hb pLen henc (by omega)
    refine .inr ⟨henc, xs, ?_, ?_⟩
    · simp only [List.length_append]
      omega
    · simp only [SimpletlvBufferType.hasTl, if_true, heq, ok_bind, pure_eq]

mutual

theorem encodeMember_room : ∀ (m : SimpletlvMember) (mem : Memory) (p : Ptr) (b : Bytes)
    (pLen : ℕ), Heap.Holds mem p.block b → p.off + (record m).length ≤ b.length →
    ((record m).length : ℤ) ≤ toInt32 pLen → pLen < 2 ^ 64 →
    Writes (EncodableMember m) mem p b (record m) (encodeMember .both m mem p pLen)
      (some (p.add (record m).length)) none
  | .none _ _ _ => by
    intro mem p b pLen hb _ _ _
    exact .inl ⟨trivial, by rw [record, stored_nil hb]; rfl⟩
  | .leaf _ _ => fun _ _ _ _ hb hfit hroom _ => encodeLeaf_room hb hfit hroom
  | .compound tag cs => by
    intro mem p b pLen hb hfit hroom h64
    have hle := toInt32_natCast_le pLen
    have hmax := toInt32_le pLen
    have htwo := two_le_length_header tag (serialise cs).length
    simp only [record, List.length_append] at hfit hroom ⊢
    have hlen := simpletlvGetLength_both (show (serialise cs).length < 2 ^ 31 by omega)
    have hsize : toSize (simpletlvGetLength cs .both) = (serialise cs).length := by
      rw [hlen, toSize_of_lt (by omega) (by omega)]
      omega
    unfold encodeMember
    simp only [SimpletlvBufferType.hasTl, SimpletlvBufferType.hasValue, if_true, hsize]
    by_cases htl : TagOk tag ∧ (serialise cs).length ≤ 65534
    · have hb' := stored_holds (header tag (serialise cs).length) hb
      have hf : p.off + (header tag (serialise cs).length).length ≤ b.length := by omega
      have hl := length_splice hf
      have hloop := encodeLoop_room cs _ _ (p.add (header tag (serialise cs).length).length) _ pLen
        pLen 0 hb' (Ptr.add_zero _).symm rfl h64 (by simp only [Ptr.add_off, hl]; omega) (by omega)
      rw [putTag_ok hb htl.1 htl.2 hf (by omega), ok_bind]
      have hint := encodeInternal_room none
        (p := p.add (header tag (serialise cs).length).length) hb' hloop (by omega)
      simp only [simpletlvEncodeInternal] at hint
      rcases hint with ⟨henc, heq⟩ | ⟨henc, ys, hys, heq⟩
      · refine .inl ⟨⟨htl, henc⟩, ?_⟩
        simp only [heq, ok_bind, pure_eq, if_neg (show ¬ ((serialise cs).length : ℤ) < 0 by omega)]
        rw [stored_stored hf, Ptr.add_add]
      · refine .inr ⟨fun h => henc h.2, header tag (serialise cs).length ++ ys, ?_, ?_⟩
        · simp only [List.length_append]
          omega
        · simp only [heq, ok_bind, pure_eq, if_pos (show (-1 : ℤ) < 0 by omega)]
          rw [stored_stored hf]
    · obtain ⟨xs, hxs, heq⟩ := putTag_fail hb pLen htl (by omega)
      refine .inr ⟨fun h => htl h.1, xs, ?_, ?_⟩
      · simp only [List.length_append]
        omega
      · simp only [heq, ok_bind, pure_eq]

theorem encodeLoop_room : ∀ (ms : List SimpletlvMember) (mem : Memory) (tmp p : Ptr) (b : Bytes)
    (tmpLen pLen k : ℕ), Heap.Holds mem p.block b → p = tmp.add k → pLen + k = tmpLen →
    tmpLen < 2 ^ 64 → p.off + (serialise ms).length ≤ b.length →
    ((serialise ms).length : ℤ) ≤ toInt32 pLen →
    Writes (Encodable ms) mem p b (serialise ms) (encodeLoop .both ms mem tmp tmpLen p pLen)
      (some (p.add (serialise ms).length, pLen - (serialise ms).length)) none
  | [] => by
    intro mem tmp p b tmpLen pLen k hb _ _ _ _ _
    exact .inl ⟨trivial, by rw [serialise, stored_nil hb]; rfl⟩
  | m :: ms => by
    intro mem tmp p b tmpLen pLen k hb hp hk h64 hfit hroom
    have hle := toInt32_natCast_le pLen
    simp only [serialise, List.length_append] at hfit hroom ⊢
    rcases hm : m.isNone with _ | _
    · rw [encodeLoop_cons _ hm]
      rcases encodeMember_room m mem p b pLen hb (by omega) (by omega) (by omega) with
        ⟨hmenc, heq⟩ | ⟨hmenc, ys, hys, heq⟩
      · have hf : p.off + (record m).length ≤ b.length := by omega
        have hl := length_splice hf
        have hused : Memory.diff (p.add (record m).length) tmp
            = .ok ((k + (record m).length : ℕ) : ℤ) := by
          rw [hp, Ptr.add_add, diff_add]
        have hsize : toSize ((tmpLen : ℤ) - (k + (record m).length : ℕ))
            = pLen - (record m).length := by
          rw [toSize_of_lt (by omega) (by omega)]
          omega
        have hrest := encodeLoop_room ms (stored mem p b (record m)) tmp (p.add (record m).length)
          (splice b p.off (record m)) tmpLen (pLen - (record m).length) (k + (record m).length)
          (stored_holds _ hb) (by rw [hp, Ptr.add_add]) (by omega) h64
          (by simp only [Ptr.add_off, hl]; omega)
          (by rw [toInt32_sub (n := pLen) (k := (record m).length) (by omega) (by omega)]; omega)
        simp only [heq, ok_bind, hused, hsize]
        rw [Ptr.add_add, Nat.sub_sub] at hrest
        rcases hrest with ⟨henc, heq'⟩ | ⟨henc, ys, hys, heq'⟩
        · exact .inl ⟨⟨hmenc, henc⟩, by rw [heq', stored_stored hf]⟩
        · refine .inr ⟨fun h => henc h.2, record m ++ ys, ?_, ?_⟩
          · simp only [List.length_append]
            omega
          · rw [heq', stored_stored hf]
      · refine .inr ⟨fun h => hmenc h.1, ys, ?_, ?_⟩
        · simp only [List.length_append]
          omega
        · simp only [heq, ok_bind, pure_eq]
    · rcases m with ⟨t, l, v⟩ | _ | _
      · have hrest := encodeLoop_room ms mem tmp p b tmpLen pLen k hb hp hk h64 (by omega) (by omega)
        simpa [Writes, encodeLoop, record, Encodable, EncodableMember] using hrest
      · simp [SimpletlvMember.isNone] at hm
      · simp [SimpletlvMember.isNone] at hm

end

end Room

end Libcacard
