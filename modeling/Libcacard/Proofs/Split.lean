import Libcacard.CacFiles
import Libcacard.Split
import Libcacard.Proofs.Encode
import Libcacard.Proofs.Parse

/-!
# Writing one half

The encoder writes the half that is asked for, in a buffer of the length it was told. Only tags
and lengths can make it fail, so the values of any flat list can be written. A file is made only
of a half that is not empty and whose length is an `int`.
-/

namespace Libcacard

open Machine Memory

/-- The length of a leaf's value is that of something in memory. -/
def Sized (ms : List SimpletlvMember) : Prop :=
  ∀ m ∈ ms, ∀ tag v, m = .leaf tag v → v.length < 2 ^ 31

variable {ty : SimpletlvBufferType} {ms : List SimpletlvMember}

theorem half_cons (m : SimpletlvMember) : half ty (m :: ms) = halfRecord ty m ++ half ty ms := by
  simp [half]

section Lengths

theorem memberLength_half {m : SimpletlvMember} (hm : m.isCompound = false)
    (hs : ∀ tag v, m = .leaf tag v → v.length < 2 ^ 31) :
    memberLength ty m = some ((halfRecord ty m).length : ℤ) := by
  cases m with
  | none => rfl
  | compound => simp [SimpletlvMember.isCompound] at hm
  | leaf tag v =>
    have hint := toInt32_natCast (hs tag v rfl)
    have hhead := length_header tag v.length
    rw [memberLength, hint, recordLength, halfRecord, List.length_append]
    cases ty with
    | value => simp [SimpletlvBufferType.hasTl, SimpletlvBufferType.hasValue]
    | tl | both =>
      simp only [SimpletlvBufferType.hasTl, SimpletlvBufferType.hasValue, if_true, hhead,
        List.length_nil, Bool.false_eq_true, if_false]
      split_ifs <;> first | rfl | omega

theorem lengthLoop_half : ∀ {ms : List SimpletlvMember}, Flat ms → Sized ms →
    lengthLoop ty ms = some ((half ty ms).length : ℤ)
  | [], _, _ => rfl
  | m :: ms, hf, hs => by
    rw [lengthLoop, memberLength_half (hf m (by simp)) (hs m (by simp)),
      lengthLoop_half (fun m hm => hf m (by simp [hm])) (fun m hm => hs m (by simp [hm])),
      half_cons, List.length_append]
    simp

theorem simpletlvGetLength_half (hf : Flat ms) (hs : Sized ms) :
    simpletlvGetLength ms ty = toInt32 (half ty ms).length := by
  rw [simpletlvGetLength, lengthLoop_half hf hs]

end Lengths

section Writing

theorem encodeMember_half {mem : Memory} {p : Ptr} {b : Bytes} {pLen : ℕ} {m : SimpletlvMember}
    (hm : m.isCompound = false) (hb : Heap.Holds mem p.block b)
    (hfit : p.off + (halfRecord ty m).length ≤ b.length)
    (hroom : (halfRecord ty m).length ≤ pLen) :
    Writes (HalfEncodable ty [m]) mem p b (halfRecord ty m) (encodeMember ty m mem p pLen)
      (some (p.add (halfRecord ty m).length)) none := by
  cases m with
  | none => exact .inl ⟨fun _ => ⟨trivial, trivial⟩, by rw [halfRecord, stored_nil hb]; rfl⟩
  | compound => simp [SimpletlvMember.isCompound] at hm
  | leaf tag v =>
    have htwo := two_le_length_header tag v.length
    unfold encodeMember
    rcases htl : ty.hasTl with _ | _
    · have hrec : halfRecord ty (.leaf tag v) = if ty.hasValue then v else [] := by
        simp [halfRecord, htl]
      refine .inl ⟨fun h => by simp [htl] at h, ?_⟩
      rw [hrec] at hfit ⊢
      rcases hv : ty.hasValue with _ | _
      · simp only [Bool.false_eq_true, if_false, ok_bind, stored_nil hb]
        rfl
      · simp only [hv, if_true] at hfit
        simp only [Bool.false_eq_true, if_false, if_true, ok_bind, store_eq hb hfit]
        rfl
    · have hrec : halfRecord ty (.leaf tag v)
          = header tag v.length ++ if ty.hasValue then v else [] := by
        simp [halfRecord, htl]
      rw [hrec] at hfit hroom ⊢
      rw [List.length_append] at hfit hroom
      have hf : p.off + (header tag v.length).length ≤ b.length := by omega
      by_cases henc : TagOk tag ∧ v.length ≤ 65534
      · refine .inl ⟨fun _ => ⟨henc, trivial⟩, ?_⟩
        have hb' := stored_holds (header tag v.length) hb
        have hl := length_splice hf
        simp only [if_true, putTag_ok hb henc.1 henc.2 hf (show _ ≤ pLen by omega), ok_bind]
        rcases hv : ty.hasValue with _ | _
        · simp
        · simp only [hv, if_true] at hfit
          rw [if_pos rfl, store_eq (p := p.add (header tag v.length).length) hb' (by
            simp only [Ptr.add_off, hl]; omega), stored_stored hf, if_pos rfl, Ptr.add_add,
            List.length_append]
          rfl
      · obtain ⟨xs, hxs, heq⟩ := putTag_fail hb pLen henc (by omega)
        refine .inr ⟨fun h => henc (h htl).1, xs, ?_, ?_⟩
        · rw [List.length_append]
          omega
        · simp only [if_true, heq, ok_bind, pure_eq]

theorem halfEncodable_cons {m : SimpletlvMember} :
    HalfEncodable ty (m :: ms) ↔ HalfEncodable ty [m] ∧ HalfEncodable ty ms := by
  simp only [HalfEncodable, Encodable, and_true]
  constructor
  · exact fun h => ⟨fun ht => (h ht).1, fun ht => (h ht).2⟩
  · exact fun h ht => ⟨h.1 ht, h.2 ht⟩

theorem encodeLoop_half : ∀ (ms : List SimpletlvMember) (mem : Memory) (tmp p : Ptr) (b : Bytes)
    (tmpLen pLen k : ℕ), Flat ms → Heap.Holds mem p.block b → p = tmp.add k → pLen + k = tmpLen →
    tmpLen < 2 ^ 64 → p.off + (half ty ms).length ≤ b.length → (half ty ms).length ≤ pLen →
    Writes (HalfEncodable ty ms) mem p b (half ty ms) (encodeLoop ty ms mem tmp tmpLen p pLen)
      (some (p.add (half ty ms).length, pLen - (half ty ms).length)) none
  | [], mem, tmp, p, b, tmpLen, pLen, k, _, hb, _, _, _, _, _ =>
    .inl ⟨fun _ => trivial, by rw [half, List.flatMap_nil, stored_nil hb]; rfl⟩
  | m :: ms, mem, tmp, p, b, tmpLen, pLen, k, hflat, hb, hp, hk, h64, hfit, hroom => by
    have hms : Flat ms := fun m hm => hflat m (by simp [hm])
    rw [half_cons, List.length_append] at hfit hroom
    have hf : p.off + (halfRecord ty m).length ≤ b.length := by omega
    have hl := length_splice hf
    have hrest := encodeLoop_half ms (stored mem p b (halfRecord ty m)) tmp
      (p.add (halfRecord ty m).length) (splice b p.off (halfRecord ty m)) tmpLen
      (pLen - (halfRecord ty m).length) (k + (halfRecord ty m).length) hms
      (stored_holds _ hb) (by rw [hp, Ptr.add_add]) (by omega) h64
      (by simp only [Ptr.add_off, hl]; omega) (by omega)
    rw [Ptr.add_add, Nat.sub_sub, ← List.length_append, ← half_cons] at hrest
    rcases hnone : m.isNone with _ | _
    · rw [encodeLoop_cons _ hnone]
      rcases encodeMember_half (hflat m (by simp)) hb hf
        (show (halfRecord ty m).length ≤ pLen by omega) with
        ⟨henc, heq⟩ | ⟨henc, ys, hys, heq⟩
      · have hused : Memory.diff (p.add (halfRecord ty m).length) tmp
            = .ok ((k + (halfRecord ty m).length : ℕ) : ℤ) := by
          rw [hp, Ptr.add_add, diff_add]
        have hsize : toSize ((tmpLen : ℤ) - (k + (halfRecord ty m).length : ℕ))
            = pLen - (halfRecord ty m).length := by
          rw [toSize_of_lt (by omega) (by omega)]
          omega
        simp only [heq, ok_bind, hused, hsize]
        rcases hrest with ⟨henc', heq'⟩ | ⟨henc', ys, hys, heq'⟩
        · exact .inl ⟨halfEncodable_cons.2 ⟨henc, henc'⟩, by
            rw [heq', stored_stored hf, ← half_cons]⟩
        · refine .inr ⟨fun h => henc' (halfEncodable_cons.1 h).2, halfRecord ty m ++ ys, ?_, ?_⟩
          · rw [half_cons, List.length_append, List.length_append]
            omega
          · rw [heq', stored_stored hf]
      · refine .inr ⟨fun h => henc (halfEncodable_cons.1 h).1, ys, ?_, ?_⟩
        · rw [half_cons, List.length_append]
          omega
        · simp only [heq, ok_bind, pure_eq]
    · rcases m with ⟨t, l, v⟩ | _ | _
      · have hnil : halfRecord ty (.none t l v) = [] := rfl
        rw [hnil, stored_nil hb, splice_nil] at hrest
        simpa [Writes, encodeLoop, half_cons, hnil, halfEncodable_cons, HalfEncodable,
          Encodable, EncodableMember, Ptr.add_zero] using hrest
      · simp [SimpletlvMember.isNone] at hnone
      · simp [SimpletlvMember.isNone] at hnone

end Writing

section Files

/-- The encoder of one half, in a buffer of just its length. -/
theorem encodeInternal_half {mem : Memory} {p : Ptr} {b : Bytes} (hflat : Flat ms)
    (hsized : Sized ms) (h0 : 0 < (half ty ms).length) (hlt : (half ty ms).length < 2 ^ 31)
    (hb : Heap.Holds mem p.block b) (hfit : p.off + (half ty ms).length ≤ b.length) :
    Writes (HalfEncodable ty ms) mem p b (half ty ms)
      (simpletlvEncodeInternal mem ms (some p) (half ty ms).length none ty)
      ⟨(half ty ms).length, some p, some (p.add (half ty ms).length)⟩ ⟨-1, some p, none⟩ := by
  have hint : toInt32 (half ty ms).length = (half ty ms).length := toInt32_natCast hlt
  have hloop := encodeLoop_half ms mem p p b (half ty ms).length (half ty ms).length 0
    hflat hb rfl rfl (by omega) hfit (Nat.le_refl _)
  rw [simpletlvEncodeInternal, encodeWith, simpletlvGetLength_half hflat hsized, hint,
    if_neg (by omega), if_neg (by omega), if_neg (by omega), if_pos (Int.le_refl _)]
  rcases hloop with ⟨henc, heq⟩ | ⟨henc, ys, hys, heq⟩
  · refine .inl ⟨henc, ?_⟩
    have hrv : toSize (((half ty ms).length : ℤ) - ((half ty ms).length - (half ty ms).length : ℕ))
        = (half ty ms).length := by
      rw [toSize_of_lt (by omega) (by omega)]
      omega
    simp only [heq, ok_bind, hrv, pure_eq, hint]
  · exact .inr ⟨henc, ys, hys, by simp only [heq, ok_bind, pure_eq]⟩

/-- A buffer for a file with the half written behind the two bytes of its length. -/
theorem splice_file {zeros h l : Bytes} (hz : zeros.length = 2 + h.length) (hl : l.length = 2) :
    splice (splice zeros 2 h) 0 l = l ++ h := by
  have hlen := length_splice (show 2 + h.length ≤ zeros.length by omega)
  rw [splice, List.take_zero, List.nil_append, hl, splice]
  congr 1
  rw [List.append_assoc, List.drop_left' (by simp; omega), List.drop_eq_nil_of_le (by omega),
    List.append_nil]

/-- The length in front of what was written behind it. -/
theorem storePrefix_holds {mem : Memory} {zeros xs : Bytes} (hb : Heap.Holds mem 0 zeros)
    (hzeros : zeros.length = 2 + xs.length) :
    ∃ mem', Memory.store (Memory.stored mem ⟨0, 2⟩ zeros xs) ⟨0, 0⟩ (ushort2lebytes xs.length)
        = .ok mem' ∧ Heap.Holds mem' 0 (ushort2lebytes xs.length ++ xs) := by
  have hb' := stored_holds xs (p := ⟨0, 2⟩) hb
  have hl := length_splice hzeros.ge
  have hfile := splice_file hzeros (length_ushort2lebytes xs.length)
  have hroom : 0 + (ushort2lebytes xs.length).length ≤ (splice zeros 2 xs).length := by
    rw [hl, length_ushort2lebytes]
    omega
  refine ⟨_, store_eq (p := ⟨0, 0⟩) hb' hroom, ?_⟩
  rw [← hfile]
  exact stored_holds _ (p := ⟨0, 0⟩) hb'

/-- The calls a file is made with. -/
theorem cacCreateFile_calls {n : ℕ} (hlen : simpletlvGetLength ms ty = n) (hn : n < 2 ^ 31 - 2)
    (hty : ty ≠ .both) :
    cacCreateFile ms ty = (do
      let (mem, r) ← simpletlvEncodeInternal [some (List.replicate (2 + n) 0)] ms (some ⟨0, 2⟩) n
        none ty
      if r.rv ≤ 0 then return none
      let mem ← Memory.store mem ⟨0, 0⟩ (ushort2lebytes r.rv.toNat)
      return some (← Heap.read mem 0)) := by
  have hsize : ((2 : ℤ) + n).toNat = 2 + n := by omega
  unfold cacCreateFile
  rw [hlen, if_neg (by omega), if_neg (by omega), Int.toNat_natCast, hsize]
  cases ty with
  | tl | value => rfl
  | both => exact absurd rfl hty

theorem cacCreateFile_eq (hflat : Flat ms) (hsized : Sized ms) (hty : ty ≠ .both)
    (hlt : (half ty ms).length < 2 ^ 32) :
    cacCreateFile ms ty = if FileOverflows ty ms then .error .overflow
      else .ok (fileOf ty ms) := by
  have hlen : simpletlvGetLength ms ty = toInt32 (half ty ms).length :=
    simpletlvGetLength_half hflat hsized
  by_cases hneg : 2 ^ 31 ≤ (half ty ms).length
  · have hwrap : toInt32 (half ty ms).length < 0 := by
      obtain ⟨k, hk⟩ := toInt32_emod (half ty ms).length
      have := toInt32_le (half ty ms).length
      have := le_toInt32 (half ty ms).length
      omega
    rw [if_neg (fun h => absurd h.2 (by omega)), fileOf, if_neg (fun h => absurd h.2.1 (by omega))]
    unfold cacCreateFile
    rw [hlen, if_pos hwrap]
    rfl
  have hint : toInt32 (half ty ms).length = (half ty ms).length := toInt32_natCast (by omega)
  rw [hint] at hlen
  by_cases hover : FileOverflows ty ms
  · have h2 : (2 : ℤ) ^ 31 ≤ 2 + (half ty ms).length := by
      have := hover.1
      omega
    rw [if_pos hover]
    unfold cacCreateFile
    rw [hlen, if_neg (by omega), if_pos h2]
    rfl
  have hlt31 : (half ty ms).length < 2 ^ 31 - 2 :=
    Nat.lt_of_not_le fun h => hover ⟨h, Nat.lt_of_not_le hneg⟩
  rw [if_neg hover, cacCreateFile_calls hlen hlt31 hty, fileOf]
  rcases Nat.eq_zero_or_pos (half ty ms).length with h0 | h0
  · rw [if_neg (fun h => absurd h.1 (by omega)), simpletlvEncodeInternal, encodeWith, hlen,
      if_pos (by omega)]
    rfl
  have hb : Heap.Holds ([some (List.replicate (2 + (half ty ms).length) 0)] : Memory) 0
    (List.replicate (2 + (half ty ms).length) 0) := rfl
  rcases encodeInternal_half hflat hsized h0 (by omega) (p := ⟨0, 2⟩) hb (by simp) with
    ⟨henc, heq⟩ | ⟨henc, ys, hys, heq⟩
  · obtain ⟨mem, hstore, hread⟩ := storePrefix_holds hb List.length_replicate
    rw [if_pos ⟨h0, by omega, henc⟩, heq, ok_bind]
    simp only [if_neg (show ¬ ((half ty ms).length : ℤ) ≤ 0 by omega), Int.toNat_natCast]
    rw [hstore, ok_bind, Heap.read_of_holds hread]
    simp only [ok_bind, pure_eq, halfFile]
  · rw [if_neg (fun h => henc h.2.2), heq, ok_bind]
    rfl

end Files

section Parsed

/-- A leaf whose length was read from two bytes or one. -/
def Parsed (ms : List SimpletlvMember) : Prop :=
  ∀ m ∈ ms, ∃ tag v, m = .leaf tag v ∧ v.length < 65536

theorem RawRecord.exists_leaf {raw : Bytes} {m : SimpletlvMember} (h : RawRecord raw m) :
    ∃ tag v, m = .leaf tag v ∧ v.length < 65536 := by
  cases h with
  | short tag v hv => exact ⟨tag, v, rfl, by omega⟩
  | long tag v hv => exact ⟨tag, v, rfl, hv⟩

theorem RawRecord.length_halfRecord_le {raw : Bytes} {m : SimpletlvMember} (h : RawRecord raw m) :
    (halfRecord ty m).length ≤ raw.length := by
  cases h with
  | short tag v hv | long tag v hv =>
    have hhead := length_header tag v.length
    cases ty <;> simp only [halfRecord, SimpletlvBufferType.hasTl, SimpletlvBufferType.hasValue,
      Bool.false_eq_true, if_true, if_false, List.length_append, List.length_cons,
      List.length_nil, length_ushort2lebytes, hhead] <;> first | omega | (split_ifs <;> omega)

theorem length_half_le : ∀ {raws : List Bytes} {ms : List SimpletlvMember},
    List.Forall₂ RawRecord raws ms → (half ty ms).length ≤ raws.flatten.length
  | _, _, .nil => by simp [half]
  | raw :: raws, m :: ms, .cons h hs => by
    have hm : (halfRecord ty m).length ≤ raw.length := h.length_halfRecord_le
    have hms := length_half_le hs
    rw [half_cons, List.flatten_cons, List.length_append, List.length_append]
    omega

theorem parsed_of_records : ∀ {raws : List Bytes} {ms : List SimpletlvMember},
    List.Forall₂ RawRecord raws ms → Parsed ms
  | _, _, .nil => by simp [Parsed]
  | _ :: _, _ :: _, .cons h hs => List.forall_mem_cons.2 ⟨h.exists_leaf, parsed_of_records hs⟩

theorem exists_parsed (d : Bytes) : ∃ ms, simpletlvParse d = .ok ms ∧ Parsed ms
    ∧ ∀ ty, (half ty ms).length ≤ d.length := by
  obtain ⟨ms, raws, rest, hparse, hraws, hd, -⟩ := simpletlvParse_records d
  refine ⟨ms, hparse, parsed_of_records hraws, fun ty => ?_⟩
  have hle : (half ty ms).length ≤ raws.flatten.length := length_half_le hraws
  rw [hd, List.length_append]
  omega

theorem Parsed.flat (h : Parsed ms) : Flat ms := fun m hm => by
  obtain ⟨tag, v, rfl, -⟩ := h m hm
  rfl

theorem Parsed.sized (h : Parsed ms) : Sized ms := fun m hm tag v heq => by
  obtain ⟨tag', v', rfl, hv⟩ := h m hm
  cases heq
  omega

end Parsed

section Joining

theorem readTag_header (tag : UInt8) {n : ℕ} (hn : n ≤ 65534) (rest : Bytes) :
    simpletlvReadTag (header tag n ++ rest) 0 (header tag n ++ rest).length
      = .ok ((header tag n).length, some (tag, n)) := by
  have hread := simpletlvReadTag_append [] (header tag n ++ rest)
  rw [List.nil_append, List.length_nil] at hread
  rw [hread]
  unfold header
  split_ifs with hlt
  · have hne : UInt8.ofNat n ≠ 0xff := fun h => by
      have := congrArg UInt8.toNat h
      simp only [UInt8.toNat_ofNat', UInt8.reduceToNat] at this
      omega
    have htoNat : (UInt8.ofNat n).toNat = n := by
      rw [UInt8.toNat_ofNat']
      omega
    simp [hne, htoNat]
  · simp [ushort2lebytes, lebytes2ushort_ofNat (show n < 65536 by omega)]

theorem rejoinFrom_halves : ∀ {ms : List SimpletlvMember} {fuel : ℕ},
    (∀ m ∈ ms, ∃ tag v, m = .leaf tag v ∧ v.length ≤ 65534) → (half .tl ms).length ≤ fuel →
    rejoinFrom fuel (half .tl ms) (half .value ms) = some ms
  | [], fuel, _, _ => by cases fuel <;> rfl
  | m :: ms, fuel, hms, hfuel => by
    obtain ⟨⟨tag, v, rfl, hv⟩, hrest⟩ := List.forall_mem_cons.1 hms
    have htl : halfRecord .tl (.leaf tag v) = header tag v.length := List.append_nil _
    have hvalue : halfRecord .value (.leaf tag v) = v := rfl
    have htwo := two_le_length_header tag v.length
    rw [half_cons, htl, List.length_append] at hfuel
    rw [half_cons, half_cons, htl, hvalue]
    obtain ⟨fuel, rfl⟩ : ∃ f, fuel = f + 1 := ⟨fuel - 1, by omega⟩
    have ih := rejoinFrom_halves hrest (show (half .tl ms).length ≤ fuel by omega)
    have hread := readTag_header tag hv (half .tl ms)
    rcases hcons : header tag v.length ++ half .tl ms with _ | ⟨b, bs⟩
    · have := congrArg List.length hcons
      simp only [List.length_append, List.length_nil] at this
      omega
    rw [hcons] at hread
    simp only [rejoinFrom, hread]
    rw [← hcons, List.drop_left, List.drop_left, List.take_left, if_neg (by simp), ih]
    rfl

/-- Cutting the values by the lengths gives the leaves back. -/
theorem rejoin_halves (hms : ∀ m ∈ ms, ∃ tag v, m = .leaf tag v ∧ v.length ≤ 65534) :
    rejoin (half .tl ms) (half .value ms) = some ms :=
  rejoinFrom_halves hms (Nat.le_refl _)

end Joining

section ObjectFiles

theorem isFile_halfFile_iff :
    IsFile (halfFile ty ms) (half ty ms) ↔ (half ty ms).length ≤ 65535 := by
  constructor
  · rintro ⟨lo, hi, hfile, hlen⟩
    have := lebytes2ushort_lt lo hi
    omega
  · exact fun h => ⟨_, _, rfl, lebytes2ushort_ofNat (by omega)⟩

theorem half_tl_pos (hparsed : Parsed ms) (h : 0 < (half .value ms).length) :
    0 < (half .tl ms).length := by
  rcases ms with _ | ⟨m, ms⟩
  · simp [half] at h
  · obtain ⟨tag, v, rfl, -⟩ := hparsed m (by simp)
    have := two_le_length_header tag v.length
    have htl : halfRecord .tl (.leaf tag v) = header tag v.length := List.append_nil _
    rw [half_cons, htl, List.length_append]
    omega

theorem exists_fileOf {body : Bytes} (h : ∃ file, fileOf ty ms = some file ∧ IsFile file body) :
    0 < (half ty ms).length ∧ HalfEncodable ty ms ∧ IsFile (halfFile ty ms) body := by
  obtain ⟨file, hfile, his⟩ := h
  unfold fileOf at hfile
  split_ifs at hfile with hok
  cases hfile
  exact ⟨hok.1, hok.2.2, his⟩

theorem length_le_of_encodable : ∀ {ms : List SimpletlvMember}, Parsed ms → Encodable ms →
    ∀ m ∈ ms, ∃ tag v, m = .leaf tag v ∧ v.length ≤ 65534
  | [], _, _ => by simp
  | m :: ms, hp, he => by
    obtain ⟨tag, v, rfl, -⟩ := hp m (by simp)
    refine List.forall_mem_cons.2 ⟨⟨tag, v, rfl, he.1.2⟩, ?_⟩
    exact length_le_of_encodable (fun m hm => hp m (by simp [hm])) he.2

/-- When the two files made of leaves are a pair that gives them back. -/
theorem filesOf_iff (hparsed : Parsed ms) :
    FilesOf ms (fileOf .tl ms) (fileOf .value ms) ↔ FilesFit ms := by
  constructor
  · rintro ⟨htag, hval, -⟩
    obtain ⟨-, henc, htl⟩ := exists_fileOf htag
    obtain ⟨hpos, -, hvalue⟩ := exists_fileOf hval
    exact ⟨henc rfl, isFile_halfFile_iff.1 htl, isFile_halfFile_iff.1 hvalue, hpos⟩
  · rintro ⟨henc, htl, hvalue, hpos⟩
    have hfile : fileOf .tl ms = some (halfFile .tl ms) :=
      if_pos ⟨half_tl_pos hparsed hpos, by omega, fun _ => henc⟩
    have hfile' : fileOf .value ms = some (halfFile .value ms) :=
      if_pos ⟨hpos, by omega, fun h => by simp [SimpletlvBufferType.hasTl] at h⟩
    rw [hfile, hfile']
    refine ⟨⟨_, rfl, isFile_halfFile_iff.2 htl⟩, ⟨_, rfl, isFile_halfFile_iff.2 hvalue⟩, ?_⟩
    rintro t v ⟨⟩ ⟨⟩
    rw [halfFile, halfFile, List.drop_left' (length_ushort2lebytes _),
      List.drop_left' (length_ushort2lebytes _)]
    exact rejoin_halves (length_le_of_encodable hparsed henc)

end ObjectFiles

end Libcacard
