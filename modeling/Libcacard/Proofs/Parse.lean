import Libcacard.Serialise

/-!
# What the parser finds

The parser takes complete records off the front until what is left does not begin with one, and
reads nothing outside its buffer.
-/

namespace Libcacard

open Machine

theorem lebytes2ushort_bytes {x : ℕ} (h : x < 65536) :
    ∃ lo hi, ushort2lebytes x = [lo, hi] ∧ lebytes2ushort lo hi = x :=
  ⟨_, _, rfl, lebytes2ushort_ofNat h⟩

theorem ushort2lebytes_lebytes (lo hi : UInt8) :
    ushort2lebytes (lebytes2ushort lo hi) = [lo, hi] := by
  have h1 := lo.toNat_lt
  have h2 := hi.toNat_lt
  simp only [ushort2lebytes, lebytes2ushort, List.cons.injEq, and_true]
  constructor <;> apply UInt8.toNat_inj.1 <;> rw [UInt8.toNat_ofNat'] <;> omega

/-- `simpletlv_read_tag` where `xs` is what is left of the buffer. -/
theorem simpletlvReadTag_append (pre : Bytes) : ∀ xs : Bytes,
    simpletlvReadTag (pre ++ xs) pre.length xs.length =
      match xs with
      | [] | [_] => .ok (pre.length + xs.length, none)
      | tag :: l :: ys =>
        if l = 0xff then
          match ys with
          | lo :: hi :: _ => .ok (pre.length + 4, some (tag, lebytes2ushort lo hi))
          | _ => .ok (pre.length, none)
        else .ok (pre.length + 2, some (tag, l.toNat))
  | [] | [_] => by simp [simpletlvReadTag]
  | tag :: l :: ys => by
    have h0 : readByte (pre ++ tag :: l :: ys) pre.length = .ok tag := readByte_append pre rfl
    have h1 : readByte (pre ++ tag :: l :: ys) (pre.length + 1) = .ok l := by
      simpa using readByte_append (pre ++ [tag]) (b := l) (by simp)
    unfold simpletlvReadTag
    rw [if_neg (by simp only [List.length_cons]; omega), h0, h1]
    simp only [ok_bind]
    by_cases hl : l = 0xff
    · rw [if_pos hl, if_pos hl]
      rcases ys with _ | ⟨lo, _ | ⟨hi, zs⟩⟩
      · simp
      · simp
      · have h2 : readByte (pre ++ tag :: l :: lo :: hi :: zs) (pre.length + 2) = .ok lo := by
          simpa using readByte_append (pre ++ [tag, l]) (b := lo) (by simp)
        have h3 : readByte (pre ++ tag :: l :: lo :: hi :: zs) (pre.length + 3) = .ok hi := by
          simpa using readByte_append (pre ++ [tag, l, lo]) (b := hi) (by simp)
        rw [if_neg (by simp only [List.length_cons]; omega), h2, h3]
        rfl
    · rw [if_neg hl, if_neg hl]
      rfl

section Loop

variable {pre xs : Bytes} {acc : List SimpletlvMember}

theorem parseLoop_stop {q : ℕ}
    (h : simpletlvReadTag (pre ++ xs) pre.length xs.length = .ok (q, none)) :
    simpletlvParseLoop (pre ++ xs) pre.length (pre ++ xs).length acc = .ok acc := by
  rw [simpletlvParseLoop.eq_def]
  have hlen : (pre ++ xs).length - pre.length = xs.length := by simp
  split
  · rw [hlen]
    split
    · simp_all
    · rfl
    · simp_all
  · rfl

theorem parseLoop_short {q vlen : ℕ} {tag : UInt8}
    (h : simpletlvReadTag (pre ++ xs) pre.length xs.length = .ok (q, some (tag, vlen)))
    (hlt : (pre ++ xs).length - q < vlen) :
    simpletlvParseLoop (pre ++ xs) pre.length (pre ++ xs).length acc = .ok acc := by
  rw [simpletlvParseLoop.eq_def]
  have hlen : (pre ++ xs).length - pre.length = xs.length := by simp
  split
  · rw [hlen]
    split
    · simp_all
    · rfl
    · rename_i heq
      rw [h] at heq
      simp only [Except.ok.injEq, Prod.mk.injEq, Option.some.injEq] at heq
      obtain ⟨rfl, rfl, rfl⟩ := heq
      rw [if_pos hlt]
  · rfl

theorem parseLoop_step {q vlen : ℕ} {tag : UInt8} {v : Bytes} (hne : xs ≠ [])
    (h : simpletlvReadTag (pre ++ xs) pre.length xs.length = .ok (q, some (tag, vlen)))
    (hle : ¬ (pre ++ xs).length - q < vlen) (hv : readBytes (pre ++ xs) q vlen = .ok v) :
    simpletlvParseLoop (pre ++ xs) pre.length (pre ++ xs).length acc
      = simpletlvParseLoop (pre ++ xs) (q + vlen) (pre ++ xs).length (acc ++ [.leaf tag v]) := by
  conv_lhs => rw [simpletlvParseLoop.eq_def]
  have hlen : (pre ++ xs).length - pre.length = xs.length := by simp
  have hpos := List.length_pos_iff.2 hne
  rw [if_pos (by simp only [List.length_append]; omega), hlen]
  split
  · simp_all
  · simp_all
  · rename_i heq
    rw [h] at heq
    simp only [Except.ok.injEq, Prod.mk.injEq, Option.some.injEq] at heq
    obtain ⟨rfl, rfl, rfl⟩ := heq
    rw [if_neg hle, hv]

end Loop

section Records

theorem parseLoop_record {pre raw rest : Bytes} {m : SimpletlvMember}
    {acc : List SimpletlvMember} (h : RawRecord raw m) :
    simpletlvParseLoop (pre ++ (raw ++ rest)) pre.length (pre ++ (raw ++ rest)).length acc
      = simpletlvParseLoop (pre ++ raw ++ rest) (pre ++ raw).length (pre ++ raw ++ rest).length
        (acc ++ [m]) := by
  cases h with
  | short tag v hv =>
    have hl : UInt8.ofNat v.length ≠ 0xff := by
      intro h
      have := congrArg UInt8.toNat h
      simp only [UInt8.toNat_ofNat', UInt8.reduceToNat] at this
      omega
    have hlen : (UInt8.ofNat v.length).toNat = v.length := by
      rw [UInt8.toNat_ofNat']
      omega
    have hread := simpletlvReadTag_append pre (tag :: UInt8.ofNat v.length :: v ++ rest)
    simp only [List.cons_append, if_neg hl, hlen] at hread
    simp only [List.cons_append]
    rw [parseLoop_step (by simp) hread (by simp only [List.length_append, List.length_cons]; omega)
      (v := v) (by
        simpa using readBytes_append (pre ++ [tag, UInt8.ofNat v.length]) (by simp) rfl),
      show pre.length + 2 + v.length = (pre ++ tag :: UInt8.ofNat v.length :: v).length by
        simp only [List.length_append, List.length_cons]; omega]
    simp
  | long tag v hv =>
    obtain ⟨lo, hi, hbytes, hval⟩ := lebytes2ushort_bytes hv
    have hread := simpletlvReadTag_append pre (tag :: 0xff :: (lo :: hi :: v) ++ rest)
    simp only [List.cons_append, if_true, hval] at hread
    simp only [hbytes, List.cons_append, List.nil_append]
    rw [parseLoop_step (by simp) hread (by simp only [List.length_append, List.length_cons]; omega)
      (v := v) (by
        simpa using readBytes_append (pre ++ [tag, 0xff, lo, hi]) (by simp) rfl),
      show pre.length + 4 + v.length = (pre ++ tag :: 0xff :: lo :: hi :: v).length by
        simp only [List.length_append, List.length_cons]; omega]
    simp

theorem parseLoop_incomplete {pre : Bytes} {acc : List SimpletlvMember} : ∀ {rest : Bytes},
    Incomplete rest →
    simpletlvParseLoop (pre ++ rest) pre.length (pre ++ rest).length acc = .ok acc
  | [], _ => parseLoop_stop (simpletlvReadTag_append pre [])
  | [x], _ => parseLoop_stop (simpletlvReadTag_append pre [x])
  | tag :: l :: ys, h => by
    have hread := simpletlvReadTag_append pre (tag :: l :: ys)
    by_cases hl : l = 0xff
    · simp only [Incomplete, if_pos hl] at h
      simp only [if_pos hl] at hread
      rcases ys with _ | ⟨lo, _ | ⟨hi, zs⟩⟩
      · exact parseLoop_stop hread
      · exact parseLoop_stop hread
      · exact parseLoop_short hread (by simp only [List.length_append, List.length_cons]; omega)
    · simp only [Incomplete, if_neg hl] at h
      simp only [if_neg hl] at hread
      exact parseLoop_short hread (by simp only [List.length_append, List.length_cons]; omega)

/-- The loop takes complete records off the front one by one. -/
theorem parseLoop_flatten {rest : Bytes} (hrest : Incomplete rest) :
    ∀ {raws : List Bytes} {tlv : List SimpletlvMember} (pre : Bytes) (acc : List SimpletlvMember),
      List.Forall₂ RawRecord raws tlv →
      simpletlvParseLoop (pre ++ (raws.flatten ++ rest)) pre.length
        (pre ++ (raws.flatten ++ rest)).length acc = .ok (acc ++ tlv)
  | _, _, pre, acc, .nil => by simpa using parseLoop_incomplete hrest
  | raw :: raws, m :: tlv, pre, acc, .cons h hs => by
    have ih := parseLoop_flatten hrest (pre ++ raw) (acc ++ [m]) hs
    rw [List.flatten_cons, List.append_assoc, parseLoop_record h, ih]
    simp

theorem simpletlvParse_flatten {raws : List Bytes} {tlv : List SimpletlvMember} {rest : Bytes}
    (h : List.Forall₂ RawRecord raws tlv) (hrest : Incomplete rest) :
    simpletlvParse (raws.flatten ++ rest) = .ok tlv :=
  parseLoop_flatten hrest [] [] h

theorem rawRecord_or_incomplete : ∀ d : Bytes,
    Incomplete d ∨ ∃ raw m rest, RawRecord raw m ∧ d = raw ++ rest
  | [] | [_] => .inl trivial
  | tag :: l :: ys => by
    by_cases hl : l = 0xff
    · subst hl
      rcases ys with _ | ⟨lo, _ | ⟨hi, zs⟩⟩
      · exact .inl (by simp [Incomplete])
      · exact .inl (by simp [Incomplete])
      · by_cases hz : zs.length < lebytes2ushort lo hi
        · exact .inl (by simpa [Incomplete] using hz)
        · have hlen : (zs.take (lebytes2ushort lo hi)).length = lebytes2ushort lo hi := by
            simp only [List.length_take]
            omega
          refine .inr ⟨_, _, zs.drop (lebytes2ushort lo hi),
            .long tag (zs.take (lebytes2ushort lo hi)) ?_, ?_⟩
          · rw [hlen]
            exact lebytes2ushort_lt lo hi
          · rw [hlen, ushort2lebytes_lebytes]
            simp
    · have hlt : l.toNat < 255 := by
        have h1 := l.toNat_lt
        have h2 : l.toNat ≠ 255 := fun h => hl (UInt8.toNat_inj.1 h)
        omega
      by_cases hy : ys.length < l.toNat
      · exact .inl (by simpa [Incomplete, hl] using hy)
      · have hlen : (ys.take l.toNat).length = l.toNat := by
          simp only [List.length_take]
          omega
        refine .inr ⟨_, _, ys.drop l.toNat, .short tag (ys.take l.toNat) (by omega), ?_⟩
        rw [hlen, UInt8.ofNat_toNat]
        simp

theorem RawRecord.length_pos {raw : Bytes} {m : SimpletlvMember} (h : RawRecord raw m) :
    0 < raw.length := by
  cases h <;> simp

/-- Every byte string is complete records and then something that does not begin with one. -/
theorem exists_records (d : Bytes) : ∃ raws tlv rest, List.Forall₂ RawRecord raws tlv
    ∧ d = raws.flatten ++ rest ∧ Incomplete rest := by
  rcases rawRecord_or_incomplete d with h | ⟨raw, m, rest, hraw, hd⟩
  · exact ⟨[], [], d, .nil, rfl, h⟩
  · obtain ⟨raws, tlv, rest', hs, hrest, hi⟩ := exists_records rest
    exact ⟨raw :: raws, m :: tlv, rest', .cons hraw hs, by rw [hd, hrest]; simp, hi⟩
termination_by d.length
decreasing_by
  have := hraw.length_pos
  rw [hd, List.length_append]
  omega

theorem simpletlvParse_records (d : Bytes) : ∃ tlv raws rest, simpletlvParse d = .ok tlv
    ∧ List.Forall₂ RawRecord raws tlv ∧ d = raws.flatten ++ rest ∧ Incomplete rest := by
  obtain ⟨raws, tlv, rest, hs, rfl, hi⟩ := exists_records d
  exact ⟨tlv, raws, rest, simpletlvParse_flatten hs hi, hs, rfl, hi⟩

end Records

end Libcacard
