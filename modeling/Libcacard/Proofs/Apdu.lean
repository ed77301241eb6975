import Libcacard.Apdu

/-!
# Decoding a command

The bytes behind the header have one of seven forms or none; the decoder accepts exactly the
former, and what it reads off is what the form was made of.
-/

namespace Libcacard

open Machine

def ushort2bebytes (x : ℕ) : Bytes := [UInt8.ofNat (x / 256), UInt8.ofNat x]

/-- The forms of 7816-4 for the lengths and the body of a command. -/
inductive LengthForm
  | case1
  | case2S (le : UInt8)
  | case3S (body : Bytes)
  | case4S (body : Bytes) (le : UInt8)
  | case2E (le : ℕ)
  | case3E (body : Bytes)
  | case4E (body : Bytes) (le : ℕ)

namespace LengthForm

/-- The lengths a form has room for. -/
def Wf : LengthForm → Prop
  | case1 | case2S _ => True
  | case3S body | case4S body _ => 1 ≤ body.length ∧ body.length ≤ 255
  | case2E le => le < 65536
  | case3E body => 1 ≤ body.length ∧ body.length ≤ 65535
  | case4E body le => (1 ≤ body.length ∧ body.length ≤ 65535) ∧ le < 65536

def encode : LengthForm → Bytes
  | case1 => []
  | case2S le => [le]
  | case3S body => UInt8.ofNat body.length :: body
  | case4S body le => UInt8.ofNat body.length :: (body ++ [le])
  | case2E le => 0 :: ushort2bebytes le
  | case3E body => 0 :: (ushort2bebytes body.length ++ body)
  | case4E body le => 0 :: (ushort2bebytes body.length ++ (body ++ ushort2bebytes le))

def body : LengthForm → Bytes
  | case1 | case2S _ | case2E _ => []
  | case3S body | case4S body _ | case3E body | case4E body _ => body

/-- The length of the answer asked for: a length of 0 stands for the largest one. -/
def answer : LengthForm → ℕ
  | case1 | case3S _ | case3E _ => 0
  | case2S le | case4S _ le => if le = 0 then 256 else le.toNat
  | case2E le | case4E _ le => if le = 0 then 65536 else le

/-- Where the body starts in a raw command. -/
def bodyOffset : LengthForm → Option ℕ
  | case1 | case2S _ | case2E _ => none
  | case3S _ | case4S _ _ => some 5
  | case3E _ | case4E _ _ => some 7

def lengths (f : LengthForm) : ApduLengths := ⟨f.body.length, f.answer, f.bodyOffset⟩

end LengthForm

/-- The bytes of a command whose lengths have the form `f`. -/
def HasForm (raw : Bytes) (f : LengthForm) : Prop :=
  ∃ header : Bytes, header.length = 4 ∧ f.Wf ∧ raw = header ++ f.encode

theorem bebytes2ushort_lt (hi lo : UInt8) : bebytes2ushort hi lo < 65536 := by
  have := hi.toNat_lt
  have := lo.toNat_lt
  unfold bebytes2ushort
  omega

theorem ushort2bebytes_bebytes (hi lo : UInt8) :
    ushort2bebytes (bebytes2ushort hi lo) = [hi, lo] := by
  have h1 := hi.toNat_lt
  have h2 := lo.toNat_lt
  simp only [ushort2bebytes, bebytes2ushort, List.cons.injEq, and_true]
  constructor <;> apply UInt8.toNat_inj.1 <;> rw [UInt8.toNat_ofNat'] <;> omega

theorem exists_bebytes {x : ℕ} (h : x < 65536) :
    ∃ hi lo, ushort2bebytes x = [hi, lo] ∧ bebytes2ushort hi lo = x := by
  refine ⟨_, _, rfl, ?_⟩
  simp only [bebytes2ushort, UInt8.toNat_ofNat']
  omega

theorem exists_header {raw : Bytes} (h : 4 ≤ raw.length) :
    ∃ h0 h1 h2 h3 xs, raw = h0 :: h1 :: h2 :: h3 :: xs := by
  match raw, h with
  | h0 :: h1 :: h2 :: h3 :: xs, _ => exact ⟨h0, h1, h2, h3, xs, rfl⟩

theorem exists_append_singleton {xs : Bytes} (h : xs ≠ []) : ∃ ys x, xs = ys ++ [x] :=
  ⟨xs.dropLast, xs.getLast h, (List.dropLast_append_getLast h).symm⟩

theorem exists_append_pair {xs : Bytes} (h : 2 ≤ xs.length) : ∃ ys x y, xs = ys ++ [x, y] := by
  obtain ⟨zs, y, rfl⟩ := exists_append_singleton (List.length_pos_iff.1 (by omega : 0 < xs.length))
  obtain ⟨ys, x, rfl⟩ := exists_append_singleton (show zs ≠ [] by
    rintro rfl
    simp at h)
  exact ⟨ys, x, y, by simp⟩

section Decode

variable (h0 h1 h2 h3 : UInt8)

theorem vcardApduSetLength_short {b : UInt8} (hb : b ≠ 0) (y : UInt8) (ys : Bytes) :
    vcardApduSetLength (h0 :: h1 :: h2 :: h3 :: b :: y :: ys)
      = if (y :: ys).length = b.toNat then .ok (.ok ⟨b.toNat, 0, some 5⟩)
        else if (y :: ys).length = b.toNat + 1 then do
          let le ← readByte (y :: ys) ys.length
          return .ok ⟨b.toNat, if le = 0 then 256 else le.toNat, some 5⟩
        else .ok (.error Status.errorWrongLength) := by
  simp [vcardApduSetLength, readByte, hb]

theorem vcardApduSetLength_extended (hi lo y : UInt8) (ys : Bytes) :
    vcardApduSetLength (h0 :: h1 :: h2 :: h3 :: 0 :: hi :: lo :: y :: ys)
      = if bebytes2ushort hi lo = 0 then .ok (.error Status.errorWrongLength)
        else if (y :: ys).length = bebytes2ushort hi lo then
          .ok (.ok ⟨bebytes2ushort hi lo, 0, some 7⟩)
        else if (y :: ys).length = bebytes2ushort hi lo + 2 then do
          let hi' ← readByte (lo :: y :: ys) ys.length
          let lo' ← readByte (y :: ys) ys.length
          let le := bebytes2ushort hi' lo'
          return .ok ⟨bebytes2ushort hi lo, if le = 0 then 65536 else le, some 7⟩
        else .ok (.error Status.errorWrongLength) := by
  rw [readByte_of_lt (by simp only [List.length_cons]; omega)]
  simp [vcardApduSetLength, readByte, show ¬ ys.length + 4 < 3 by omega]

/-- Decoding the lengths of a command that has one of the forms. -/
theorem vcardApduSetLength_form : ∀ {f : LengthForm}, f.Wf →
    vcardApduSetLength (h0 :: h1 :: h2 :: h3 :: f.encode) = .ok (.ok f.lengths)
  | .case1, _ => rfl
  | .case2S le, _ => by
    by_cases hle : le = 0 <;> simp [vcardApduSetLength, LengthForm.encode, readByte,
      LengthForm.lengths, LengthForm.answer, LengthForm.body, LengthForm.bodyOffset, hle]
  | .case3S (y :: ys), ⟨_, hle⟩ => by
    have hlen : (UInt8.ofNat (y :: ys).length).toNat = (y :: ys).length := by
      rw [UInt8.toNat_ofNat']
      omega
    have hb : UInt8.ofNat (y :: ys).length ≠ 0 := fun h => by
      rw [h] at hlen
      simp at hlen
    rw [LengthForm.encode, vcardApduSetLength_short _ _ _ _ hb, hlen, if_pos rfl]
    rfl
  | .case4S (y :: ys) le, ⟨_, hle⟩ => by
    have hlen : (UInt8.ofNat (y :: ys).length).toNat = (y :: ys).length := by
      rw [UInt8.toNat_ofNat']
      omega
    have hb : UInt8.ofNat (y :: ys).length ≠ 0 := fun h => by
      rw [h] at hlen
      simp at hlen
    have hread : readByte (y :: (ys ++ [le])) (ys ++ [le]).length = .ok le := by
      simpa using readByte_append (y :: ys) (b := le) (by simp)
    rw [LengthForm.encode, List.cons_append, vcardApduSetLength_short _ _ _ _ hb, hlen,
      if_neg (by simp), if_pos (by simp), hread]
    rfl
  | .case2E le, hle => by
    obtain ⟨hi, lo, hbytes, hval⟩ := exists_bebytes hle
    rw [LengthForm.encode, hbytes]
    simp [vcardApduSetLength, readByte, LengthForm.lengths, LengthForm.answer, LengthForm.body,
      LengthForm.bodyOffset, hval]
  | .case3E (y :: ys), ⟨_, hle⟩ => by
    obtain ⟨hi, lo, hbytes, hval⟩ := exists_bebytes (x := (y :: ys).length) (by omega)
    rw [LengthForm.encode, hbytes]
    simp only [List.cons_append, List.nil_append]
    rw [vcardApduSetLength_extended, hval, if_neg (by simp), if_pos rfl]
    rfl
  | .case4E (y :: ys) le, ⟨⟨_, hle⟩, hle'⟩ => by
    obtain ⟨hi, lo, hbytes, hval⟩ := exists_bebytes (x := (y :: ys).length) (by omega)
    obtain ⟨hi', lo', hbytes', hval'⟩ := exists_bebytes hle'
    have hread : readByte (lo :: y :: (ys ++ [hi', lo'])) (ys ++ [hi', lo']).length = .ok hi' := by
      simpa using readByte_append (lo :: y :: ys) (b := hi') (by simp)
    have hread' : readByte (y :: (ys ++ [hi', lo'])) (ys ++ [hi', lo']).length = .ok lo' := by
      simpa using readByte_append (y :: (ys ++ [hi'])) (b := lo') (by simp)
    rw [LengthForm.encode, hbytes, hbytes']
    simp only [List.cons_append, List.nil_append]
    rw [vcardApduSetLength_extended, hval, if_neg (by simp), if_neg (by simp), if_pos (by simp),
      hread, hread']
    simp only [ok_bind, hval', pure_eq]
    rfl

/-- A command that has none of the forms is rejected, whatever it holds. -/
theorem form_or_wrongLength : ∀ xs : Bytes, (∃ f : LengthForm, f.Wf ∧ xs = f.encode)
    ∨ vcardApduSetLength (h0 :: h1 :: h2 :: h3 :: xs) = .ok (.error Status.errorWrongLength)
  | [] => .inl ⟨.case1, trivial, rfl⟩
  | [le] => .inl ⟨.case2S le, trivial, rfl⟩
  | b :: y :: ys => by
    by_cases hb : b = 0
    · subst hb
      rcases ys with _ | ⟨lo, _ | ⟨z, zs⟩⟩
      · exact .inr (by simp [vcardApduSetLength, readByte])
      · refine .inl ⟨.case2E (bebytes2ushort y lo), bebytes2ushort_lt y lo, ?_⟩
        rw [LengthForm.encode, ushort2bebytes_bebytes]
      · rw [vcardApduSetLength_extended]
        by_cases h0 : bebytes2ushort y lo = 0
        · exact .inr (if_pos h0)
        by_cases h3 : (z :: zs).length = bebytes2ushort y lo
        · refine .inl ⟨.case3E (z :: zs), ⟨by simp, ?_⟩, ?_⟩
          · have := bebytes2ushort_lt y lo
            omega
          · rw [LengthForm.encode, h3, ushort2bebytes_bebytes]
            rfl
        by_cases h4 : (z :: zs).length = bebytes2ushort y lo + 2
        · obtain ⟨body, hi', lo', hbody⟩ := exists_append_pair (show 2 ≤ (z :: zs).length by omega)
          have hlen : body.length = bebytes2ushort y lo := by
            rw [hbody] at h4
            simpa using h4
          refine .inl ⟨.case4E body (bebytes2ushort hi' lo'),
            ⟨⟨by omega, ?_⟩, bebytes2ushort_lt hi' lo'⟩, ?_⟩
          · have := bebytes2ushort_lt y lo
            omega
          · rw [LengthForm.encode, hlen, ushort2bebytes_bebytes, ushort2bebytes_bebytes, hbody]
            rfl
        · exact .inr (by rw [if_neg h0, if_neg h3, if_neg h4])
    · rw [vcardApduSetLength_short _ _ _ _ hb]
      have hpos : b.toNat ≠ 0 := fun h => hb (UInt8.toNat_inj.1 h)
      have hlt := b.toNat_lt
      by_cases h3 : (y :: ys).length = b.toNat
      · refine .inl ⟨.case3S (y :: ys), ⟨by omega, by omega⟩, ?_⟩
        rw [LengthForm.encode, h3, UInt8.ofNat_toNat]
      by_cases h4 : (y :: ys).length = b.toNat + 1
      · obtain ⟨body, le, hbody⟩ := exists_append_singleton (List.cons_ne_nil y ys)
        have hlen : body.length = b.toNat := by
          rw [hbody] at h4
          simpa using h4
        refine .inl ⟨.case4S body le, ⟨by omega, by omega⟩, ?_⟩
        rw [LengthForm.encode, hlen, UInt8.ofNat_toNat, hbody]
      · exact .inr (by rw [if_neg h3, if_neg h4])

end Decode

theorem LengthForm.answer_inj {le le' : UInt8}
    (h : (if le = 0 then 256 else le.toNat) = if le' = 0 then 256 else le'.toNat) : le = le' := by
  have := le.toNat_lt
  have := le'.toNat_lt
  split_ifs at h with h1 h2
  · rw [h1, h2]
  · omega
  · omega
  · exact UInt8.toNat_inj.1 h

theorem LengthForm.answer_ne_zero (le : UInt8) : (if le = 0 then 256 else le.toNat) ≠ 0 := by
  split_ifs with h
  · omega
  · exact fun h0 => h (UInt8.toNat_inj.1 h0)

/-- The bytes and the lengths they decode to leave one form. -/
theorem LengthForm.eq_of_encode {f g : LengthForm} (hf : f.Wf) (hg : g.Wf)
    (h : f.encode = g.encode) : f = g := by
  have hl : f.lengths = g.lengths := by
    have := (vcardApduSetLength_form 0 0 0 0 hf).symm.trans
      (h ▸ vcardApduSetLength_form 0 0 0 0 hg)
    simpa using this
  simp only [LengthForm.lengths, ApduLengths.mk.injEq] at hl
  obtain ⟨-, hanswer, hoff⟩ := hl
  have hlen := congrArg List.length h
  cases f <;> cases g <;> simp [LengthForm.bodyOffset] at hoff <;>
    simp [LengthForm.answer, LengthForm.encode, ushort2bebytes] at hanswer hlen h ⊢
  case case2S.case2S => exact h
  case case3S.case3S => exact h.2
  case case3S.case4S le => exact answer_ne_zero le hanswer.symm
  case case4S.case3S le _ => exact answer_ne_zero le hanswer
  case case4S.case4S => exact h.2
  case case2E.case2E =>
    simp only [LengthForm.Wf] at hf hg
    split_ifs at hanswer <;> omega
  case case3E.case3E => exact h.2.2
  case case3E.case4E => split_ifs at hanswer; omega
  case case4E.case3E => split_ifs at hanswer; omega
  case case4E.case4E =>
    obtain ⟨⟨-, hle⟩, -, hle'⟩ := And.intro hf hg
    refine ⟨(List.append_inj h.2.2 hlen).1, ?_⟩
    split_ifs at hanswer <;> omega

/-- The command `vcard_apdu_new` makes of bytes that have the form `f`. -/
def DecodesTo (raw : Bytes) (f : LengthForm) : Prop :=
  ∃ apdu, vcardApduNew raw = .ok (.ok apdu) ∧ apdu.aData = raw ∧ apdu.aLc = f.body.length
    ∧ apdu.aLe = f.answer ∧ apdu.body = f.body ∧ apdu.lengths.aBody = f.bodyOffset
    ∧ ∀ p, apdu.lengths.aBody = some p → p + apdu.aLc ≤ raw.length

theorem vcardApduNew_of_lengths {raw : Bytes} (hraw : 4 ≤ raw.length) :
    (∀ l, vcardApduSetLength raw = .ok (.ok l) →
      ∃ apdu, vcardApduNew raw = .ok (.ok apdu) ∧ apdu.aData = raw ∧ apdu.lengths = l)
    ∧ ∀ status, vcardApduSetLength raw = .ok (.error status) →
      vcardApduNew raw = .ok (.error status) := by
  unfold vcardApduNew
  rw [dif_neg (by omega)]
  constructor
  · intro l hl
    split <;> simp_all
  · intro status hl
    split <;> simp_all

/-- Every command is decoded or rejected. -/
theorem vcardApduNew_cases (raw : Bytes) :
    vcardApduNew raw = .ok (.error Status.errorWrongLength)
      ∨ ∃ apdu, vcardApduNew raw = .ok (.ok apdu) := by
  rcases Nat.lt_or_ge raw.length 4 with hlt | hge
  · exact .inl (by rw [vcardApduNew, dif_pos hlt])
  · obtain ⟨h0, h1, h2, h3, xs, rfl⟩ := exists_header hge
    obtain ⟨hok, herror⟩ := vcardApduNew_of_lengths hge
    rcases form_or_wrongLength h0 h1 h2 h3 xs with ⟨f, hf, rfl⟩ | hwrong
    · obtain ⟨apdu, hnew, -⟩ := hok _ (vcardApduSetLength_form h0 h1 h2 h3 hf)
      exact .inr ⟨apdu, hnew⟩
    · exact .inl (herror _ hwrong)

theorem LengthForm.body_eq (h0 h1 h2 h3 : UInt8) (f : LengthForm) :
    (match f.bodyOffset with
      | none => []
      | some p => ((h0 :: h1 :: h2 :: h3 :: f.encode).drop p).take f.body.length) = f.body
    ∧ ∀ p, f.bodyOffset = some p →
      p + f.body.length ≤ (h0 :: h1 :: h2 :: h3 :: f.encode).length := by
  cases f <;> simp [LengthForm.bodyOffset, LengthForm.body, LengthForm.encode, ushort2bebytes] <;>
    omega

/-- The decoder accepts exactly the commands with one of the seven forms, no command has two of
them, and decoding gives back the lengths and the body the form was made of. -/
theorem vcardApduNew_decodes_forms (raw : Bytes) :
    (∀ f, HasForm raw f → DecodesTo raw f)
      ∧ ((∀ f, ¬ HasForm raw f) → vcardApduNew raw = .ok (.error Status.errorWrongLength))
      ∧ ∀ f g, HasForm raw f → HasForm raw g → f = g := by
  refine ⟨?_, ?_, ?_⟩
  · rintro f ⟨header, hh, hf, rfl⟩
    obtain ⟨h0, h1, h2, h3, xs, hxs⟩ := exists_header (show 4 ≤ header.length by omega)
    obtain rfl : xs = [] := by
      rw [hxs] at hh
      simpa using hh
    subst hxs
    obtain ⟨apdu, hnew, hdata, hlen⟩ := (vcardApduNew_of_lengths
      (by simp)).1 _ (vcardApduSetLength_form h0 h1 h2 h3 hf)
    have hbody := LengthForm.body_eq h0 h1 h2 h3 f
    refine ⟨apdu, hnew, hdata, ?_, ?_, ?_, ?_, ?_⟩
    · rw [VCardAPDU.aLc, hlen]
      rfl
    · rw [VCardAPDU.aLe, hlen]
      rfl
    · rw [VCardAPDU.body, VCardAPDU.aLc, hlen, hdata]
      exact hbody.1
    · rw [hlen]
      rfl
    · rw [VCardAPDU.aLc, hlen]
      exact hbody.2
  · intro hno
    rcases Nat.lt_or_ge raw.length 4 with hlt | hge
    · rw [vcardApduNew, dif_pos hlt]
    · obtain ⟨h0, h1, h2, h3, xs, rfl⟩ := exists_header hge
      rcases form_or_wrongLength h0 h1 h2 h3 xs with ⟨f, hf, rfl⟩ | hwrong
      · exact absurd ⟨[h0, h1, h2, h3], rfl, hf, rfl⟩ (hno f)
      · exact (vcardApduNew_of_lengths hge).2 _ hwrong
  · rintro f g ⟨header, hh, hf, rfl⟩ ⟨header', hh', hg, heq⟩
    exact LengthForm.eq_of_encode hf hg (List.append_inj heq (by omega)).2

namespace VCardAPDU

/-- There is a command with any header and any lengths and body. -/
theorem exists_of_form (h0 h1 h2 h3 : UInt8) {f : LengthForm} (hf : f.Wf) :
    ∃ apdu : VCardAPDU, apdu.aCla = h0 ∧ apdu.aIns = h1 ∧ apdu.aP1 = h2 ∧ apdu.aP2 = h3
      ∧ apdu.aLe = f.answer ∧ apdu.body = f.body :=
  ⟨⟨h0 :: h1 :: h2 :: h3 :: f.encode, f.lengths, by simp, vcardApduSetLength_form h0 h1 h2 h3 hf⟩,
    rfl, rfl, rfl, rfl, rfl, (LengthForm.body_eq h0 h1 h2 h3 f).1⟩

variable (apdu : VCardAPDU)

theorem exists_form : ∃ f : LengthForm, f.Wf ∧ apdu.aLc = f.body.length ∧ apdu.aLe = f.answer
    ∧ apdu.body = f.body := by
  obtain ⟨raw, l, hle, hdec⟩ := apdu
  obtain ⟨h0, h1, h2, h3, xs, rfl⟩ := exists_header hle
  rcases form_or_wrongLength h0 h1 h2 h3 xs with ⟨f, hf, rfl⟩ | hwrong
  · obtain rfl : l = f.lengths := by
      simpa using hdec.symm.trans (vcardApduSetLength_form h0 h1 h2 h3 hf)
    exact ⟨f, hf, rfl, rfl, (LengthForm.body_eq h0 h1 h2 h3 f).1⟩
  · simpa using hdec.symm.trans hwrong

theorem length_body : apdu.body.length = apdu.aLc := by
  obtain ⟨f, -, hLc, -, hbody⟩ := apdu.exists_form
  rw [hbody, hLc]

theorem aLc_lt : apdu.aLc < 65536 := by
  obtain ⟨f, hf, hLc, -, -⟩ := apdu.exists_form
  rw [hLc]
  cases f <;> simp only [LengthForm.Wf, LengthForm.body, List.length_nil] at hf ⊢ <;> omega

theorem aChannel_lt : apdu.aChannel < 4 := by
  have h : (apdu.aCla &&& 3).toNat < 4 := by
    rw [UInt8.toNat_and]
    exact Nat.lt_of_le_of_lt Nat.and_le_right (by decide)
  unfold aChannel vcardApduSetClass
  dsimp only
  split <;> first | exact h | exact Nat.zero_lt_succ 3

end VCardAPDU

end Libcacard
