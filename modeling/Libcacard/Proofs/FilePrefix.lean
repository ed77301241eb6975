import Libcacard.Proofs.Halves

/-!
# The length before a file

A file of a list of any length: the two bytes before it hold its length unless that takes more of
them. Values past 2 ^ 32 bytes are written behind the buffer their wrapped length asks for; tags
and lengths are not, as each one is checked for space.
-/

namespace Libcacard

open Machine Memory

/-- A file that is made has its length before it. -/
def FilePrefixRight (ty : SimpletlvBufferType) (ms : List SimpletlvMember) : Prop :=
  ∃ r, cacCreateFile ms ty = .ok r ∧ ∀ file, r = some file → IsFile file (half ty ms)

variable {ty : SimpletlvBufferType} {ms : List SimpletlvMember}

section Wraps

theorem toInt32_add_toInt32 (a b : ℤ) : toInt32 (a + toInt32 b) = toInt32 (a + b) :=
  Int.add_bmod_bmod ..

theorem toInt32_toInt32_add (a b : ℤ) : toInt32 (toInt32 a + b) = toInt32 (a + b) :=
  Int.bmod_add_bmod ..

theorem lengthLoop_value : ∀ {ms : List SimpletlvMember}, Flat ms →
    ∃ n, lengthLoop .value ms = some n ∧ toInt32 n = toInt32 (half .value ms).length
  | [], _ => ⟨0, rfl, rfl⟩
  | m :: ms, h => by
    obtain ⟨n, hn, heq⟩ := lengthLoop_value h.tail
    cases m with
    | none => exact ⟨0 + n, by rw [lengthLoop, hn]; rfl, by rw [zero_add, heq]; rfl⟩
    | compound => exact nomatch h _ List.mem_cons_self
    | leaf tag v =>
      refine ⟨recordLength .value (toInt32 v.length) + n, by rw [lengthLoop, hn]; rfl, ?_⟩
      have hrec : recordLength .value (toInt32 v.length) = toInt32 v.length := by
        simp [recordLength, SimpletlvBufferType.hasTl, SimpletlvBufferType.hasValue]
      have hval : halfRecord .value (.leaf tag v) = v := rfl
      rw [hrec, toInt32_toInt32_add, ← toInt32_add_toInt32, heq, toInt32_add_toInt32, half_cons,
        hval, List.length_append, Nat.cast_add]

theorem simpletlvGetLength_value (h : Flat ms) :
    simpletlvGetLength ms .value = toInt32 (half .value ms).length := by
  obtain ⟨n, hn, heq⟩ := lengthLoop_value h
  rw [simpletlvGetLength, hn, ← heq]

/-- A positive length is the length, or one that is too short. -/
theorem eq_or_lt_of_toInt32 {n k : ℕ} (h : toInt32 k = n) (hn : 0 < n) :
    (k = n ∧ k < 2 ^ 32) ∨ (n < k ∧ ¬ k < 2 ^ 32) := by
  obtain ⟨a, ha⟩ := toInt32_emod k
  have := toInt32_le k
  omega

end Wraps

section Behind

theorem encodeLoop_value_over : ∀ (ms : List SimpletlvMember) (mem : Memory) (tmp p : Ptr)
    (b : Bytes) (tmpLen pLen k : ℕ), Flat ms → Heap.Holds mem p.block b → p = tmp.add k →
    p.off ≤ b.length → b.length < p.off + (half .value ms).length →
    encodeLoop .value ms mem tmp tmpLen p pLen = .error .outOfBounds
  | [], mem, tmp, p, b, tmpLen, pLen, k, _, _, _, hoff, hover => by
    simp only [half, List.flatMap_nil, List.length_nil] at hover
    omega
  | m :: ms, mem, tmp, p, b, tmpLen, pLen, k, hflat, hb, hp, hoff, hover => by
    cases m with
    | none t l v =>
      rw [encodeLoop]
      exact encodeLoop_value_over ms mem tmp p b tmpLen pLen k hflat.tail hb hp hoff hover
    | compound =>
      have := hflat _ List.mem_cons_self
      cases this
    | leaf tag v =>
      have hval : halfRecord .value (.leaf tag v) = v := rfl
      rw [half_cons, hval, List.length_append] at hover
      rw [encodeLoop_cons .value rfl]
      unfold encodeMember
      simp only [SimpletlvBufferType.hasTl, SimpletlvBufferType.hasValue, Bool.false_eq_true,
        if_false, if_true, ok_bind]
      by_cases hfit : p.off + v.length ≤ b.length
      · have hdiff : Memory.diff (p.add v.length) tmp = .ok ((k + v.length : ℕ) : ℤ) := by
          rw [hp, Ptr.add_add, diff_add]
        simp only [store_eq hb hfit, ok_bind, pure_eq, hdiff]
        refine encodeLoop_value_over ms _ tmp (p.add v.length) _ tmpLen _ (k + v.length)
          hflat.tail (stored_holds v hb) (by rw [hp, Ptr.add_add]) ?_ ?_
        · rw [length_splice hfit, Ptr.add_off]
          exact hfit
        · rw [length_splice hfit, Ptr.add_off]
          omega
      · have hstore : mem.store p v = .error .outOfBounds := by
          rw [store, Heap.read_of_holds hb]
          exact if_neg hfit
        rw [hstore, error_bind, error_bind]

end Behind

section NoFit

theorem putTag_noRoom {mem : Memory} {p : Ptr} {tag : UInt8} {n pLen : ℕ}
    (h : pLen < (header tag n).length) : simpletlvPutTag mem tag n p pLen = .ok (mem, none) := by
  rw [length_header] at h
  rw [simpletlvPutTag, if_pos]
  split_ifs at h <;> omega

/-- Each tag is checked for space, so none is written behind the buffer. -/
theorem encodeLoop_tl_fail : ∀ (ms : List SimpletlvMember) (mem : Memory) (tmp p : Ptr)
    (b : Bytes) (tmpLen pLen k : ℕ), Flat ms → Heap.Holds mem p.block b → p = tmp.add k →
    pLen + k = tmpLen → tmpLen < 2 ^ 64 → p.off + pLen ≤ b.length →
    ¬ (Encodable ms ∧ (half .tl ms).length ≤ pLen) →
    ∃ mem', encodeLoop .tl ms mem tmp tmpLen p pLen = .ok (mem', none)
  | [], mem, tmp, p, b, tmpLen, pLen, k, _, _, _, _, _, _, hno =>
    absurd ⟨trivial, Nat.zero_le _⟩ hno
  | m :: ms, mem, tmp, p, b, tmpLen, pLen, k, hflat, hb, hp, hk, h64, hfit, hno => by
    cases m with
    | none t l v =>
      rw [encodeLoop]
      exact encodeLoop_tl_fail ms mem tmp p b tmpLen pLen k hflat.tail hb hp hk h64 hfit
        fun h => hno ⟨⟨trivial, h.1⟩, h.2⟩
    | compound => exact nomatch hflat _ List.mem_cons_self
    | leaf tag v =>
      have htwo := two_le_length_header tag v.length
      have htl : halfRecord .tl (.leaf tag v) = header tag v.length := List.append_nil _
      rw [half_cons, htl, List.length_append] at hno
      rw [encodeLoop_cons .tl rfl]
      unfold encodeMember
      simp only [SimpletlvBufferType.hasTl, SimpletlvBufferType.hasValue, Bool.false_eq_true,
        if_false, if_true]
      rcases Nat.lt_or_ge pLen (header tag v.length).length with hlt | hroom
      · exact ⟨mem, by simp only [putTag_noRoom hlt, ok_bind, pure_eq]⟩
      by_cases henc : TagOk tag ∧ v.length ≤ 65534
      · have hf : p.off + (header tag v.length).length ≤ b.length := by omega
        have hdiff : Memory.diff (p.add (header tag v.length).length) tmp
            = .ok ((k + (header tag v.length).length : ℕ) : ℤ) := by
          rw [hp, Ptr.add_add, diff_add]
        have hsize : toSize ((tmpLen : ℤ) - (k + (header tag v.length).length : ℕ))
            = pLen - (header tag v.length).length := by
          rw [toSize_of_lt (by omega) (by omega)]
          omega
        simp only [putTag_ok hb henc.1 henc.2 hf hroom, ok_bind, pure_eq, hdiff, hsize]
        refine encodeLoop_tl_fail ms _ tmp _ _ tmpLen _ (k + (header tag v.length).length)
          hflat.tail (stored_holds (header tag v.length) hb) (by rw [hp, Ptr.add_add]) (by omega)
          h64 ?_ fun h => hno ⟨⟨henc, h.1⟩, by omega⟩
        rw [length_splice hf, Ptr.add_off]
        omega
      · obtain ⟨xs, -, heq⟩ := putTag_fail hb pLen henc (by omega)
        exact ⟨stored mem p b xs, by simp only [heq, ok_bind, pure_eq]⟩

end NoFit

section File

variable {n : ℕ} (hlen : simpletlvGetLength ms ty = n) (h0 : 0 < n) (hn : n < 2 ^ 31 - 2)
  (hty : ty ≠ .both)

include hlen h0 hn hty

/-- The encoder's loop decides what the file is. -/
theorem cacCreateFile_loop : cacCreateFile ms ty = (do
    match ← encodeLoop ty ms [some (List.replicate (2 + n) 0)] ⟨0, 2⟩ n ⟨0, 2⟩ n with
    | (mem, some (_, pLen)) =>
      if toInt32 (toSize (n - pLen)) ≤ 0 then return none
      let mem ← Memory.store mem ⟨0, 0⟩ (ushort2lebytes (toInt32 (toSize (n - pLen))).toNat)
      return some (← Heap.read mem 0)
    | (_, none) => return none) := by
  have hint : toInt32 n = n := toInt32_natCast (by omega)
  rw [cacCreateFile_calls hlen hn hty, simpletlvEncodeInternal, encodeWith.eq_def, hlen,
    if_neg (by omega), if_neg (by omega), if_neg (by omega), if_pos (by omega)]
  dsimp only
  rcases encodeLoop ty ms [some (List.replicate (2 + n) 0)] ⟨0, 2⟩ n ⟨0, 2⟩ n with
    e | ⟨mem, _ | ⟨p, pLen⟩⟩
  · simp only [error_bind]
  · simp only [ok_bind, pure_eq, if_pos (show (-1 : ℤ) ≤ 0 by decide)]
  · generalize toInt32 (toSize ((n : ℤ) - pLen)) = rv
    rw [ok_bind, ok_bind]
    dsimp only
    rw [pure_eq, ok_bind]

/-- A half that has the length is written. -/
theorem cacCreateFile_written (hflat : Flat ms) (henc : HalfEncodable ty ms)
    (heq : (half ty ms).length = n) : cacCreateFile ms ty = .ok (some (halfFile ty ms)) := by
  have hb : Heap.Holds ([some (List.replicate (2 + n) 0)] : Memory) 0 (List.replicate (2 + n) 0) :=
    rfl
  have hloop := @encodeLoop_half ty ms [some (List.replicate (2 + n) 0)] ⟨0, 2⟩ ⟨0, 2⟩ _ n n 0
    hflat hb rfl rfl (by omega) (by rw [List.length_replicate, heq]) (Nat.le_of_eq heq)
  rw [cacCreateFile_loop hlen h0 hn hty]
  rcases hloop with ⟨-, hloop⟩ | ⟨hnot, -⟩
  · obtain ⟨mem, hstore, hread⟩ := @storePrefix_holds _ _ (half ty ms) hb (by
      rw [List.length_replicate, heq])
    have hrv : toInt32 (toSize ((n : ℤ) - (n - (half ty ms).length : ℕ)))
        = (half ty ms).length := by
      rw [toSize_of_lt (by omega) (by omega), toInt32_natCast (by omega)]
      omega
    rw [hloop, ok_bind]
    dsimp only
    rw [hrv, Int.toNat_natCast, if_neg (by omega), hstore, ok_bind, Heap.read_of_holds hread]
    simp only [ok_bind, pure_eq, halfFile]
  · exact absurd henc hnot

end File

theorem filePrefixRight_none (h : cacCreateFile ms ty = .ok none) : FilePrefixRight ty ms :=
  ⟨none, h, fun _ h => nomatch h⟩

theorem not_filePrefixRight_error {e : Fault} (h : cacCreateFile ms ty = .error e) :
    ¬ FilePrefixRight ty ms := by
  rintro ⟨r, hr, -⟩
  cases h.symm.trans hr

theorem filePrefixRight_file (h : cacCreateFile ms ty = .ok (some (halfFile ty ms))) :
    FilePrefixRight ty ms ↔ (half ty ms).length ≤ 65535 := by
  rw [← isFile_halfFile_iff]
  constructor
  · rintro ⟨r, hr, hright⟩
    obtain rfl := Except.ok.inj (h.symm.trans hr)
    exact hright _ rfl
  · intro hfile
    refine ⟨_, h, ?_⟩
    rintro file ⟨⟩
    exact hfile

/-- A length that is not positive makes no file, and one near 2 ^ 31 overflows. -/
theorem filePrefixRight_of_bounds (hty : ty ≠ .both)
    (h : simpletlvGetLength ms ty ≤ 0 ∨ 2 ^ 31 - 2 ≤ simpletlvGetLength ms ty) :
    FilePrefixRight ty ms ↔ simpletlvGetLength ms ty ≤ 0 := by
  rcases h with hle | hge
  · refine iff_of_true (filePrefixRight_none ?_) hle
    rcases Int.lt_or_eq_of_le hle with hneg | hzero
    · rw [cacCreateFile.eq_def, if_pos hneg]
      rfl
    · rw [cacCreateFile_calls (n := 0) hzero (by decide) hty, simpletlvEncodeInternal,
        encodeWith.eq_def, hzero, if_pos rfl]
      rfl
  · refine iff_of_false (not_filePrefixRight_error (e := .overflow) ?_) (by omega)
    rw [cacCreateFile.eq_def, if_neg (by omega), if_pos (by omega)]
    rfl

theorem filePrefixRight_value_iff (hflat : Flat ms) :
    FilePrefixRight .value ms ↔ PrefixFits .value ms := by
  have hvalue := simpletlvGetLength_value hflat
  unfold PrefixFits
  by_cases hb : simpletlvGetLength ms .value ≤ 0 ∨ 2 ^ 31 - 2 ≤ simpletlvGetLength ms .value
  · rw [filePrefixRight_of_bounds (by decide) hb]
    omega
  obtain ⟨n, hn⟩ := Int.eq_ofNat_of_zero_le (show 0 ≤ simpletlvGetLength ms .value by omega)
  have h0 : 0 < n := by omega
  have hlt : n < 2 ^ 31 - 2 := by omega
  rcases eq_or_lt_of_toInt32 (hvalue.symm.trans hn) h0 with ⟨heq, h32⟩ | ⟨hgt, h32⟩
  · rw [filePrefixRight_file (cacCreateFile_written hn h0 hlt (by decide) hflat
      (fun h => nomatch h) heq)]
    omega
  · refine iff_of_false (not_filePrefixRight_error (e := .outOfBounds) ?_) fun h =>
      h32 (h.2 (by omega))
    rw [cacCreateFile_loop hn h0 hlt (by decide), encodeLoop_value_over ms
      [some (List.replicate (2 + n) 0)] ⟨0, 2⟩ ⟨0, 2⟩ (List.replicate (2 + n) 0) n n 0 hflat rfl rfl
      (by rw [List.length_replicate]; exact Nat.le_add_right 2 n)
      (by rw [List.length_replicate]; exact Nat.add_lt_add_left hgt 2)]
    rfl

theorem filePrefixRight_tl_iff (hflat : Flat ms) :
    FilePrefixRight .tl ms ↔ PrefixFits .tl ms := by
  unfold PrefixFits
  by_cases hb : simpletlvGetLength ms .tl ≤ 0 ∨ 2 ^ 31 - 2 ≤ simpletlvGetLength ms .tl
  · rw [filePrefixRight_of_bounds (by decide) hb]
    omega
  obtain ⟨n, hn⟩ := Int.eq_ofNat_of_zero_le (show 0 ≤ simpletlvGetLength ms .tl by omega)
  have h0 : 0 < n := by omega
  have hlt : n < 2 ^ 31 - 2 := by omega
  by_cases hok : Encodable ms ∧ (half .tl ms).length ≤ n
  · obtain ⟨henc, hle⟩ := hok
    have hwrap : toInt32 (half .tl ms).length = n :=
      (simpletlvGetLength_half hflat henc.sized).symm.trans hn
    rcases eq_or_lt_of_toInt32 hwrap h0 with ⟨heq, h32⟩ | ⟨hgt, -⟩
    · rw [filePrefixRight_file (cacCreateFile_written hn h0 hlt (by decide) hflat
        (fun _ => henc) heq)]
      constructor
      · exact fun h => .inl (by omega)
      · rintro (h | ⟨-, h⟩)
        · omega
        · exact absurd ⟨henc, h32⟩ h
    · omega
  · obtain ⟨mem', hloop⟩ := encodeLoop_tl_fail ms [some (List.replicate (2 + n) 0)] ⟨0, 2⟩ ⟨0, 2⟩
      (List.replicate (2 + n) 0) n n 0 hflat rfl rfl rfl (by omega)
      (by rw [List.length_replicate]) hok
    refine iff_of_true (filePrefixRight_none ?_) (.inr ⟨by omega, fun h => hok ⟨h.1, ?_⟩⟩)
    · rw [cacCreateFile_loop hn h0 hlt (by decide), hloop]
      rfl
    · have hwrap : toInt32 (half .tl ms).length = n :=
        (simpletlvGetLength_half hflat h.1.sized).symm.trans hn
      rcases eq_or_lt_of_toInt32 hwrap h0 with ⟨heq, -⟩ | ⟨-, h32⟩
      · exact Nat.le_of_eq heq
      · exact absurd h.2 h32

/-- When each file of a flat list has its length before it. -/
theorem filePrefixRight_iff (hflat : Flat ms) (hty : ty ≠ .both) :
    FilePrefixRight ty ms ↔ PrefixFits ty ms := by
  cases ty with
  | tl => exact filePrefixRight_tl_iff hflat
  | value => exact filePrefixRight_value_iff hflat
  | both => exact absurd rfl hty

theorem filePrefixRight_leaf : FilePrefixRight .tl [.leaf 1 [7, 8]] :=
  (filePrefixRight_iff (by simp [Flat, SimpletlvMember.isCompound]) (by decide)).2
    (.inl (by decide))

/-- Two values of 32768 bytes: their file says that it is empty. -/
def twoLargeLeaves : List SimpletlvMember :=
  List.replicate 2 (.leaf 1 (List.replicate 32768 7))

theorem twoLargeLeaves_prefix : Flat twoLargeLeaves ∧ ¬ FilePrefixRight .value twoLargeLeaves := by
  have hflat : Flat twoLargeLeaves := fun m hm => by
    rw [List.eq_of_mem_replicate hm]
    rfl
  have hlen : (half .value twoLargeLeaves).length = 65536 := by
    have hrec : halfRecord .value (.leaf 1 (List.replicate 32768 7)) = List.replicate 32768 7 := rfl
    rw [twoLargeLeaves, List.replicate_succ, List.replicate_one, half_cons, half_cons, hrec]
    simp only [List.length_append, List.length_replicate]
    rfl
  refine ⟨hflat, fun h => ?_⟩
  have hle := ((filePrefixRight_value_iff hflat).1 h).1
  rw [simpletlvGetLength_value hflat, hlen] at hle
  exact absurd hle (by decide)

end Libcacard
