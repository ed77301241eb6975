import Libcacard.Proofs.EncodeExact
import Libcacard.Proofs.Parse

/-!
# Reading an encoding back

An accepted tree is written as its serialisation, except that a list whose length is a multiple of
2 ^ 32 has length 0 as an `int` and is not written at all. So parsing undoes encoding, level by
level, exactly on the trees with no such list.
-/

namespace Libcacard

open Machine Memory

mutual

/-- The members the encoder goes into: not those of a list it takes for an empty one. -/
def seen : SimpletlvMember → SimpletlvMember
  | .none tag n v => .none tag n v
  | .leaf tag v => .leaf tag v
  | .compound tag cs => .compound tag (if simpletlvGetLength cs .both = 0 then [] else seenAll cs)

def seenAll : List SimpletlvMember → List SimpletlvMember
  | [] => []
  | m :: ms => seen m :: seenAll ms

end

def seenTop (ms : List SimpletlvMember) : List SimpletlvMember :=
  if simpletlvGetLength ms .both = 0 then [] else seenAll ms

section Accepted

variable {mem mem' : Memory} {p q : Ptr} {b : Bytes}

/-- The loop over `xs` has written `xs`, and the length pass counted as much. -/
def Wrote (mem mem' : Memory) (p q : Ptr) (b xs : Bytes) (length : Option ℤ) : Prop :=
  length = some (xs.length : ℤ) ∧ p.off + xs.length ≤ b.length ∧ mem' = stored mem p b xs
    ∧ q = p.add xs.length

theorem encodeWith_accepts {n : ℤ}
    {loop : Memory → Ptr → ℕ → Except Fault (Memory × Option (Ptr × ℕ))}
    {outlen : ℕ} (hlen : outlen ≠ 0) {r : EncodeResult}
    (h : encodeWith n loop mem (some p) outlen none = .ok (mem', r)) (hr : 0 ≤ r.rv) :
    (n = 0 ∧ mem' = mem ∧ r.newptr = some p)
      ∨ (0 < n ∧ ∃ q rest, loop mem p outlen = .ok (mem', some (q, rest)) ∧ r.newptr = some q) := by
  unfold encodeWith at h
  by_cases h0 : n = 0
  · rw [if_pos h0] at h
    simp only [pure_eq, Except.ok.injEq, Prod.mk.injEq] at h
    obtain ⟨rfl, rfl⟩ := h
    exact .inl ⟨h0, rfl, rfl⟩
  rw [if_neg h0] at h
  by_cases hneg : n < 0
  · rw [if_pos hneg] at h
    simp only [pure_eq, Except.ok.injEq, Prod.mk.injEq] at h
    obtain ⟨rfl, rfl⟩ := h
    simp only at hr
    omega
  rw [if_neg hneg, if_neg hlen] at h
  by_cases hfit : n ≤ toInt32 outlen
  · rw [if_pos hfit] at h
    obtain ⟨⟨m1, res⟩, hloop, h⟩ := bind_eq_ok.1 h
    rcases res with _ | ⟨q, rest⟩
    · simp only [pure_eq, Except.ok.injEq, Prod.mk.injEq] at h
      obtain ⟨rfl, rfl⟩ := h
      simp at hr
    · simp only [pure_eq, Except.ok.injEq, Prod.mk.injEq] at h
      obtain ⟨rfl, rfl⟩ := h
      exact .inr ⟨by omega, q, rest, hloop, rfl⟩
  · rw [if_neg hfit] at h
    simp only [pure_eq, Except.ok.injEq, Prod.mk.injEq] at h
    obtain ⟨rfl, rfl⟩ := h
    simp at hr

theorem getLength_eq_ok {cs : List SimpletlvMember} {n : ℤ} (h : simpletlvGetLength cs .both = n)
    (hn : 0 ≤ n) : ∃ k, lengthLoop .both cs = some k ∧ toInt32 k = n := by
  unfold simpletlvGetLength at h
  split at h
  · exact ⟨_, ‹_›, h⟩
  · omega

theorem encodeLeaf_accepts {tag : UInt8} {v : Bytes} {mem mem' : Memory} {p q : Ptr} {b : Bytes}
    {pLen : ℕ} (hb : Heap.Holds mem p.block b)
    (h : encodeMember .both (.leaf tag v) mem p pLen = .ok (mem', some q)) :
    EncodableMember (seen (.leaf tag v)) ∧ Wrote mem mem' p q b (record (seen (.leaf tag v)))
      (memberLength .both (.leaf tag v)) := by
  unfold encodeMember at h
  obtain ⟨⟨m1, res⟩, htag, h⟩ := bind_eq_ok.1 h
  rcases res with _ | q1
  · simp at h
  obtain ⟨henc, -, hf, rfl, rfl⟩ := putTag_eq_ok hb htag
  obtain ⟨m2, hst, h⟩ := bind_eq_ok.1 h
  obtain ⟨hf', rfl⟩ := store_eq_ok (p := p.add (header tag v.length).length)
    (stored_holds _ (p := p) hb) hst
  simp only [pure_eq, Except.ok.injEq, Prod.mk.injEq, Option.some.injEq] at h
  obtain ⟨rfl, rfl⟩ := h
  simp only [Ptr.add_off, length_splice hf] at hf'
  refine ⟨henc, ?_, ?_, ?_, ?_⟩
  · rw [memberLength, toInt32_natCast (by omega), recordLength_both tag, seen, record,
      List.length_append]
  · simp only [seen, record, List.length_append]
    omega
  · rw [stored_stored hf, seen, record]
  · rw [Ptr.add_add, seen, record, List.length_append]

mutual

theorem encodeMember_accepts : ∀ (m : SimpletlvMember) (mem mem' : Memory) (p q : Ptr) (b : Bytes)
    (pLen : ℕ), Heap.Holds mem p.block b → p.off ≤ b.length → b.length < 2 ^ 31 →
    encodeMember .both m mem p pLen = .ok (mem', some q) →
    EncodableMember (seen m) ∧ Wrote mem mem' p q b (record (seen m)) (memberLength .both m)
  | .none _ _ _ => by
    intro mem mem' p q b pLen hb hoff _ h
    simp only [encodeMember, Except.ok.injEq, Prod.mk.injEq, Option.some.injEq] at h
    obtain ⟨rfl, rfl⟩ := h
    exact ⟨trivial, rfl, hoff, (stored_nil hb).symm, rfl⟩
  | .leaf _ _ => fun _ _ _ _ _ _ hb _ _ h => encodeLeaf_accepts hb h
  | .compound tag cs => by
    intro mem mem' p q b pLen hb _ h31 h
    unfold encodeMember at h
    obtain ⟨⟨m1, res⟩, htag, h⟩ := bind_eq_ok.1 h
    rcases res with _ | q1
    · simp at h
    obtain ⟨⟨ht, hsz⟩, hroom, hf, rfl, rfl⟩ := putTag_eq_ok hb htag
    obtain ⟨⟨m2, r⟩, hint, h⟩ := bind_eq_ok.1 h
    simp only [pure_eq, Except.ok.injEq, Prod.mk.injEq] at h
    obtain ⟨rfl, hq⟩ := h
    split_ifs at hq with hneg
    have hrange := simpletlvGetLength_range cs .both
    have hb' := stored_holds (header tag (toSize (simpletlvGetLength cs .both))) hb
    have hl := length_splice hf
    rcases encodeWith_accepts (by omega) hint (by omega) with
      ⟨h0, rfl, hnew⟩ | ⟨hpos, q2, rest, hloop, hnew⟩
    · obtain rfl : p.add _ = q := Option.some.inj (hnew.symm.trans hq)
      obtain ⟨k, hk, hk0⟩ := getLength_eq_ok h0 le_rfl
      have hsize : toSize (simpletlvGetLength cs .both) = 0 := by rw [h0]; rfl
      rw [hsize] at hf ⊢
      simp only [seen, h0, if_true]
      refine ⟨⟨⟨ht, by simp [serialise]⟩, trivial⟩, ?_, ?_, ?_, ?_⟩
      · rw [memberLength, if_pos rfl, hk]
        simp only [hk0]
        simpa [record, serialise] using recordLength_both tag 0
      all_goals simp only [record, serialise, List.append_nil, List.length_nil]
      exact hf
    · obtain rfl : q2 = q := Option.some.inj (hnew.symm.trans hq)
      obtain ⟨henc, hlen, hfit, rfl, rfl⟩ := encodeLoop_accepts cs _ _ _
        (p.add (header tag (toSize (simpletlvGetLength cs .both))).length) _ _ _ _ _ hb'
        (by simp only [Ptr.add_off, hl]; exact hf) (by rw [hl]; exact h31) hloop
      simp only [Ptr.add_off, hl] at hfit
      have hn : simpletlvGetLength cs .both = (serialise (seenAll cs)).length := by
        simp only [simpletlvGetLength, hlen]
        exact toInt32_natCast (by omega)
      have hsize : toSize (simpletlvGetLength cs .both) = (serialise (seenAll cs)).length := by
        rw [hn, toSize_of_lt (by omega) (by omega)]
        omega
      rw [hsize] at hf hsz hfit ⊢
      simp only [seen, if_neg (show simpletlvGetLength cs .both ≠ 0 by omega)]
      refine ⟨⟨⟨ht, hsz⟩, henc⟩, ?_, ?_, ?_, ?_⟩
      · rw [memberLength, if_pos rfl, hlen]
        simp only [toInt32_natCast (show (serialise (seenAll cs)).length < 2 ^ 31 by omega),
          recordLength_both tag, record, List.length_append]
      · simp only [record, List.length_append]
        omega
      · rw [stored_stored hf, record]
      · rw [Ptr.add_add, record, List.length_append]

theorem encodeLoop_accepts : ∀ (ms : List SimpletlvMember) (mem mem' : Memory) (tmp p q : Ptr)
    (b : Bytes) (tmpLen pLen rest : ℕ), Heap.Holds mem p.block b → p.off ≤ b.length →
    b.length < 2 ^ 31 → encodeLoop .both ms mem tmp tmpLen p pLen = .ok (mem', some (q, rest)) →
    Encodable (seenAll ms) ∧ Wrote mem mem' p q b (serialise (seenAll ms)) (lengthLoop .both ms)
  | [] => by
    intro mem mem' tmp p q b tmpLen pLen rest hb hoff _ h
    simp only [encodeLoop, Except.ok.injEq, Prod.mk.injEq, Option.some.injEq] at h
    obtain ⟨rfl, rfl, rfl⟩ := h
    exact ⟨trivial, rfl, hoff, (stored_nil hb).symm, rfl⟩
  | m :: ms => by
    intro mem mem' tmp p q b tmpLen pLen rest hb hoff h31 h
    simp only [seenAll, serialise, lengthLoop]
    rcases hm : m.isNone with _ | _
    · rw [encodeLoop_cons _ hm] at h
      obtain ⟨⟨m1, res⟩, hmem, h⟩ := bind_eq_ok.1 h
      rcases res with _ | q1
      · simp at h
      obtain ⟨used, -, h⟩ := bind_eq_ok.1 h
      obtain ⟨henc, hlen, hfit, rfl, rfl⟩ := encodeMember_accepts m _ _ _ _ b _ hb hoff h31 hmem
      have hl := length_splice hfit
      obtain ⟨hencs, hlens, hfits, rfl, rfl⟩ := encodeLoop_accepts ms _ _ tmp
        (p.add (record (seen m)).length) _ _ _ _ _ (stored_holds _ (p := p) hb)
        (by simp only [Ptr.add_off, hl]; exact hfit) (by rw [hl]; exact h31) h
      simp only [Ptr.add_off, hl] at hfits
      refine ⟨⟨henc, hencs⟩, by simp [hlen, hlens], ?_, ?_, ?_⟩
      · simp only [List.length_append]
        omega
      · rw [stored_stored hfit]
      · rw [Ptr.add_add, List.length_append]
    · rcases m with ⟨t, l, v⟩ | _ | _
      · obtain ⟨henc, hlen, hw⟩ := encodeLoop_accepts ms _ _ _ _ _ _ _ _ _ hb hoff h31
          (by simpa only [encodeLoop] using h)
        refine ⟨⟨trivial, henc⟩, ?_, hw⟩
        rw [hlen]
        simp [memberLength, seen, record]
      · simp [SimpletlvMember.isNone] at hm
      · simp [SimpletlvMember.isNone] at hm

end

/-- An accepted tree is written into a new buffer as what the encoder sees of it. -/
theorem simpletlvEncodeNew_accepts {t : List SimpletlvMember} {rv : ℤ} {e : Option Bytes}
    (h : simpletlvEncodeNew t = .ok (rv, e)) (hrv : 0 ≤ rv) :
    Encodable (seenTop t) ∧ e.getD [] = serialise (seenTop t) := by
  have hrange := simpletlvGetLength_range t .both
  unfold simpletlvEncodeNew simpletlvEncode simpletlvEncodeInternal at h
  rw [encodeWith.eq_def] at h
  by_cases h0 : simpletlvGetLength t .both = 0
  · simp only [h0, if_true, pure_eq, ok_bind, Except.ok.injEq, Prod.mk.injEq] at h
    simp [seenTop, h0, ← h.2, Encodable, serialise]
  rw [if_neg h0] at h
  by_cases hneg : simpletlvGetLength t .both < 0
  · simp only [if_pos hneg, pure_eq, ok_bind, Except.ok.injEq, Prod.mk.injEq] at h
    omega
  rw [if_neg hneg, if_pos rfl] at h
  simp only [malloc] at h
  rcases hloop : encodeLoop .both t (Heap.alloc [] (List.replicate (simpletlvGetLength t .both).toNat 0))
      ⟨0, 0⟩ (simpletlvGetLength t .both).toNat ⟨0, 0⟩ (simpletlvGetLength t .both).toNat with
    _ | ⟨mem', res⟩
  · simp [hloop] at h
  simp only [List.length_nil, hloop, ok_bind] at h
  have hb : Heap.Holds (Heap.alloc ([] : Memory)
    (List.replicate (simpletlvGetLength t .both).toNat 0)) (Ptr.mk 0 0).block
    (List.replicate (simpletlvGetLength t .both).toNat 0) := Heap.alloc_holds
  rcases res with _ | ⟨q, rest⟩
  · rcases hfree : Heap.free mem' 0 with _ | m2 <;> simp [hfree] at h
    omega
  obtain ⟨henc, hlen, hfit, rfl, rfl⟩ := encodeLoop_accepts t _ _ _ _ _ _ _ _ _ hb (by simp)
    (by simp only [List.length_replicate]; omega) hloop
  simp only [List.length_replicate] at hfit
  have hn : simpletlvGetLength t .both = (serialise (seenAll t)).length := by
    simp only [simpletlvGetLength, hlen]
    exact toInt32_natCast (by omega)
  have hread := Heap.read_of_holds (stored_holds (serialise (seenAll t)) hb)
  simp only [pure_eq, ok_bind, hread, Except.ok.injEq, Prod.mk.injEq] at h
  rw [seenTop, if_neg h0, ← h.2]
  exact ⟨henc, splice_whole (by simp [hn])⟩

end Accepted

section ReadBack

/-- The members of one level as leaves, by their serialisation. -/
def leaves : List SimpletlvMember → List SimpletlvMember
  | [] => []
  | .none _ _ _ :: ms => leaves ms
  | .leaf tag v :: ms => .leaf tag v :: leaves ms
  | .compound tag cs :: ms => .leaf tag (serialise cs) :: leaves ms

theorem rawRecord_header (tag : UInt8) {v : Bytes} (h : v.length ≤ 65534) :
    RawRecord (header tag v.length ++ v) (.leaf tag v) := by
  unfold header
  split_ifs with hs
  · exact .short tag v hs
  · simpa using RawRecord.long tag v (by omega)

theorem exists_rawRecords : ∀ {ms : List SimpletlvMember}, Encodable ms →
    ∃ raws, List.Forall₂ RawRecord raws (leaves ms) ∧ raws.flatten = serialise ms
  | [], _ => ⟨[], .nil, rfl⟩
  | .none _ _ _ :: ms, h => by
    obtain ⟨raws, hs, hf⟩ := exists_rawRecords h.2
    exact ⟨raws, hs, hf⟩
  | .leaf tag v :: ms, h => by
    obtain ⟨raws, hs, hf⟩ := exists_rawRecords h.2
    exact ⟨_ :: raws, .cons (rawRecord_header tag h.1.2) hs, by simp [serialise, record, hf]⟩
  | .compound tag cs :: ms, h => by
    obtain ⟨raws, hs, hf⟩ := exists_rawRecords h.2
    exact ⟨_ :: raws, .cons (rawRecord_header tag h.1.1.2) hs, by simp [serialise, record, hf]⟩

theorem simpletlvParse_serialise {ms : List SimpletlvMember} (h : Encodable ms) :
    simpletlvParse (serialise ms) = .ok (leaves ms) := by
  obtain ⟨raws, hs, hf⟩ := exists_rawRecords h
  have := simpletlvParse_flatten hs (show Incomplete [] from trivial)
  rwa [List.append_nil, hf] at this

theorem recovered_nil_iff : ∀ (ms : List SimpletlvMember),
    Recovered ms [] ↔ ∀ m ∈ ms, m.isNone
  | [] => by simp [Recovered]
  | .none _ _ _ :: ms => by
    simp [Recovered, recovered_nil_iff ms, SimpletlvMember.isNone]
  | .leaf _ _ :: ms => by simp [Recovered, SimpletlvMember.isNone]
  | .compound _ _ :: ms => by simp [Recovered, SimpletlvMember.isNone]

theorem measuredBelow_of_isNone : ∀ {ms : List SimpletlvMember}, (∀ m ∈ ms, m.isNone) →
    MeasuredBelow ms
  | [], _ => by simp [MeasuredBelow]
  | .none _ _ _ :: ms, h => by
    have := measuredBelow_of_isNone fun m hm => h m (List.mem_cons_of_mem _ hm)
    simpa [MeasuredBelow] using this
  | .leaf _ _ :: ms, h => by simpa [SimpletlvMember.isNone] using h _ (List.mem_cons_self ..)
  | .compound _ _ :: ms, h => by simpa [SimpletlvMember.isNone] using h _ (List.mem_cons_self ..)

theorem unwrapped_iff_of_zero {ms : List SimpletlvMember}
    (h0 : simpletlvGetLength ms .both = 0) : Unwrapped ms ↔ ∀ m ∈ ms, m.isNone :=
  ⟨fun h => h.1 h0, fun h => ⟨fun _ => h, measuredBelow_of_isNone h⟩⟩

/-- A tree comes back from what the encoder saw of it exactly if the encoder saw all of it. -/
theorem recovered_seenAll_iff : ∀ {ms : List SimpletlvMember}, Encodable (seenAll ms) →
    (Recovered ms (leaves (seenAll ms)) ↔ MeasuredBelow ms)
  | [], _ => by simp [Recovered, seenAll, leaves, MeasuredBelow]
  | .none _ _ _ :: ms, h => by
    simpa [Recovered, seenAll, seen, leaves, MeasuredBelow] using recovered_seenAll_iff h.2
  | .leaf _ _ :: ms, h => by
    simpa [Recovered, seenAll, seen, leaves, MeasuredBelow] using recovered_seenAll_iff h.2
  | .compound tag cs :: ms, h => by
    have ihs := recovered_seenAll_iff h.2
    have henc : Encodable (seenTop cs) := h.1.2
    have ih : Recovered cs (leaves (seenTop cs)) ↔ Unwrapped cs := by
      by_cases h0 : simpletlvGetLength cs .both = 0
      · rw [unwrapped_iff_of_zero h0, seenTop, if_pos h0]
        exact recovered_nil_iff _
      · rw [seenTop, if_neg h0] at henc ⊢
        rw [recovered_seenAll_iff henc]
        exact ⟨fun h => ⟨fun h' => absurd h' h0, h⟩, fun h => h.2⟩
    have hparse := simpletlvParse_serialise henc
    simp only [Recovered, seenAll, seen, leaves, MeasuredBelow]
    rw [← ihs, show (Measured cs ∧ MeasuredBelow cs) = Unwrapped cs from rfl, ← ih]
    constructor
    · rintro ⟨v, sub, rest, hcons, hv, hsub, hrest⟩
      obtain ⟨hleaf, rfl⟩ := List.cons.inj hcons
      obtain rfl : serialise (seenTop cs) = v := (SimpletlvMember.leaf.inj hleaf).2
      obtain rfl : leaves (seenTop cs) = sub := Except.ok.inj (hparse.symm.trans hv)
      exact ⟨hsub, hrest⟩
    · rintro ⟨hsub, hrest⟩
      exact ⟨_, _, _, rfl, hparse, hsub, hrest⟩

theorem recovered_seenTop_iff {ms : List SimpletlvMember} (h : Encodable (seenTop ms)) :
    Recovered ms (leaves (seenTop ms)) ↔ Unwrapped ms := by
  by_cases h0 : simpletlvGetLength ms .both = 0
  · rw [unwrapped_iff_of_zero h0, seenTop, if_pos h0]
    exact recovered_nil_iff _
  · rw [seenTop, if_neg h0] at h ⊢
    rw [recovered_seenAll_iff h]
    exact ⟨fun h => ⟨fun h' => absurd h' h0, h⟩, fun h => h.2⟩

end ReadBack

section SeenWhole

theorem serialise_seenAll : ∀ {ms : List SimpletlvMember}, MeasuredBelow ms →
    serialise (seenAll ms) = serialise ms ∧ (Encodable (seenAll ms) ↔ Encodable ms)
  | [], _ => ⟨rfl, Iff.rfl⟩
  | .none _ _ _ :: ms, h => by
    obtain ⟨hs, he⟩ := serialise_seenAll (by simpa only [MeasuredBelow] using h)
    exact ⟨by simp [seenAll, seen, serialise, hs], by simp [seenAll, seen, Encodable, he]⟩
  | .leaf _ _ :: ms, h => by
    obtain ⟨hs, he⟩ := serialise_seenAll (by simpa only [MeasuredBelow] using h)
    exact ⟨by simp [seenAll, seen, serialise, hs], by simp [seenAll, seen, Encodable, he]⟩
  | .compound tag cs :: ms, h => by
    simp only [MeasuredBelow] at h
    obtain ⟨⟨hm, hcs⟩, hms⟩ := h
    obtain ⟨hs, he⟩ := serialise_seenAll hms
    have htop : serialise (seenTop cs) = serialise cs ∧ (Encodable (seenTop cs) ↔ Encodable cs) := by
      by_cases h0 : simpletlvGetLength cs .both = 0
      · obtain ⟨hnil, henc, -⟩ := serialise_of_isNone (hm h0)
        rw [seenTop, if_pos h0]
        exact ⟨hnil.symm, iff_of_true trivial henc⟩
      · rw [seenTop, if_neg h0]
        exact serialise_seenAll hcs
    simp only [seenAll, seen, serialise, record, Encodable, EncodableMember, he]
    rw [show (if simpletlvGetLength cs .both = 0 then [] else seenAll cs) = seenTop cs from rfl,
      htop.1, htop.2, hs]
    exact ⟨rfl, Iff.rfl⟩

theorem serialise_seenTop {ms : List SimpletlvMember} (h : Unwrapped ms) :
    serialise (seenTop ms) = serialise ms ∧ (Encodable (seenTop ms) ↔ Encodable ms) := by
  by_cases h0 : simpletlvGetLength ms .both = 0
  · obtain ⟨hnil, henc, -⟩ := serialise_of_isNone (h.1 h0)
    rw [seenTop, if_pos h0]
    exact ⟨hnil.symm, iff_of_true trivial henc⟩
  · rw [seenTop, if_neg h0]
    exact serialise_seenAll h.2

theorem encoded_eq_serialise {ms : List SimpletlvMember} (h : Encodable ms)
    (hlen : (serialise ms).length < 2 ^ 31) : encoded ms = serialise ms := by
  unfold encoded simpletlvEncodeNew
  rcases Nat.eq_zero_or_pos (serialise ms).length with h0 | h0
  · rw [simpletlvEncode_nil h0]
    exact (List.length_eq_zero_iff.1 h0).symm
  · rcases simpletlvEncode_new hlen h0 with
      ⟨-, heq⟩ | ⟨hno, -⟩
    · rw [heq]
      rfl
    · exact absurd h hno

theorem topLevel_eq_leaves : ∀ {ms : List SimpletlvMember}, MeasuredBelow ms →
    Encodable (seenAll ms) → topLevel ms = leaves (seenAll ms)
  | [], _, _ => rfl
  | .none _ _ _ :: ms, h, he => by
    simp only [MeasuredBelow] at h
    simpa only [topLevel, seenAll, seen, leaves] using topLevel_eq_leaves h he.2
  | .leaf _ _ :: ms, h, he => by
    simp only [MeasuredBelow] at h
    simp only [topLevel, seenAll, seen, leaves, topLevel_eq_leaves h he.2]
  | .compound tag cs :: ms, h, he => by
    simp only [MeasuredBelow] at h
    obtain ⟨hs, henc⟩ := serialise_seenTop h.1
    have hlen : (serialise (seenTop cs)).length ≤ 65534 := he.1.1.2
    have hcs : encoded cs = serialise (seenTop cs) := by
      rw [encoded_eq_serialise (henc.1 he.1.2) (by rw [← hs]; omega), hs]
    simp only [topLevel, seenAll, seen, leaves, topLevel_eq_leaves h.2 he.2, hcs]
    rfl

theorem topLevel_eq_leaves_seenTop {ms : List SimpletlvMember} (h : Unwrapped ms)
    (he : Encodable (seenTop ms)) : topLevel ms = leaves (seenTop ms) := by
  by_cases h0 : simpletlvGetLength ms .both = 0
  · rw [seenTop, if_pos h0, (serialise_of_isNone (h.1 h0)).2.2.2]
    rfl
  · rw [seenTop, if_neg h0] at he ⊢
    exact topLevel_eq_leaves h.2 he

/-- Parsing `e` gives the members of `t`, with nothing left over, and parsing the values of its
compounds in turn gives the rest of the tree. -/
def RoundTrip (t : List SimpletlvMember) (e : Bytes) : Prop :=
  simpletlvParse e = .ok (topLevel t)
    ∧ (∃ raws, List.Forall₂ RawRecord raws (topLevel t) ∧ raws.flatten = e)
    ∧ Recovered t (topLevel t)

theorem roundTrip_iff {t : List SimpletlvMember} (he : Encodable (seenTop t)) :
    RoundTrip t (serialise (seenTop t)) ↔ Unwrapped t := by
  have hparse := simpletlvParse_serialise he
  constructor
  · rintro ⟨hp, -, hrec⟩
    rw [← Except.ok.inj (hparse.symm.trans hp)] at hrec
    exact (recovered_seenTop_iff he).1 hrec
  · intro hu
    have htop := topLevel_eq_leaves_seenTop hu he
    rw [RoundTrip, htop]
    exact ⟨hparse, exists_rawRecords he, (recovered_seenTop_iff he).2 hu⟩

/-- Parsing takes the longest run of complete records off the front of any byte string, and undoes
the encoding of an accepted tree if and only if no list in it has a length that wraps to 0. -/
theorem simpletlvParse_undoes_encode (d : Bytes) (t : List SimpletlvMember) (rv : ℤ)
    (e : Option Bytes) :
    (∃ tlv raws rest, simpletlvParse d = .ok tlv
      ∧ List.Forall₂ RawRecord raws tlv ∧ d = raws.flatten ++ rest ∧ Incomplete rest)
    ∧ (simpletlvEncodeNew t = .ok (rv, e) → 0 ≤ rv →
      (RoundTrip t (e.getD []) ↔ Unwrapped t)) := by
  refine ⟨simpletlvParse_records d, fun h hrv => ?_⟩
  obtain ⟨henc, heq⟩ := simpletlvEncodeNew_accepts h hrv
  rw [heq]
  exact roundTrip_iff henc

/-- A leaf and a compound with a leaf in it. -/
theorem simpletlvParse_undoes_encode_nested :
    RoundTrip [.leaf 1 [7], .compound 2 [.leaf 3 [8, 9]]] [1, 1, 7, 2, 4, 3, 2, 8, 9] := by
  have hnew : simpletlvEncodeNew [.leaf 1 [7], .compound 2 [.leaf 3 [8, 9]]]
      = .ok (9, some [1, 1, 7, 2, 4, 3, 2, 8, 9]) := by decide +kernel
  refine ((simpletlvParse_undoes_encode [] _ _ _).2 hnew (by omega)).2 ⟨fun h => ?_, ?_⟩
  · simp [show simpletlvGetLength [.leaf 1 [7], .compound 2 [.leaf 3 [8, 9]]] .both = 9 from rfl]
      at h
  · simp [MeasuredBelow, Measured, show simpletlvGetLength [.leaf 3 [8, 9]] .both = 4 from rfl]

end SeenWhole

section Wraps

theorem lengthLoop_replicate (ty : SimpletlvBufferType) (m : SimpletlvMember) {k : ℤ}
    (h : memberLength ty m = some k) (n : ℕ) :
    lengthLoop ty (List.replicate n m) = some (n * k) := by
  induction n with
  | zero => simp [lengthLoop]
  | succ n ih =>
    rw [List.replicate_succ, lengthLoop, h, ih]
    simp only [Option.some.injEq]
    push_cast
    ring

/-- 65536 leaves of 65532 bytes: 2 ^ 32 bytes with their headers. -/
def wrappingLeaves : List SimpletlvMember :=
  List.replicate 65536 (.leaf 1 (List.replicate 65532 0))

theorem simpletlvGetLength_wrappingLeaves : simpletlvGetLength wrappingLeaves .both = 0 := by
  have hleaf : memberLength .both (.leaf 1 (List.replicate 65532 0)) = some 65536 := by
    rw [memberLength, List.length_replicate]
    rfl
  rw [simpletlvGetLength, wrappingLeaves, lengthLoop_replicate _ _ hleaf]
  rfl

/-- They are accepted, and nothing is written. -/
theorem wrappingLeaves_not_roundTrip :
    simpletlvEncodeNew wrappingLeaves = .ok (0, none) ∧ ¬ RoundTrip wrappingLeaves [] := by
  have h0 := simpletlvGetLength_wrappingLeaves
  refine ⟨?_, ?_⟩
  · unfold simpletlvEncodeNew simpletlvEncode simpletlvEncodeInternal
    rw [encodeWith.eq_def, h0]
    rfl
  · have hseen : seenTop wrappingLeaves = [] := by rw [seenTop, if_pos h0]
    have hiff := roundTrip_iff (t := wrappingLeaves) (by rw [hseen]; trivial)
    rw [hseen] at hiff
    rw [show ([] : Bytes) = serialise [] from rfl, hiff]
    intro hu
    have := hu.1 h0 (.leaf 1 (List.replicate 65532 0)) (List.mem_replicate.2 ⟨by omega, rfl⟩)
    simp [SimpletlvMember.isNone] at this

end Wraps

end Libcacard
