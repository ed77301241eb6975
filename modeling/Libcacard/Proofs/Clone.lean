import Libcacard.CacFiles
import Libcacard.Clone

/-!
# Copies of member trees

A tree is copied if every compound in it has children, and then its copy is the same tree. A
compound without children makes the whole copy fail.
-/

namespace Libcacard

open Machine

namespace InMemory

variable {h h' : TlvHeap} {lo : ℕ}

/-- A heap that has all there was, but for the block at `a`. -/
def KeepsBut (a : ℕ) (h h' : TlvHeap) : Prop :=
  h.length ≤ h'.length ∧ ∀ b < h.length, b ≠ a → h'[b]? = h[b]?

theorem KeepsBut.holds {a b : ℕ} {x : TlvBlock} (hk : KeepsBut a h h') (hb : h.Holds b x)
    (hne : b ≠ a) : h'.Holds b x :=
  (hk.2 b hb.lt hne).trans hb

section Held

theorem HoldsValue.mono {lo' : ℕ} {v : Bytes} {p : Option ℕ} (hlo : lo' ≤ lo)
    (hkeep : ∀ b x, lo ≤ b → h.Holds b x → h'.Holds b x) (hv : HoldsValue lo h v p) :
    HoldsValue lo' h' v p := by
  unfold HoldsValue at hv ⊢
  split_ifs at hv ⊢
  · exact hv
  · obtain ⟨a, hp, hle, ha⟩ := hv
    exact ⟨a, hp, Nat.le_trans hlo hle, hkeep a _ hle ha⟩

mutual

theorem HoldsMember.mono {lo' : ℕ} (hlo : lo' ≤ lo)
    (hkeep : ∀ b x, lo ≤ b → h.Holds b x → h'.Holds b x) : ∀ {m : SimpletlvMember} {c : TlvCell},
    HoldsMember lo h m c → HoldsMember lo' h' m c
  | .none _ _ _, _, ⟨h1, h2, h3, hv⟩ => ⟨h1, h2, h3, hv.mono hlo hkeep⟩
  | .leaf _ _, _, ⟨h1, h2, h3, hv⟩ => ⟨h1, h2, h3, hv.mono hlo hkeep⟩
  | .compound _ _, _, ⟨h1, h2, h3, a, cells, hp, hle, ha, hcs⟩ =>
    ⟨h1, h2, h3, a, cells, hp, Nat.le_trans hlo hle, hkeep a _ hle ha, hcs.mono hlo hkeep⟩

theorem HoldsMembers.mono {lo' : ℕ} (hlo : lo' ≤ lo)
    (hkeep : ∀ b x, lo ≤ b → h.Holds b x → h'.Holds b x) :
    ∀ {ms : List SimpletlvMember} {cells : List TlvCell},
    HoldsMembers lo h ms cells → HoldsMembers lo' h' ms cells
  | [], _, hms => hms
  | _ :: _, _, ⟨c, rest, hcells, hm, hms⟩ =>
    ⟨c, rest, hcells, hm.mono hlo hkeep, hms.mono hlo hkeep⟩

end

end Held

section Copied

theorem gMemdup2_ok (h : TlvHeap) (value : Option Bytes) (n : ℕ)
    (hn : ∀ b, value = some b → n ≤ b.length) :
    ∃ h' p, gMemdup2 h value n = .ok (h', p) ∧ h.length ≤ h'.length
      ∧ (∀ b < h.length, h'[b]? = h[b]?) ∧ HoldsValue h.length h' ((value.getD []).take n) p := by
  rcases value with _ | b
  · exact ⟨h, none, rfl, Nat.le_refl _, fun _ _ => rfl, by simp [HoldsValue]⟩
  by_cases h0 : n = 0
  · subst h0
    exact ⟨h, none, rfl, Nat.le_refl _, fun _ _ => rfl, by simp [HoldsValue]⟩
  · have hle := hn b rfl
    have hread : readBytes b 0 n = .ok (b.take n) := by
      rw [readBytes_of_le (by omega), List.drop_zero]
    have hne : b.take n ≠ [] := by
      rw [← List.length_pos_iff, List.length_take]
      omega
    refine ⟨h.alloc (.bytes (b.take n)), some h.length, ?_, ?_, fun b hb => ?_, ?_⟩
    · simp only [gMemdup2, if_neg h0, hread, ok_bind, pure_eq]
    · simp [Heap.alloc]
    · exact List.getElem?_append_left hb
    · rw [Option.getD_some, HoldsValue, if_neg hne]
      exact ⟨h.length, rfl, Nat.le_refl _, Heap.alloc_holds⟩

/-- A level that is copied: its cells are behind those there were. -/
def LoopDone (a : ℕ) (done : List TlvCell) (ms : List SimpletlvMember) (h : TlvHeap)
    (res : Except Fault (TlvHeap × Option ℕ)) : Prop :=
  ∃ h' cells, res = .ok (h', some a) ∧ KeepsBut a h h'
    ∧ h'.Holds a (.members (done ++ cells)) ∧ HoldsMembers h.length h' ms cells

/-- The array of a new level, when its loop is done. -/
theorem LoopDone.array {ms : List SimpletlvMember}
    (hdone : LoopDone h.length [] ms (h.alloc (.members []))
      (cloneLoop h.length [] ms (h.alloc (.members [])))) :
    ∃ h' cells, cloneLoop h.length [] ms (h.alloc (.members [])) = .ok (h', some h.length)
      ∧ h.length ≤ h'.length ∧ (∀ b < h.length, h'[b]? = h[b]?)
      ∧ h'.Holds h.length (.members cells) ∧ HoldsMembers h.length h' ms cells := by
  obtain ⟨h', cells, hres, hkeep, ha, hms⟩ := hdone
  have hlen : (h.alloc (.members [])).length = h.length + 1 := by simp [Heap.alloc]
  have hle := hkeep.1
  rw [hlen] at hms
  refine ⟨h', cells, hres, by omega, fun b hb => ?_, ha,
    hms.mono (Nat.le_succ _) fun _ _ _ hb => hb⟩
  rw [hkeep.2 b (by omega) (by omega)]
  exact List.getElem?_append_left hb

theorem length_of_holdsMembers : ∀ {ms : List SimpletlvMember} {cells : List TlvCell},
    HoldsMembers lo h ms cells → cells.length = ms.length
  | [], _, hms => by rw [show _ = [] from hms]; rfl
  | _ :: _, _, ⟨_, _, hcells, _, hms⟩ => by
    rw [hcells, List.length_cons, List.length_cons, length_of_holdsMembers hms]

mutual

theorem cloneValue_ok : ∀ {m : SimpletlvMember} (h : TlvHeap), PopulatedMember m → ValueHeld m →
    ∃ h' p, cloneValue m h = .ok (h', p) ∧ h.length ≤ h'.length
      ∧ (∀ b < h.length, h'[b]? = h[b]?) ∧ ¬ (m.type = .compound ∧ p = none)
      ∧ HoldsMember h.length h' m ⟨m.type, m.tag, m.length, p⟩
  | .none tag n value, h, _, hv => by
    obtain ⟨h', p, hres, hle, hkeep, hp⟩ := gMemdup2_ok h value n hv
    exact ⟨h', p, hres, hle, hkeep, fun h => (nomatch h.1), rfl, rfl, rfl, hp⟩
  | .leaf tag v, h, _, _ => by
    obtain ⟨h', p, hres, hle, hkeep, hp⟩ := gMemdup2_ok h (some v) v.length
      (by rintro _ ⟨⟩; exact Nat.le_refl _)
    rw [Option.getD_some, List.take_length] at hp
    exact ⟨h', p, hres, hle, hkeep, fun h => (nomatch h.1), rfl, rfl, rfl, hp⟩
  | .compound tag [], h, hpop, _ => absurd rfl hpop.1
  | .compound tag (c :: cs), h, hpop, hv => by
    obtain ⟨h', cells, hres, hle, hkeep, ha, hcs⟩ := (cloneLoop_ok h.length []
      (h.alloc (.members [])) hpop.2 hv Heap.alloc_holds).array
    exact ⟨h', some h.length, hres, hle, hkeep, fun h => (nomatch h.2), rfl, rfl, rfl, h.length,
      cells, rfl, Nat.le_refl _, ha, hcs⟩

theorem cloneLoop_ok : ∀ {ms : List SimpletlvMember} (a : ℕ) (done : List TlvCell) (h : TlvHeap),
    Populated ms → ValuesHeld ms → h.Holds a (.members done) →
    LoopDone a done ms h (cloneLoop a done ms h)
  | [], a, done, h, _, _, ha =>
    ⟨h, [], rfl, ⟨Nat.le_refl _, fun _ _ _ => rfl⟩, by rwa [List.append_nil], rfl⟩
  | m :: ms, a, done, h, hpop, hv, ha => by
    obtain ⟨h₁, p, hres, hle, hkeep, hnot, hm⟩ := cloneValue_ok h hpop.1 hv.1
    have ha₁ : h₁.Holds a (.members done) := (hkeep a ha.lt).trans ha
    obtain ⟨h₂, hh₂⟩ : ∃ h₂, h₂ = h₁.set a
      (some (.members (done ++ [⟨m.type, m.tag, m.length, p⟩]))) := ⟨_, rfl⟩
    have hlen : h₂.length = h₁.length := by rw [hh₂, List.length_set]
    obtain ⟨h₃, cells, hres₃, hkeep₃, ha₃, hms⟩ := cloneLoop_ok a
      (done ++ [⟨m.type, m.tag, m.length, p⟩]) h₂ hpop.2 hv.2 (hh₂ ▸ ha₁.set_same)
    refine ⟨h₃, ⟨m.type, m.tag, m.length, p⟩ :: cells, ?_, ?_, ?_, _, cells, rfl, ?_, ?_⟩
    · simp only [cloneLoop, hres, ok_bind, Heap.write_of_holds ha₁, ← hh₂, if_neg hnot, hres₃]
    · have hle₃ := hkeep₃.1
      refine ⟨by omega, fun b hb hne => ?_⟩
      rw [hkeep₃.2 b (by omega) hne, hh₂, List.getElem?_set_ne (Ne.symm hne), hkeep b hb]
    · rwa [List.append_assoc] at ha₃
    · refine hm.mono (Nat.le_refl _) fun b x hb hx => ?_
      have hne : b ≠ a := by
        have := ha.lt
        omega
      exact hkeep₃.holds (hh₂ ▸ hx.set_ne (Ne.symm hne)) hne
    · exact hms.mono (by omega) fun _ _ _ hx => hx

end

end Copied

section NotCopied

mutual

theorem populated_of_cloneValue : ∀ {m : SimpletlvMember} {h h' : TlvHeap} {p : Option ℕ},
    cloneValue m h = .ok (h', p) → ¬ (m.type = .compound ∧ p = none) → PopulatedMember m
  | .none _ _ _, _, _, _, _, _ => trivial
  | .leaf _ _, _, _, _, _, _ => trivial
  | .compound tag [], h, h', p, hres, hnot => by
    cases hres
    exact absurd ⟨rfl, rfl⟩ hnot
  | .compound tag (c :: cs), h, h', p, hres, hnot => by
    rcases p with _ | q
    · exact absurd ⟨rfl, rfl⟩ hnot
    · exact ⟨List.cons_ne_nil _ _, populated_of_cloneLoop hres⟩

theorem populated_of_cloneLoop : ∀ {ms : List SimpletlvMember} {a q : ℕ} {done : List TlvCell}
    {h h' : TlvHeap}, cloneLoop a done ms h = .ok (h', some q) → Populated ms
  | [], _, _, _, _, _, _ => trivial
  | m :: ms, a, q, done, h, h', hres => by
    simp only [cloneLoop, bind_eq_ok] at hres
    obtain ⟨⟨h₁, p⟩, hvalue, h₂, -, hres⟩ := hres
    split_ifs at hres with hnot
    · simp only [cloneFailure, bind_eq_ok, pure_eq, Except.ok.injEq, Prod.mk.injEq, reduceCtorEq,
        and_false, exists_false] at hres
    · exact ⟨populated_of_cloneValue hvalue hnot, populated_of_cloneLoop hres⟩

end

end NotCopied

section Encoded

mutual

/-- A member without what is not looked at. -/
def bare : SimpletlvMember → SimpletlvMember
  | .none tag n _ => .none tag n none
  | .leaf tag v => .leaf tag v
  | .compound tag cs => .compound tag (bareAll cs)

def bareAll : List SimpletlvMember → List SimpletlvMember
  | [] => []
  | m :: ms => bare m :: bareAll ms

end

mutual

theorem memberLength_bare (ty : SimpletlvBufferType) : ∀ m : SimpletlvMember,
    memberLength ty (bare m) = memberLength ty m
  | .none _ _ _ => rfl
  | .leaf _ _ => rfl
  | .compound tag cs => by rw [bare, memberLength, memberLength, lengthLoop_bare ty cs]

theorem lengthLoop_bare (ty : SimpletlvBufferType) : ∀ ms : List SimpletlvMember,
    lengthLoop ty (bareAll ms) = lengthLoop ty ms
  | [] => rfl
  | m :: ms => by
    rw [bareAll, lengthLoop, lengthLoop, memberLength_bare ty m, lengthLoop_bare ty ms]

end

theorem simpletlvGetLength_bare (ms : List SimpletlvMember) (ty : SimpletlvBufferType) :
    simpletlvGetLength (bareAll ms) ty = simpletlvGetLength ms ty := by
  rw [simpletlvGetLength, simpletlvGetLength, lengthLoop_bare]

mutual

theorem encodeMember_bare (ty : SimpletlvBufferType) : ∀ (m : SimpletlvMember) (mem : Memory)
    (p : Ptr) (pLen : ℕ), encodeMember ty (bare m) mem p pLen = encodeMember ty m mem p pLen
  | .none _ _ _, _, _, _ => rfl
  | .leaf _ _, _, _, _ => rfl
  | .compound tag cs, mem, p, pLen => by
    have hloop : (fun mem tmp tmpLen => encodeLoop ty (bareAll cs) mem tmp tmpLen tmp tmpLen)
        = fun mem tmp tmpLen => encodeLoop ty cs mem tmp tmpLen tmp tmpLen :=
      funext fun mem => funext fun tmp => funext fun tmpLen =>
        encodeLoop_bare ty cs mem tmp tmpLen tmp tmpLen
    simp only [bare, encodeMember, simpletlvGetLength_bare, hloop]

theorem encodeLoop_bare (ty : SimpletlvBufferType) : ∀ (ms : List SimpletlvMember) (mem : Memory)
    (tmp : Ptr) (tmpLen : ℕ) (p : Ptr) (pLen : ℕ),
    encodeLoop ty (bareAll ms) mem tmp tmpLen p pLen = encodeLoop ty ms mem tmp tmpLen p pLen
  | [], _, _, _, _, _ => rfl
  | .none _ _ _ :: ms, mem, tmp, tmpLen, p, pLen => by
    rw [bareAll, bare, encodeLoop, encodeLoop, encodeLoop_bare ty ms]
  | .leaf tag v :: ms, mem, tmp, tmpLen, p, pLen => by
    have hms : encodeLoop ty (bareAll ms) = encodeLoop ty ms := by
      funext mem tmp tmpLen p pLen
      exact encodeLoop_bare ty ms mem tmp tmpLen p pLen
    simp only [bareAll, bare, encodeLoop, hms]
  | .compound tag cs :: ms, mem, tmp, tmpLen, p, pLen => by
    have hms : encodeLoop ty (bareAll ms) = encodeLoop ty ms := by
      funext mem tmp tmpLen p pLen
      exact encodeLoop_bare ty ms mem tmp tmpLen p pLen
    have hm := encodeMember_bare ty (.compound tag cs)
    simp only [bare] at hm
    simp only [bareAll, bare, encodeLoop, hms, hm]

end

theorem simpletlvEncodeInternal_bare (mem : Memory) (ms : List SimpletlvMember)
    (out : Option Ptr) (outlen : ℕ) (newptr : Option Ptr) (ty : SimpletlvBufferType) :
    simpletlvEncodeInternal mem (bareAll ms) out outlen newptr ty
      = simpletlvEncodeInternal mem ms out outlen newptr ty := by
  simp only [simpletlvEncodeInternal, simpletlvGetLength_bare, encodeLoop_bare]

end Encoded

section OneTree

theorem HoldsValue.unique {v w : Bytes} {p : Option ℕ} (hv : HoldsValue lo h v p)
    (hw : HoldsValue lo h w p) : v = w := by
  unfold HoldsValue at hv hw
  split_ifs at hv hw with hnil hnil' hnil'
  · rw [hnil, hnil']
  · obtain ⟨a, ha, -⟩ := hw
    cases hv.symm.trans ha
  · obtain ⟨a, ha, -⟩ := hv
    cases hw.symm.trans ha
  · obtain ⟨a, ha, -, hv⟩ := hv
    obtain ⟨b, hb, -, hw⟩ := hw
    cases ha.symm.trans hb
    exact TlvBlock.bytes.inj (hv.eq hw)

mutual

theorem HoldsMember.unique : ∀ {m n : SimpletlvMember} {c : TlvCell}, HoldsMember lo h m c →
    HoldsMember lo h n c → bare m = bare n
  | .none _ _ _, .none _ _ _, _, ⟨_, htag, hlen, _⟩, ⟨_, htag', hlen', _⟩ => by
    rw [bare, bare, ← htag, ← htag', ← hlen, ← hlen']
  | .leaf _ _, .leaf _ _, _, ⟨_, htag, _, hv⟩, ⟨_, htag', _, hv'⟩ => by
    rw [bare, bare, ← htag, ← htag', hv.unique hv']
  | .compound _ _, .compound _ _, _, ⟨_, htag, _, a, cells, hp, _, ha, hcs⟩,
      ⟨_, htag', _, a', cells', hp', _, ha', hcs'⟩ => by
    cases hp.symm.trans hp'
    obtain rfl := TlvBlock.members.inj (ha.eq ha')
    rw [bare, bare, ← htag, ← htag', hcs.unique hcs']
  | .none _ _ _, .leaf _ _, _, hm, hn | .none _ _ _, .compound _ _, _, hm, hn
  | .leaf _ _, .none _ _ _, _, hm, hn | .leaf _ _, .compound _ _, _, hm, hn
  | .compound _ _, .none _ _ _, _, hm, hn | .compound _ _, .leaf _ _, _, hm, hn =>
    nomatch hm.1.symm.trans hn.1

theorem HoldsMembers.unique : ∀ {ms ns : List SimpletlvMember} {cells : List TlvCell},
    HoldsMembers lo h ms cells → HoldsMembers lo h ns cells → bareAll ms = bareAll ns
  | [], [], _, _, _ => rfl
  | [], _ :: _, _, hms, ⟨_, _, hcells, _⟩ => nomatch hms.symm.trans hcells
  | _ :: _, [], _, ⟨_, _, hcells, _⟩, hns => nomatch hns.symm.trans hcells
  | _ :: _, _ :: _, _, ⟨c, rest, hcells, hm, hms⟩, ⟨c', rest', hcells', hn, hns⟩ => by
    obtain ⟨rfl, rfl⟩ := List.cons.inj (hcells.symm.trans hcells')
    rw [bareAll, bareAll, hm.unique hn, hms.unique hns]

end

end OneTree

section Copy

theorem HoldsTree.unique {p : ℕ} {tlv copy : List SimpletlvMember} (ht : HoldsTree lo h p tlv)
    (hc : HoldsTree lo h p copy) : bareAll copy = bareAll tlv := by
  obtain ⟨-, cells, ha, hms⟩ := ht
  obtain ⟨-, cells', ha', hms'⟩ := hc
  obtain rfl := TlvBlock.members.inj (ha.eq ha')
  exact hms'.unique hms

theorem clonedWhole_of_populated {tlv : List SimpletlvMember} (h : TlvHeap) (hne : tlv ≠ [])
    (hpop : Populated tlv) (hvalues : ValuesHeld tlv) : ClonedWhole h tlv := by
  obtain ⟨m, ms, rfl⟩ := List.exists_cons_of_ne_nil hne
  obtain ⟨h', cells, hres, -, hkeep, ha, hms⟩ := (cloneLoop_ok h.length []
    (h.alloc (.members [])) hpop hvalues Heap.alloc_holds).array
  have htree : HoldsTree h.length h' h.length (m :: ms) := ⟨Nat.le_refl _, cells, ha, hms⟩
  refine ⟨h', h.length, hres, hkeep, htree, fun copy hcopy ty =>
    ⟨?_, fun mem out outlen newptr => ?_⟩⟩
  · rw [← simpletlvGetLength_bare copy, htree.unique hcopy, simpletlvGetLength_bare]
  · rw [← simpletlvEncodeInternal_bare mem copy, htree.unique hcopy, simpletlvEncodeInternal_bare]

theorem populated_of_clone {tlv : List SimpletlvMember} {p : ℕ}
    (hres : simpletlvClone h tlv = .ok (h', some p)) : Populated tlv := by
  cases tlv with
  | nil => trivial
  | cons m ms => exact populated_of_cloneLoop hres

/-- Which trees are copied whole. -/
theorem clonedWhole_iff (h : TlvHeap) (tlv : List SimpletlvMember) (hne : tlv ≠ [])
    (hvalues : ValuesHeld tlv) : ClonedWhole h tlv ↔ Populated tlv :=
  ⟨fun ⟨_, _, hres, _⟩ => populated_of_clone hres,
    fun hpop => clonedWhole_of_populated h hne hpop hvalues⟩

/-- Two leaves, one of them without a value, and a compound of a leaf. -/
theorem clonedWhole_nested : ClonedWhole []
    [.leaf 0x13 [0x14, 0x18], .leaf 0x14 [], .compound 0x50 [.leaf 0x41 [0x07]]] :=
  (clonedWhole_iff []
      [.leaf 0x13 [0x14, 0x18], .leaf 0x14 [], .compound 0x50 [.leaf 0x41 [0x07]]]
      (by simp) ⟨trivial, trivial, ⟨trivial, trivial⟩, trivial⟩).2
    ⟨trivial, trivial, ⟨by simp, trivial, trivial⟩, trivial⟩

/-- A compound without children is not copied; behind a leaf, the value of the leaf's copy is then
freed as members. -/
theorem emptyCompound_not_cloned :
    simpletlvClone [] [.compound 0x50 []] = .ok ([none], none)
      ∧ simpletlvClone [] [.leaf 0x13 [0x14], .compound 0x50 []] = .error .badAddress
      ∧ ¬ ClonedWhole [] [.compound 0x50 []]
      ∧ ¬ ClonedWhole [] [.leaf 0x13 [0x14], .compound 0x50 []] := by
  have hfails : simpletlvClone [] [.compound 0x50 []] = .ok ([none], none) := rfl
  have hfaults : simpletlvClone [] [.leaf 0x13 [0x14], .compound 0x50 []]
    = .error .badAddress := rfl
  refine ⟨hfails, hfaults, ?_, ?_⟩
  · rintro ⟨h', p, hres, -⟩
    cases hfails.symm.trans hres
  · rintro ⟨h', p, hres, -⟩
    cases hfaults.symm.trans hres

end Copy

section Value

mutual

theorem simpletlvCloneMember_iff : ∀ m : SimpletlvMember,
    simpletlvCloneMember m = some m ↔ PopulatedMember m
  | .none _ _ _ => iff_of_true rfl trivial
  | .leaf _ _ => iff_of_true rfl trivial
  | .compound tag [] => iff_of_false (fun h => nomatch h) fun h => h.1 rfl
  | .compound tag (c :: cs) => by
    rw [PopulatedMember, ← simpletlvCloneFrom_iff (c :: cs), simpletlvCloneMember]
    simp

theorem simpletlvCloneFrom_iff : ∀ ms : List SimpletlvMember,
    simpletlvCloneFrom ms = some ms ↔ Populated ms
  | [] => iff_of_true rfl trivial
  | m :: ms => by
    rw [Populated, ← simpletlvCloneMember_iff m, ← simpletlvCloneFrom_iff ms, simpletlvCloneFrom]
    split
    · simp_all
    · rename_i hno
      refine iff_of_false (fun h => nomatch h) fun h => hno _ _ h.1 h.2

end

/-- What the applets' properties are copied to is what is in memory then. -/
theorem simpletlvClone_inMemory {tlv : List SimpletlvMember} (h : TlvHeap) (hne : tlv ≠ [])
    (hvalues : ValuesHeld tlv) :
    Libcacard.simpletlvClone tlv = some tlv ↔ ClonedWhole h tlv := by
  rw [Libcacard.simpletlvClone, if_neg (by simpa using hne), simpletlvCloneFrom_iff]
  exact ⟨fun hpop => clonedWhole_of_populated h hne hpop hvalues,
    fun ⟨_, _, hres, _⟩ => populated_of_clone hres⟩

end Value

end InMemory

end Libcacard
