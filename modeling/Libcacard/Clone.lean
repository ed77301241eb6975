import Libcacard.SimpleTlv

/-!
# Copies in memory

`simpletlv_clone` allocates an array for the members of each level and a block for each value, and
frees what it has copied when it takes a level for one that could not be copied.
-/

namespace Libcacard

open Machine

inductive SimpletlvType
  | none
  | leaf
  | compound
  deriving DecidableEq, Repr

namespace SimpletlvMember

def type : SimpletlvMember → SimpletlvType
  | none _ _ _ => .none
  | leaf _ _ => .leaf
  | compound _ _ => .compound

def length : SimpletlvMember → ℕ
  | none _ n _ => n
  | leaf _ v => v.length
  | compound _ cs => cs.length

end SimpletlvMember

namespace InMemory

/-- A `struct simpletlv_member` whose value is a block, or NULL. -/
structure TlvCell where
  type : SimpletlvType
  tag : UInt8
  length : ℕ
  value : Option ℕ
  deriving DecidableEq, Repr

/-- A block has bytes in it, or members: reading one as the other is a fault. -/
inductive TlvBlock
  | bytes (b : Bytes)
  | members (cells : List TlvCell)
  deriving DecidableEq, Repr

abbrev TlvHeap := Heap TlvBlock

/-- `g_free` -/
def gFree (h : TlvHeap) : Option ℕ → Except Fault TlvHeap
  | none => .ok h
  | some a => h.free a

/-- `g_memdup2` -/
def gMemdup2 (h : TlvHeap) (value : Option Bytes) (n : ℕ) : Except Fault (TlvHeap × Option ℕ) :=
  match value with
  | none => .ok (h, none)
  | some b =>
    if n = 0 then .ok (h, none)
    else do
      let v ← readBytes b 0 n
      return (h.alloc (.bytes v), some h.length)

/-- `simpletlv_free` of members nested less deeply than `fuel`. -/
def simpletlvFree : ℕ → TlvHeap → Option ℕ → ℕ → Except Fault TlvHeap
  | _, h, none, _ => .ok h
  | 0, _, some _, _ => .error .diverges
  | fuel + 1, h, some a, n => do
    match ← h.read a with
    | .bytes _ => throw .badAddress
    | .members cells =>
      if cells.length < n then throw .outOfBounds
      let h ← (cells.take n).foldlM (fun h cell =>
        if cell.type = .compound then simpletlvFree fuel h cell.value cell.length
        else gFree h cell.value) h
      h.free a

/-- The failure branch of `simpletlv_clone` at a member of this type, behind the members `done` of
the array at `a`: it is the type of that member that is looked at for each of them. -/
def cloneFailure (type : SimpletlvType) (a : ℕ) (done : List TlvCell) (h : TlvHeap) :
    Except Fault (TlvHeap × Option ℕ) := do
  let h ← done.foldlM (fun h cell =>
    if type = .compound then simpletlvFree h.length h cell.value cell.length
    else gFree h cell.value) h
  return (← h.free a, none)

mutual

/-- The loop of `simpletlv_clone` over the members behind `done`, into the array at `a`. -/
def cloneLoop (a : ℕ) : List TlvCell → List SimpletlvMember → TlvHeap →
    Except Fault (TlvHeap × Option ℕ)
  | _, [], h => .ok (h, some a)
  | done, m :: ms, h => do
    let (h, value) ← cloneValue m h
    let cell := ⟨m.type, m.tag, m.length, value⟩
    let h ← h.write a (.members (done ++ [cell]))
    if m.type = .compound ∧ value = none then cloneFailure m.type a done h
    else cloneLoop a (done ++ [cell]) ms h

/-- The value of a copy: for a compound, what `simpletlv_clone` returns for its children. -/
def cloneValue : SimpletlvMember → TlvHeap → Except Fault (TlvHeap × Option ℕ)
  | .none _ n value, h => gMemdup2 h value n
  | .leaf _ v, h => gMemdup2 h (some v) v.length
  -- an array of no members is NULL
  | .compound _ [], h => .ok (h, none)
  | .compound _ (c :: cs), h => cloneLoop h.length [] (c :: cs) (h.alloc (.members []))

end

def simpletlvClone (h : TlvHeap) : List SimpletlvMember → Except Fault (TlvHeap × Option ℕ)
  | [] => .ok (h, none)
  | m :: ms => cloneLoop h.length [] (m :: ms) (h.alloc (.members []))

/-! ## What a copy is -/

/-- A value in a block of its own, at `lo` or above; a value of no bytes is NULL. -/
def HoldsValue (lo : ℕ) (h : TlvHeap) (v : Bytes) (p : Option ℕ) : Prop :=
  if v = [] then p = none else ∃ a, p = some a ∧ lo ≤ a ∧ h.Holds a (.bytes v)

mutual

/-- The type, tag, length and value of a member, and a compound's children. -/
def HoldsMember (lo : ℕ) (h : TlvHeap) : SimpletlvMember → TlvCell → Prop
  | .none tag n value, c =>
    c.type = .none ∧ c.tag = tag ∧ c.length = n ∧ HoldsValue lo h ((value.getD []).take n) c.value
  | .leaf tag v, c =>
    c.type = .leaf ∧ c.tag = tag ∧ c.length = v.length ∧ HoldsValue lo h v c.value
  | .compound tag cs, c =>
    c.type = .compound ∧ c.tag = tag ∧ c.length = cs.length ∧ ∃ a cells, c.value = some a
      ∧ lo ≤ a ∧ h.Holds a (.members cells) ∧ HoldsMembers lo h cs cells

def HoldsMembers (lo : ℕ) (h : TlvHeap) : List SimpletlvMember → List TlvCell → Prop
  | [], cells => cells = []
  | m :: ms, cells => ∃ c rest, cells = c :: rest ∧ HoldsMember lo h m c ∧ HoldsMembers lo h ms rest

end

/-- At `p` there is an array of these members, all of it at `lo` or above. -/
def HoldsTree (lo : ℕ) (h : TlvHeap) (p : ℕ) (tlv : List SimpletlvMember) : Prop :=
  lo ≤ p ∧ ∃ cells, h.Holds p (.members cells) ∧ HoldsMembers lo h tlv cells

/-- The copy is there, apart from everything there was, and whatever it is read as has the length
and the encodings of the original. -/
def ClonedWhole (h : TlvHeap) (tlv : List SimpletlvMember) : Prop :=
  ∃ h' p, simpletlvClone h tlv = .ok (h', some p) ∧ (∀ b < h.length, h'[b]? = h[b]?)
    ∧ HoldsTree h.length h' p tlv
    ∧ ∀ copy, HoldsTree h.length h' p copy → ∀ ty,
      simpletlvGetLength copy ty = simpletlvGetLength tlv ty
        ∧ ∀ mem out outlen newptr, simpletlvEncodeInternal mem copy out outlen newptr ty
          = simpletlvEncodeInternal mem tlv out outlen newptr ty

mutual

/-- Each value there is has as many bytes as its member says. -/
def ValueHeld : SimpletlvMember → Prop
  | .none _ n value => ∀ b, value = some b → n ≤ b.length
  | .leaf _ _ => True
  | .compound _ cs => ValuesHeld cs

def ValuesHeld : List SimpletlvMember → Prop
  | [] => True
  | m :: ms => ValueHeld m ∧ ValuesHeld ms

end

mutual

def PopulatedMember : SimpletlvMember → Prop
  | .none _ _ _ | .leaf _ _ => True
  | .compound _ cs => cs ≠ [] ∧ Populated cs

/-- No compound, at any level, is without children. -/
def Populated : List SimpletlvMember → Prop
  | [] => True
  | m :: ms => PopulatedMember m ∧ Populated ms

end

end InMemory

end Libcacard
