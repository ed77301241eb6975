import Libcacard.SimpleTlv

/-!
# What an encoding says

The reference serialisation of a list of members, which trees have one, and what is left of a
tree when it is read back level by level.
-/

namespace Libcacard

open Machine

/-- A record's tag and length. -/
def header (tag : UInt8) (n : ℕ) : Bytes :=
  tag :: if n < 255 then [UInt8.ofNat n] else 0xff :: ushort2lebytes n

mutual

def record : SimpletlvMember → Bytes
  | .none _ _ _ => []
  | .leaf tag v => header tag v.length ++ v
  | .compound tag cs => header tag (serialise cs).length ++ serialise cs

/-- Every member's tag and length before its value, and members of type NONE left out. -/
def serialise : List SimpletlvMember → Bytes
  | [] => []
  | m :: ms => record m ++ serialise ms

end

def TagOk (tag : UInt8) : Prop := tag ≠ 0x00 ∧ tag ≠ 0xff

instance (tag : UInt8) : Decidable (TagOk tag) := inferInstanceAs (Decidable (_ ∧ _))

mutual

def EncodableMember : SimpletlvMember → Prop
  | .none _ _ _ => True
  | .leaf tag v => TagOk tag ∧ v.length ≤ 65534
  | .compound tag cs => (TagOk tag ∧ (serialise cs).length ≤ 65534) ∧ Encodable cs

/-- Tags and lengths that a record can hold, at every level. -/
def Encodable : List SimpletlvMember → Prop
  | [] => True
  | m :: ms => EncodableMember m ∧ Encodable ms

end

mutual

def decEncodableMember : (m : SimpletlvMember) → Decidable (EncodableMember m)
  | .none _ _ _ => .isTrue (by simp [EncodableMember])
  | .leaf tag v => decidable_of_iff (TagOk tag ∧ v.length ≤ 65534) (by simp [EncodableMember])
  | .compound tag cs =>
    have := decEncodable cs
    decidable_of_iff ((TagOk tag ∧ (serialise cs).length ≤ 65534) ∧ Encodable cs)
      (by simp [EncodableMember])

def decEncodable : (ms : List SimpletlvMember) → Decidable (Encodable ms)
  | [] => .isTrue (by simp [Encodable])
  | m :: ms =>
    have := decEncodableMember m
    have := decEncodable ms
    decidable_of_iff (EncodableMember m ∧ Encodable ms) (by simp [Encodable])

end

instance (ms : List SimpletlvMember) : Decidable (Encodable ms) := decEncodable ms

/-- What encoding a list of members into a new buffer gives. -/
def encoded (ms : List SimpletlvMember) : Bytes :=
  match simpletlvEncodeNew ms with
  | .ok (_, some e) => e
  | _ => []

/-- The members of one level as leaves, a compound's value being its encoded children. -/
def topLevel : List SimpletlvMember → List SimpletlvMember
  | [] => []
  | .none _ _ _ :: ms => topLevel ms
  | .leaf tag v :: ms => .leaf tag v :: topLevel ms
  | .compound tag cs :: ms => .leaf tag (encoded cs) :: topLevel ms

/-- Reading the values of `found` again, wherever the tree has a compound, gives the tree back. -/
def Recovered : List SimpletlvMember → List SimpletlvMember → Prop
  | [], found => found = []
  | .none _ _ _ :: ms, found => Recovered ms found
  | .leaf tag v :: ms, found => ∃ rest, found = .leaf tag v :: rest ∧ Recovered ms rest
  | .compound tag cs :: ms, found =>
    ∃ v sub rest, found = .leaf tag v :: rest ∧ simpletlvParse v = .ok sub
      ∧ Recovered cs sub ∧ Recovered ms rest

/-- `simpletlv_get_length` does not take a list that has members for an empty one. -/
def Measured (ms : List SimpletlvMember) : Prop :=
  simpletlvGetLength ms .both = 0 → ∀ m ∈ ms, m.isNone

def MeasuredBelow : List SimpletlvMember → Prop
  | [] => True
  | .compound _ cs :: ms => (Measured cs ∧ MeasuredBelow cs) ∧ MeasuredBelow ms
  | .none _ _ _ :: ms | .leaf _ _ :: ms => MeasuredBelow ms

/-- No list of members, at any level, has a length that wraps around to 0. -/
def Unwrapped (ms : List SimpletlvMember) : Prop := Measured ms ∧ MeasuredBelow ms

/-! ## What a byte string holds -/

/-- A complete record, in either of the two forms a length can take. -/
inductive RawRecord : Bytes → SimpletlvMember → Prop
  | short (tag : UInt8) (v : Bytes) (h : v.length < 255) :
    RawRecord (tag :: UInt8.ofNat v.length :: v) (.leaf tag v)
  | long (tag : UInt8) (v : Bytes) (h : v.length < 65536) :
    RawRecord (tag :: 0xff :: (ushort2lebytes v.length ++ v)) (.leaf tag v)

/-- The bytes do not begin with a complete record. -/
def Incomplete : Bytes → Prop
  | [] | [_] => True
  | _ :: l :: xs =>
    if l = 0xff then
      match xs with
      | lo :: hi :: ys => ys.length < lebytes2ushort lo hi
      | _ => True
    else xs.length < l.toNat

end Libcacard
