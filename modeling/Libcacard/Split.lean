import Libcacard.Serialise

/-!
# The two halves of a flat list

A list of leaves can be written as its tags and lengths and, apart from them, its values.
-/

namespace Libcacard

open Machine

/-- Leaves, and members that are skipped. -/
def Flat (ms : List SimpletlvMember) : Prop := ∀ m ∈ ms, m.isCompound = false

/-- The half of a member's record. -/
def halfRecord (ty : SimpletlvBufferType) : SimpletlvMember → Bytes
  | .leaf tag v =>
    (if ty.hasTl then header tag v.length else []) ++ (if ty.hasValue then v else [])
  | .none _ _ _ | .compound _ _ => []

/-- The tags and lengths, or the values. -/
def half (ty : SimpletlvBufferType) (ms : List SimpletlvMember) : Bytes :=
  ms.flatMap (halfRecord ty)

/-- One half with its length before it. -/
def halfFile (ty : SimpletlvBufferType) (ms : List SimpletlvMember) : Bytes :=
  ushort2lebytes (half ty ms).length ++ half ty ms

/-- The length of the file is no `int`, although the length of the half is. -/
def FileOverflows (ty : SimpletlvBufferType) (ms : List SimpletlvMember) : Prop :=
  2 ^ 31 - 2 ≤ (half ty ms).length ∧ (half ty ms).length < 2 ^ 31

instance (ty : SimpletlvBufferType) (ms : List SimpletlvMember) :
    Decidable (FileOverflows ty ms) := inferInstanceAs (Decidable (_ ∧ _))

/-- What must hold for this half to be written: only tags and lengths can fail. -/
def HalfEncodable (ty : SimpletlvBufferType) (ms : List SimpletlvMember) : Prop :=
  ty.hasTl → Encodable ms

instance (ty : SimpletlvBufferType) (ms : List SimpletlvMember) :
    Decidable (HalfEncodable ty ms) := inferInstanceAs (Decidable (_ → _))

/-- The file that is made of one half, or NULL. -/
def fileOf (ty : SimpletlvBufferType) (ms : List SimpletlvMember) : Option Bytes :=
  if 0 < (half ty ms).length ∧ (half ty ms).length < 2 ^ 31 ∧ HalfEncodable ty ms then
    some (halfFile ty ms)
  else none

/-- Cuts values by the lengths read from `tl`, up to its end; every record takes two bytes of it
or more. -/
def rejoinFrom : ℕ → Bytes → Bytes → Option (List SimpletlvMember)
  | _, [], values => if values = [] then some [] else none
  | 0, _ :: _, _ => none
  | fuel + 1, tl, values =>
    match simpletlvReadTag tl 0 tl.length with
    | .ok (p, some (tag, len)) =>
      if values.length < len then none
      else (rejoinFrom fuel (tl.drop p) (values.drop len)).map (.leaf tag (values.take len) :: ·)
    | _ => none

/-- The leaves two files are made of, when the lengths in one take up the other. -/
def rejoin (tl values : Bytes) : Option (List SimpletlvMember) := rejoinFrom tl.length tl values

/-! ## The files of an object -/

/-- A file with this body: the two bytes of its length, and then the body. -/
def IsFile (file body : Bytes) : Prop :=
  ∃ lo hi, file = lo :: hi :: body ∧ lebytes2ushort lo hi = body.length

/-- The two files of an applet are those of the leaves `ms`, and give them back. -/
structure FilesOf (ms : List SimpletlvMember) (tagBuffer valBuffer : Option Bytes) : Prop where
  tag : ∃ file, tagBuffer = some file ∧ IsFile file (half .tl ms)
  val : ∃ file, valBuffer = some file ∧ IsFile file (half .value ms)
  rejoin : ∀ t v, tagBuffer = some t → valBuffer = some v → rejoin (t.drop 2) (v.drop 2) = some ms

/-- Tags and lengths can be written, there is a value that is not empty, and each length fits in
two bytes. -/
structure FilesFit (ms : List SimpletlvMember) : Prop where
  encodable : Encodable ms
  length_tl : (half .tl ms).length ≤ 65535
  length_value : (half .value ms).length ≤ 65535
  value_pos : 0 < (half .value ms).length

/-! ## The length before a file -/

/-- What `cac_create_file` must be given for the two bytes before a file to be its length. A list
of tags and lengths may also be one that is not written at all. -/
def PrefixFits : SimpletlvBufferType → List SimpletlvMember → Prop
  | .tl, ms => simpletlvGetLength ms .tl ≤ 65535
    ∨ (simpletlvGetLength ms .tl < 2 ^ 31 - 2 ∧ ¬ (Encodable ms ∧ (half .tl ms).length < 2 ^ 32))
  | .value, ms => simpletlvGetLength ms .value ≤ 65535
    ∧ (0 < simpletlvGetLength ms .value → (half .value ms).length < 2 ^ 32)
  | .both, _ => False

/-! ## Records that can be written -/

/-- All the complete records a byte string begins with, one behind the other, have tags and lengths
that can be written. -/
def RecordsWritable (d : Bytes) : Prop :=
  ∀ raws ms rest, List.Forall₂ RawRecord raws ms → d = raws.flatten ++ rest →
    ∀ m ∈ ms, EncodableMember m

end Libcacard
