import Libcacard.Common

/-!
# SimpleTLV

A member is a tag with a value, or with members of its own, or is skipped. The encoder first asks
for the length of what it will write and then writes it, going over the members twice; both
passes keep the program's conversions between `int` and `size_t`.
-/

namespace Libcacard

open Machine

/-- A `struct simpletlv_member`. A leaf's value has its length, a compound's length is the number
of its children, and a member of type NONE keeps whatever its value points to. -/
inductive SimpletlvMember
  | none (tag : UInt8) (length : ℕ) (value : Option Bytes)
  | leaf (tag : UInt8) (value : Bytes)
  | compound (tag : UInt8) (child : List SimpletlvMember)

inductive SimpletlvBufferType
  | tl
  | value
  | both
  deriving DecidableEq, Repr

namespace SimpletlvBufferType

/-- `buffer_type & SIMPLETLV_TL` -/
def hasTl : SimpletlvBufferType → Bool
  | tl | both => true
  | value => false

/-- `buffer_type & SIMPLETLV_VALUE` -/
def hasValue : SimpletlvBufferType → Bool
  | value | both => true
  | tl => false

end SimpletlvBufferType

namespace SimpletlvMember

def tag : SimpletlvMember → UInt8
  | none t _ _ | leaf t _ | compound t _ => t

def isNone : SimpletlvMember → Bool
  | none _ _ _ => true
  | leaf _ _ | compound _ _ => false

def isCompound : SimpletlvMember → Bool
  | compound _ _ => true
  | none _ _ _ | leaf _ _ => false

end SimpletlvMember

/-! ## The length of an encoding -/

/-- What a member whose value takes `childLength` bytes adds to the length. -/
def recordLength (ty : SimpletlvBufferType) (childLength : ℤ) : ℤ :=
  (if ty.hasTl then (if childLength < 255 then 2 else 4) else 0)
    + (if ty.hasValue then childLength else 0)

mutual

/-- The loop of `simpletlv_get_length`; `none` is its early `return -1`. -/
def lengthLoop (ty : SimpletlvBufferType) : List SimpletlvMember → Option ℤ
  | [] => some 0
  | m :: ms =>
    match memberLength ty m, lengthLoop ty ms with
    | some a, some b => some (a + b)
    | _, _ => none

def memberLength (ty : SimpletlvBufferType) : SimpletlvMember → Option ℤ
  | .none _ _ _ => some 0
  | .leaf _ v => some (recordLength ty (toInt32 v.length))
  | .compound _ cs =>
    if ty = .both then
      match lengthLoop ty cs with
      | some n => some (recordLength ty (toInt32 n))
      | none => some (recordLength ty (-1))
    else none

end

def simpletlvGetLength (tlv : List SimpletlvMember) (ty : SimpletlvBufferType) : ℤ :=
  match lengthLoop ty tlv with
  | some n => toInt32 n
  | none => -1

/-! ## Writing -/

/-- `simpletlv_put_tag`: `none` is `-1`, which a body too long for two bytes gets after its tag
has been written. -/
def simpletlvPutTag (mem : Memory) (tag : UInt8) (datalen : ℕ) (out : Ptr) (outlen : ℕ) :
    Except Fault (Memory × Option Ptr) :=
  if outlen < 2 ∨ (outlen < 4 ∧ 0xff ≤ datalen) then .ok (mem, none)
  else if tag = 0x00 ∨ tag = 0xff then .ok (mem, none)
  else do
    let mem ← mem.store out [tag]
    if datalen < 0xff then
      let mem ← mem.store (out.add 1) [UInt8.ofNat datalen]
      return (mem, some (out.add 2))
    else if datalen < 0xffff then
      let mem ← mem.store (out.add 1) (0xff :: ushort2lebytes datalen)
      return (mem, some (out.add 4))
    else
      return (mem, none)

/-- What an encoding call leaves: its return value, `*out` and `*newptr`. -/
structure EncodeResult where
  rv : ℤ
  out : Option Ptr
  newptr : Option Ptr
  deriving DecidableEq, Repr

/-- `simpletlv_encode_internal` around its loop over the members, which is given the start of
the output and the space there and returns where it ended and what space it counts as left. -/
def encodeWith (expectLen : ℤ)
    (loop : Memory → Ptr → ℕ → Except Fault (Memory × Option (Ptr × ℕ)))
    (mem : Memory) (out : Option Ptr) (outlen : ℕ) (newptr : Option Ptr) :
    Except Fault (Memory × EncodeResult) := do
  if expectLen = 0 then
    -- corner case for zero-length values
    return (mem, ⟨0, out, out⟩)
  if expectLen < 0 then
    return (mem, ⟨expectLen, out, newptr⟩)
  if outlen = 0 then
    let (mem, a) := mem.malloc expectLen.toNat
    match ← loop mem a expectLen.toNat with
    | (mem, some (p, pLen)) =>
      return (mem, ⟨toInt32 (toSize (expectLen - pLen)), some a, some p⟩)
    | (mem, none) => do
      let mem ← Heap.free mem a.block
      return (mem, ⟨-1, out, newptr⟩)
  else if expectLen ≤ toInt32 outlen then
    match out with
    | none => throw .nullPointer
    | some tmp =>
      match ← loop mem tmp outlen with
      | (mem, some (p, pLen)) =>
        return (mem, ⟨toInt32 (toSize (outlen - pLen)), some tmp, some p⟩)
      | (mem, none) => return (mem, ⟨-1, out, newptr⟩)
  else
    -- we can not fit the data
    return (mem, ⟨-1, out, newptr⟩)

mutual

/-- The loop of `simpletlv_encode_internal` from `p` on, in an output that starts at `tmp` and has
`tmpLen` bytes. -/
def encodeLoop (ty : SimpletlvBufferType) :
    List SimpletlvMember → Memory → Ptr → ℕ → Ptr → ℕ →
      Except Fault (Memory × Option (Ptr × ℕ))
  | [], mem, _, _, p, pLen => .ok (mem, some (p, pLen))
  | .none _ _ _ :: ms, mem, tmp, tmpLen, p, pLen => encodeLoop ty ms mem tmp tmpLen p pLen
  | m :: ms, mem, tmp, tmpLen, p, pLen => do
    match ← encodeMember ty m mem p pLen with
    | (mem, none) => return (mem, none)
    | (mem, some p) => do
      let used ← Memory.diff p tmp
      encodeLoop ty ms mem tmp tmpLen p (toSize (tmpLen - used))

/-- One member: its tag and length, then its value. A compound's children are encoded with the
space there was before the tag. -/
def encodeMember (ty : SimpletlvBufferType) :
    SimpletlvMember → Memory → Ptr → ℕ → Except Fault (Memory × Option Ptr)
  | .none _ _ _, mem, p, _ => .ok (mem, some p)
  | .leaf tag v, mem, p, pLen => do
    match ← if ty.hasTl then simpletlvPutTag mem tag v.length p pLen else .ok (mem, some p) with
    | (mem, none) => return (mem, none)
    | (mem, some p) =>
      if ty.hasValue then do
        let mem ← mem.store p v
        return (mem, some (p.add v.length))
      else return (mem, some p)
  | .compound tag cs, mem, p, pLen => do
    let childLength := simpletlvGetLength cs .both
    match ← if ty.hasTl then simpletlvPutTag mem tag (toSize childLength) p pLen
        else .ok (mem, some p) with
    | (mem, none) => return (mem, none)
    | (mem, some p) =>
      if ty.hasValue then do
        let (mem, r) ← encodeWith (simpletlvGetLength cs ty)
          (fun mem tmp tmpLen => encodeLoop ty cs mem tmp tmpLen tmp tmpLen)
          mem (some p) pLen none
        return (mem, if r.rv < 0 then none else r.newptr)
      else return (mem, some p)

end

def simpletlvEncodeInternal (mem : Memory) (tlv : List SimpletlvMember) (out : Option Ptr)
    (outlen : ℕ) (newptr : Option Ptr) (ty : SimpletlvBufferType) :
    Except Fault (Memory × EncodeResult) :=
  encodeWith (simpletlvGetLength tlv ty)
    (fun mem tmp tmpLen => encodeLoop ty tlv mem tmp tmpLen tmp tmpLen) mem out outlen newptr

def simpletlvEncode (mem : Memory) (tlv : List SimpletlvMember) (out : Option Ptr)
    (outlen : ℕ) (newptr : Option Ptr) : Except Fault (Memory × EncodeResult) :=
  simpletlvEncodeInternal mem tlv out outlen newptr .both

def simpletlvEncodeTl (mem : Memory) (tlv : List SimpletlvMember) (out : Option Ptr)
    (outlen : ℕ) (newptr : Option Ptr) : Except Fault (Memory × EncodeResult) :=
  simpletlvEncodeInternal mem tlv out outlen newptr .tl

def simpletlvEncodeVal (mem : Memory) (tlv : List SimpletlvMember) (out : Option Ptr)
    (outlen : ℕ) (newptr : Option Ptr) : Except Fault (Memory × EncodeResult) :=
  simpletlvEncodeInternal mem tlv out outlen newptr .value

/-- An encoding call that allocates its output: the return value, and the bytes `*out` points to
if it was set. -/
def simpletlvEncodeNew (tlv : List SimpletlvMember) : Except Fault (ℤ × Option Bytes) := do
  let (mem, r) ← simpletlvEncode [] tlv none 0 none
  match r.out with
  | none => return (r.rv, none)
  | some p => return (r.rv, some (← Heap.read mem p.block))

/-! ## Reading -/

/-- `simpletlv_read_tag` on the buffer `d` at `buf`: the new `*buf`, and the tag and length or
`-1`. -/
def simpletlvReadTag (d : Bytes) (buf buflen : ℕ) : Except Fault (ℕ × Option (UInt8 × ℕ)) :=
  if buflen < 2 then .ok (buf + buflen, none)
  else do
    let tag ← readByte d buf
    let len ← readByte d (buf + 1)
    if len = 0xff then
      -- don't crash on bad data
      if buflen < 4 then return (buf, none)
      else
        let lo ← readByte d (buf + 2)
        let hi ← readByte d (buf + 3)
        return (buf + 4, some (tag, lebytes2ushort lo hi))
    else return (buf + 2, some (tag, len.toNat))

theorem simpletlvReadTag_lt {d : Bytes} {buf buflen p vlen : ℕ} {tag : UInt8}
    (h : simpletlvReadTag d buf buflen = .ok (p, some (tag, vlen))) : buf < p := by
  unfold simpletlvReadTag at h
  split at h
  · simp at h
  · simp only [bind_eq_ok] at h
    obtain ⟨t, -, len, -, h⟩ := h
    split_ifs at h
    · simp at h
    · simp only [bind_eq_ok, pure_eq, Except.ok.injEq, Prod.mk.injEq] at h
      obtain ⟨lo, -, hi, -, rfl, -⟩ := h
      omega
    · simp only [pure_eq, Except.ok.injEq, Prod.mk.injEq] at h
      omega

/-- The loop of `simpletlv_parse` from `p` on, with the members found so far. -/
def simpletlvParseLoop (d : Bytes) (p pEnd : ℕ) (tlv : List SimpletlvMember) :
    Except Fault (List SimpletlvMember) :=
  if p < pEnd then
    match _h : simpletlvReadTag d p (pEnd - p) with
    | .error e => .error e
    -- we can return what was parsed successfully
    | .ok (_, none) => .ok tlv
    | .ok (q, some (tag, vlen)) =>
      if pEnd - q < vlen then .ok tlv
      else
        match readBytes d q vlen with
        | .error e => .error e
        | .ok v => simpletlvParseLoop d (q + vlen) pEnd (tlv ++ [.leaf tag v])
  else .ok tlv
termination_by pEnd - p
decreasing_by
  have := simpletlvReadTag_lt ‹_›
  omega

def simpletlvParse (data : Bytes) : Except Fault (List SimpletlvMember) :=
  simpletlvParseLoop data 0 data.length []

end Libcacard
