import Libcacard.Common

/-!
# Messages between client and host

A message is a header of three numbers in network order and a payload. What a payload holds is
read as it lies in memory.
-/

namespace Libcacard

open Machine

inductive VSCMsgType
  | init
  | error
  | readerAdd
  | readerRemove
  | atr
  | cardRemove
  | apdu
  | flush
  | flushComplete
  deriving DecidableEq, Repr

def VSCMsgType.value : VSCMsgType → UInt32
  | init => 1
  | error => 2
  | readerAdd => 3
  | readerRemove => 4
  | atr => 5
  | cardRemove => 6
  | apdu => 7
  | flush => 8
  | flushComplete => 9

namespace VSCErrorCode

def success : UInt32 := 0
def generalError : UInt32 := 1
def cannotAddMoreReaders : UInt32 := 2

end VSCErrorCode

def vscardUndefinedReaderId : UInt32 := 0xffffffff

def vscardMinimalReaderId : UInt32 := 0

/-- The bytes of `VSCARD_MAGIC` in memory. -/
def vscardMagic : Bytes := [0x56, 0x53, 0x43, 0x44]

/-- `MAKE_VERSION(0, 0, 2)` -/
def vscardVersion : UInt32 := 2

/-! ## Numbers of four bytes -/

/-- The bytes of `htonl(x)` in memory. -/
def htonl (x : UInt32) : Bytes :=
  [UInt8.ofNat (x.toNat / 2 ^ 24), UInt8.ofNat (x.toNat / 2 ^ 16), UInt8.ofNat (x.toNat / 2 ^ 8),
    UInt8.ofNat x.toNat]

/-- The number whose bytes are given from the highest to the lowest. -/
def beUInt32 (b : Bytes) : UInt32 := UInt32.ofNat (b.foldl (fun n x => 256 * n + x.toNat) 0)

/-- A number as it lies in memory. -/
def leUInt32 (b : Bytes) : UInt32 := beUInt32 b.reverse

def ntohl (x : UInt32) : UInt32 := leUInt32 (htonl x)

theorem beUInt32_htonl (x : UInt32) : beUInt32 (htonl x) = x := by
  have := x.toNat_lt
  apply UInt32.toNat.inj
  simp only [beUInt32, htonl, List.foldl_cons, List.foldl_nil, UInt8.toNat_ofNat',
    UInt32.toNat_ofNat']
  omega

/-! ## Headers -/

/-- `sizeof(VSCMsgHeader)` -/
def sizeofVSCMsgHeader : ℕ := 12

/-- `sizeof(VSCMsgInit)` -/
def sizeofVSCMsgInit : ℕ := 12

structure VSCMsgHeader where
  type : UInt32
  readerId : UInt32
  length : UInt32
  deriving DecidableEq, Repr

/-- The header as it is sent. -/
def VSCMsgHeader.encode (h : VSCMsgHeader) : Bytes :=
  htonl h.type ++ htonl h.readerId ++ htonl h.length

/-- The header, its numbers converted with `ntohl`. -/
def VSCMsgHeader.decode (b : Bytes) : VSCMsgHeader :=
  ⟨beUInt32 (b.take 4), beUInt32 ((b.drop 4).take 4), beUInt32 ((b.drop 8).take 4)⟩

theorem VSCMsgHeader.length_encode (h : VSCMsgHeader) : h.encode.length = sizeofVSCMsgHeader :=
  rfl

@[simp] theorem VSCMsgHeader.decode_encode (h : VSCMsgHeader) : decode h.encode = h := by
  rcases h with ⟨type, readerId, length⟩
  have h₁ : (encode ⟨type, readerId, length⟩).take 4 = htonl type := rfl
  have h₂ : ((encode ⟨type, readerId, length⟩).drop 4).take 4 = htonl readerId := rfl
  have h₃ : ((encode ⟨type, readerId, length⟩).drop 8).take 4 = htonl length := rfl
  rw [decode, h₁, h₂, h₃, beUInt32_htonl, beUInt32_htonl, beUInt32_htonl]

/-- The types `do_socket_read` takes. -/
def VSCMsgHeader.Handled (h : VSCMsgHeader) : Prop :=
  h.type ∈ [VSCMsgType.apdu.value, VSCMsgType.flush.value, VSCMsgType.error.value,
    VSCMsgType.init.value]

instance (h : VSCMsgHeader) : Decidable h.Handled := inferInstanceAs (Decidable (_ ∈ _))

end Libcacard
