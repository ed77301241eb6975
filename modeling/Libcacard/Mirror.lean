import Libcacard.Lib.Cells
import Libcacard.Lib.StableInsert
import Libcacard.MakeCard

/-!
# Mirroring a token

`vcard_emul_mirror_card` makes a card of the certificates on a token. It keeps four arrays, with a
cell for each certificate object, and puts a certificate before the first whose CKA_ID is greater.
-/

namespace Libcacard

open Machine

variable {τ κ : Type}

/-- A certificate object of the token: its CKA_VALUE and CKA_ID, if they can be read. -/
structure Pk11CertObject where
  value : Option Bytes
  id : Option Bytes
  deriving DecidableEq, Repr

/-- What `vcard_emul_mirror_card` calls of NSS, where a certificate is a `κ`; `makeKey` is
`vcard_emul_make_key`. -/
structure CertDb (κ : Type) where
  newTempCertificate : Bytes → Option κ
  derCert : κ → Bytes
  makeKey : κ → VCardKey
  compareItem : Bytes → Bytes → Ordering

variable (db : CertDb κ)

structure MirrorArrays where
  certs : Cells Bytes
  certLen : Cells ℤ
  keys : Cells VCardKey
  ids : Cells Bytes
  certCount : ℕ
  deriving DecidableEq

/-- `vcard_emul_alloc_arrays`, and the array of the ids -/
def vcardEmulAllocArrays (n : ℕ) : MirrorArrays :=
  ⟨Cells.alloc n, Cells.alloc n, Cells.alloc n, Cells.alloc n, 0⟩

/-- The loop that looks for the place of an id, from `i` on with `rest` of them to go. -/
def mirrorPlace (id : Bytes) (ids : Cells Bytes) : ℕ → ℕ → Except Fault ℕ
  | i, 0 => .ok i
  | i, rest + 1 => do
    if db.compareItem id (← ids.read i) = .lt then return i
    mirrorPlace id ids (i + 1) rest

/-- Make space for the item at `i`, if it does not go behind all others. -/
def mirrorSpace (i : ℕ) (a : MirrorArrays) : Except Fault MirrorArrays := do
  if i < a.certCount then
    return { a with
      certs := ← a.certs.move (i + 1) i (a.certCount - i)
      certLen := ← a.certLen.move (i + 1) i (a.certCount - i)
      keys := ← a.keys.move (i + 1) i (a.certCount - i)
      ids := ← a.ids.move (i + 1) i (a.certCount - i) }
  else return a

/-- The certificate of an object, and its id. -/
def mirrorCert (obj : Pk11CertObject) : Option (κ × Bytes) := do
  let derCert ← obj.value
  let id ← obj.id
  let cert ← db.newTempCertificate derCert
  return (cert, id)

/-- One pass through the loop over the objects. -/
def mirrorObject (a : MirrorArrays) (obj : Pk11CertObject) : Except Fault MirrorArrays :=
  match mirrorCert db obj with
  | none => .ok a
  | some (cert, id) => do
    let i ← mirrorPlace db id a.ids 0 a.certCount
    let a ← mirrorSpace i a
    return { a with
      certs := ← a.certs.write i (db.derCert cert)
      certLen := ← a.certLen.write i (toInt32 (db.derCert cert).length)
      keys := ← a.keys.write i (db.makeKey cert)
      ids := ← a.ids.write i id
      certCount := a.certCount + 1 }

def mirrorObjects (objs : List Pk11CertObject) : Except Fault MirrorArrays :=
  objs.foldlM (mirrorObject db) (vcardEmulAllocArrays objs.length)

/-- What `vcard_emul_make_card` finds in the first cells of the arrays, `rest` of them from `i`. -/
def mirroredCerts (a : MirrorArrays) : ℕ → ℕ → Except Fault (List (Bytes × VCardKey))
  | _, 0 => .ok []
  | i, rest + 1 => do
    let cert ← a.certs.read i
    let len ← a.certLen.read i
    let key ← a.keys.read i
    return (cert.take len.toNat, key) :: (← mirroredCerts a (i + 1) rest)

/-- `vcard_emul_mirror_card`, when these are the objects that are found. -/
def vcardEmulMirrorCard (emul : Emul τ) (digest : Bytes → Option Bytes) (st : Statics)
    (reader : Option (VReaderEmul τ)) (objs : List Pk11CertObject) :
    Except Fault (Option (VCard τ)) :=
  if vcardEmulReaderGetSlot reader = none then .ok none
  else if objs = [] then .ok none
  else do
    let a ← mirrorObjects db objs
    vcardEmulMakeCardFor emul digest st reader (← mirroredCerts a 0 a.certCount)

/-! ## What is meant to hold -/

/-- What the arrays hold of an object. -/
structure MirrorEntry where
  cert : Bytes
  key : VCardKey
  id : Bytes
  deriving DecidableEq

/-- The entries of the objects that are accepted, as the token lists them. -/
def mirrorEntries (objs : List Pk11CertObject) : List MirrorEntry :=
  objs.filterMap fun obj => (mirrorCert db obj).map fun (cert, id) =>
    ⟨db.derCert cert, db.makeKey cert, id⟩

def MirrorEntry.compare (e e' : MirrorEntry) : Ordering := db.compareItem e.id e'.id

/-- What a card is made of: the length of a certificate is an `int`. -/
def MirrorEntry.pair (e : MirrorEntry) : Bytes × VCardKey :=
  (e.cert.take (toInt32 e.cert.length).toNat, e.key)

/-- Arrays of `n` cells with the entries in the first of them. -/
def MirrorArrays.holding (n : ℕ) (entries : List MirrorEntry) : MirrorArrays where
  certs := Cells.filled n (entries.map (·.cert))
  certLen := Cells.filled n (entries.map fun e => toInt32 e.cert.length)
  keys := Cells.filled n (entries.map (·.key))
  ids := Cells.filled n (entries.map (·.id))
  certCount := entries.length

end Libcacard
