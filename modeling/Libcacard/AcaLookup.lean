import Libcacard.AcaFormats
import Libcacard.Answer
import Libcacard.CacApplets
import Libcacard.Serialise

/-!
# Access rules by AID

What a GET ACR for the applet with an AID has to answer, as the table of the applets by AID and
the answer with all applets say.
-/

namespace Libcacard

open Machine

/-- A GET ACR with this P1 and body. -/
structure VCardAPDU.AsksAcr (apdu : VCardAPDU) (P1 : UInt8) (body : Bytes) : Prop where
  aIns : apdu.aIns = Ins.cacGetAcr
  aP1 : apdu.aP1 = P1
  aP2 : apdu.aP2 = 0x00
  aLc : apdu.aLc = body.length
  body_eq : apdu.body = body

/-- On a card with `pkiApplets` PKI applets the ACA answers such a command by these members behind
the applet's information. -/
def AcaSends (pkiApplets : ℕ) (P1 : UInt8) (body : Bytes) (ms : List SimpletlvMember) : Prop :=
  ∀ (τ : Type) (shared : ByteArr 5) (p : VCardAppletPrivate) (s : Session τ) (apdu : VCardAPDU),
    p.u = .acaData pkiApplets → apdu.AsksAcr P1 body →
    cacAppletAcaProcessApdu shared p s apdu = .ok (.answer p
      (respond s (serialise (cacAcaGetProperties ++ ms)) apdu.aLe Status.success))

def SimpletlvMember.isAppletAcr : SimpletlvMember → Bool
  | .leaf tag _ => tag = Tag.acrAppletAcr
  | _ => false

/-- The applet a member has the rules of. -/
def SimpletlvMember.acrAppletId : SimpletlvMember → Option UInt8 :=
  readLeaf Tag.acrAppletAcr List.head?

/-- An AID that no active entry has is not found, and one that an entry has is answered by one
record: that of the entry's applet in the answer with all applets. -/
structure AidLookupAgrees (pkiApplets : ℕ) (aid : Bytes) : Prop where
  notFound : ∀ (τ : Type) (shared : ByteArr 5) (p : VCardAppletPrivate) (s : Session τ)
    (apdu : VCardAPDU), p.u = .acaData pkiApplets → apdu.AsksAcr 0x11 aid →
    ∃ r s', cacAppletAcaProcessApdu shared p s apdu = .ok (.answer p (r, s'))
      ∧ (r.bStatus = Status.errorDataNotFound
        ↔ ∀ e ∈ serviceTable.listed pkiApplets, e.aid ≠ aid)
  found : ∀ e ∈ serviceTable.listed pkiApplets, e.aid = aid →
    ∃ ms all acr, AcaSends pkiApplets 0x11 aid ms ∧ AcaSends pkiApplets 0x10 [] all
      ∧ ms.filter SimpletlvMember.isAppletAcr = [acr]
      ∧ (all.filter fun m => m.acrAppletId = some e.id) = [acr]

end Libcacard
