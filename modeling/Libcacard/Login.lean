import Libcacard.EmulNss

/-!
# Login

A card is in its reader, and processes commands, from before `vcard_emul_init` is done. What VERIFY
without a PIN says is meant to be what the last VERIFY with one did.
-/

namespace Libcacard

open Machine

/-- VERIFY without a PIN. -/
def VCardAPDU.AsksLogin (apdu : VCardAPDU) : Prop :=
  apdu.IsIso ∧ apdu.aIns = Ins.verify ∧ apdu.aP1 = 0x00 ∧ apdu.aP2 = 0x00 ∧ apdu.aLc = 0

instance (apdu : VCardAPDU) : Decidable apdu.AsksLogin := inferInstanceAs (Decidable (_ ∧ _))

/-- VERIFY with a PIN. -/
def VCardAPDU.GivesPin (apdu : VCardAPDU) : Prop :=
  apdu.IsIso ∧ apdu.aIns = Ins.verify ∧ apdu.aP1 = 0x00 ∧ apdu.aP2 = 0x00 ∧ apdu.aLc ≠ 0

instance (apdu : VCardAPDU) : Decidable apdu.GivesPin := inferInstanceAs (Decidable (_ ∧ _))

/-- What happens to a card: a command, a reset, or the end of `vcard_emul_init`. -/
inductive NssOp
  | card (op : CardOp)
  | initDone

variable {σ : Type} (nss : Pk11 σ)

def nssStep (card : VCard (NssToken σ)) :
    NssOp → Except Fault (Option CardReply × VCard (NssToken σ))
  | .card op => cardStep nss.emul card op
  | .initDone => .ok (none, { card with token := { card.token with nssEmulInit := true } })

/-- PK11_IsLoggedIn is true from a PK11_Authenticate that succeeds to the next PK11_Logout, of a
token that needs a login. -/
structure Pk11.NeedsLogin : Prop where
  needLogin : ∀ s, nss.needLogin s = true
  authenticate : ∀ s pin, nss.isLoggedIn (nss.authenticate s pin).2
    = (nss.isLoggedIn s || (nss.authenticate s pin).1)
  logout : ∀ s, nss.isLoggedIn (nss.logout s) = false
  findPrivateKeyFromCert : ∀ s key,
    nss.isLoggedIn (nss.findPrivateKeyFromCert s key).2 = nss.isLoggedIn s
  privDecryptRaw : ∀ s key b, nss.isLoggedIn (nss.privDecryptRaw s key b).2 = nss.isLoggedIn s
  sign : ∀ s key b, nss.isLoggedIn (nss.sign s key b).2 = nss.isLoggedIn s
  privDecryptPkcs1 : ∀ s key b,
    nss.isLoggedIn (nss.privDecryptPkcs1 s key b).2 = nss.isLoggedIn s
  findGenericObjects : ∀ s, nss.isLoggedIn (nss.findGenericObjects s).2 = nss.isLoggedIn s

/-- PK11_Authenticate gets the PIN, which it does only after `vcard_emul_init`, and accepts it. -/
def Accepts (card : VCard (NssToken σ)) (op : NssOp) : Prop :=
  ∃ apdu : VCardAPDU, op = .card (.apdu apdu) ∧ apdu.GivesPin ∧ card.token.nssEmulInit
    ∧ (nss.authenticate (vcardEmulLogout nss card.token).slot (pinString apdu.body)).1

/-- The step is not a reset, and not a PIN that is rejected. -/
def KeepsLogin (card : VCard (NssToken σ)) (op : NssOp) : Prop :=
  (∀ power, op ≠ .card (.reset power))
    ∧ ∀ apdu : VCardAPDU, op = .card (.apdu apdu) → apdu.GivesPin → Accepts nss card op

/-- What is sent ends with the status 9000. -/
def CardReply.Succeeds (r : CardReply) : Prop :=
  ∃ response, r.response = some response
    ∧ [0x90, 0x00] <:+ response.bData.take response.bTotalLen

/-- Whenever VERIFY without a PIN succeeds in a run, a PIN was accepted earlier in the run, and
there was no reset and no rejected PIN since. -/
def ReportsLogins (card : VCard (NssToken σ)) (ops : List NssOp) : Prop :=
  ∀ before apdu after replies card₁ reply card₂, ops = before ++ .card (.apdu apdu) :: after →
    run (nssStep nss) card before = .ok (replies, card₁) →
    nssStep nss card₁ (.card (.apdu apdu)) = .ok (some reply, card₂) →
    apdu.AsksLogin → reply.Succeeds →
    Since (nssStep nss) (Accepts nss) (KeepsLogin nss) card before

/-- VERIFY without a PIN comes after `vcard_emul_init`. -/
def AsksAfterInit (card : VCard (NssToken σ)) (op : NssOp) : Prop :=
  ∀ apdu : VCardAPDU, op = .card (.apdu apdu) → apdu.AsksLogin → card.token.nssEmulInit

end Libcacard
