import Libcacard.CardRun

/-!
# A card for a reader

`vcard_emul_make_card` takes the slot and the type of the card from the reader it is for, and hands
the card out whatever `vcard_init` returned for it.
-/

namespace Libcacard

open Machine

variable {τ : Type}

/-- What `vcard_emul_nss.c` keeps of a reader: its slot, with the token in it, and the type its
cards are to have. -/
structure VReaderEmul (τ : Type) where
  slot : Option τ
  defaultType : VCardEmulType

def vcardEmulTypeSelect : VCardEmulType := .cac

def vcardEmulGetType (reader : Option (VReaderEmul τ)) : VCardEmulType :=
  match reader with
  | some emul => if emul.defaultType ≠ .none then emul.defaultType else vcardEmulTypeSelect
  | none => vcardEmulTypeSelect

def vcardEmulReaderGetSlot (reader : Option (VReaderEmul τ)) : Option τ := reader.bind (·.slot)

/-- A card before its initialisation. -/
def vcardBare (digest : Bytes → Option Bytes) (token : τ) (st : Statics)
    (certs : List (Bytes × VCardKey)) : VCard τ :=
  match certs with
  | [] => vcardNew token st
  | (cert, _) :: _ =>
    match digest cert with
    | some serial => vcardSetSerial (vcardNew token st) serial
    | none => vcardNew token st

/-- `vcard_emul_make_card` -/
def vcardEmulMakeCardFor (emul : Emul τ) (digest : Bytes → Option Bytes) (st : Statics)
    (reader : Option (VReaderEmul τ)) (certs : List (Bytes × VCardKey)) :
    Except Fault (Option (VCard τ)) :=
  -- ignore the inserted card
  if vcardEmulGetType reader = .none then .ok none
  else
    match vcardEmulReaderGetSlot reader with
    | none => .ok none
    | some token => do
      let card := vcardBare digest token st certs
      let (_, card) ← vcardInit emul card (vcardEmulGetType reader) certs
      return some card

/-! ## What is meant to hold -/

/-- A certificate with its key; the length is an `int`. -/
structure CardCert where
  cert : Bytes
  key : VCardKey
  int : cert.length < 2 ^ 31

def CardCert.pair (c : CardCert) : Bytes × VCardKey := (c.cert, c.key)

/-- The AIDs of a card with `n` certificates, in the order of its applets. -/
def cardAids (n : ℕ) : List Bytes :=
  (List.range n).map pkiAid ++ cacAcaAid :: cacCccAid
    :: [cac02f0Aid, cac02f1Aid, cac02f2Aid, cac02fbAid, cacPkiCertificateAid, cacPkiCredentialAid,
      cacPersonInstanceAid, cacPersonnelAid, cac1201Aid, cac1202Aid, cacAccessControlAid,
      gpContainerAid, msftContainerAid]

/-- A card that is handed out was initialised, and has all its applets. -/
def HandsOutInitialised (emul : Emul τ) (digest : Bytes → Option Bytes) (st : Statics)
    (reader : Option (VReaderEmul τ)) (certs : List (Bytes × VCardKey)) : Prop :=
  ∀ card, vcardEmulMakeCardFor emul digest st reader certs = .ok (some card) →
    (∃ token, vcardEmulReaderGetSlot reader = some token
      ∧ vcardInit emul (vcardBare digest token st certs) (vcardEmulGetType reader) certs
        = .ok (.done, card))
    ∧ card.applets.map (·.aid) = cardAids certs.length

/-- An initialisation that fails leaves the applets as they were. -/
def FailsWhole (emul : Emul τ) (card : VCard τ) (certs : List (Bytes × VCardKey)) : Prop :=
  ∀ card', cacCardInit emul card certs = .ok (.fail, card') → card'.applets = card.applets

end Libcacard
