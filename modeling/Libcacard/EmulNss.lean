import Libcacard.CardRun
import Mathlib.Data.List.DropRight

/-!
# The token behind NSS

`vcard_emul_nss.c` does what a card asks of its token with the functions of NSS, for the slot the
card is in. It does nothing before `nss_emul_init` is set, which `vcard_emul_init` does last, when
the cards are already in their readers.
-/

namespace Libcacard

open Machine

/-- The errors of NSS that `vcard_emul_map_error` knows. -/
inductive SecError
  | tokenNotLoggedIn
  | badData
  | outputLen
  | inputLen
  | invalidArgs
  | invalidAlgorithm
  | noKey
  | invalidKey
  | decryptionDisallowed
  | pkcs11GeneralError
  | noMemory
  | other
  deriving DecidableEq, Repr

/-- Map NSS errors to 7816 errors -/
def vcardEmulMapError : SecError → UInt16
  | .tokenNotLoggedIn => Status.errorConditionNotSatisfied
  | .badData | .outputLen | .inputLen | .invalidArgs | .invalidAlgorithm | .noKey | .invalidKey
  | .decryptionDisallowed | .pkcs11GeneralError => Status.errorDataInvalid
  | .noMemory => Status.excErrorMemoryFailure
  | .other => Status.excErrorChange

inductive VCardEmulTriState
  | unknown
  | false
  | true
  deriving DecidableEq, Repr

/-- A data object of the token: its CKA_LABEL and CKA_VALUE, if they can be read. -/
structure Pk11GenericObject where
  label : Option Bytes
  value : Option Bytes
  deriving DecidableEq, Repr

/-- What `vcard_emul_nss.c` calls for a slot, whose state is a `σ`. A private key is found or not,
and what is done with it gives the bytes or the error that was left. -/
structure Pk11 (σ : Type) where
  needLogin : σ → Bool
  isLoggedIn : σ → Bool
  authenticate : σ → Bytes → Bool × σ
  logout : σ → σ
  publicKeyStrengthInBits : VCardKey → Option ℤ
  findPrivateKeyFromCert : σ → VCardKey → Bool × σ
  signatureLen : VCardKey → ℕ
  doesMechanism : σ → Bool
  privDecryptRaw : σ → VCardKey → Bytes → Except SecError Bytes × σ
  sign : σ → VCardKey → Bytes → Except SecError Bytes × σ
  privDecryptPkcs1 : σ → VCardKey → Bytes → Except SecError Bytes × σ
  findGenericObjects : σ → List Pk11GenericObject × σ
  privDecryptRaw_length : ∀ s key b out, (privDecryptRaw s key b).1 = .ok out →
    out.length = signatureLen key
  sign_length : ∀ s key b out, (sign s key b).1 = .ok out → out.length = signatureLen key
  value_length : ∀ s obj v, obj ∈ (findGenericObjects s).1 → obj.value = some v →
    v.length < 2 ^ 32

/-- A slot, what was found out about its keys, and `nss_emul_init`. -/
structure NssToken (σ : Type) where
  nssEmulInit : Bool
  slot : σ
  failedX509 : VCardKey → VCardEmulTriState

variable {σ : Type} (nss : Pk11 σ)

/-! ## The key -/

def vcardEmulRsaBits (key : VCardKey) : ℤ := (nss.publicKeyStrengthInBits key).getD (-1)

/-- What a properly formatted PKCS #1 signature signs. -/
def pkcs1Hash : Bytes → Option Bytes
  | 0x00 :: 0x01 :: buffer =>
    match buffer.dropWhile (· = 0xff) with
    | 0x00 :: hash => some hash
    | _ => none
  | _ => none

/-- The payload in a buffer of `bufferSize` bytes, behind a constant padding. -/
def pkcs1Payload (bufferSize : ℕ) (payload : Bytes) : Bytes :=
  [0x00, 0x02] ++ List.replicate (bufferSize - payload.length - 3) 0x03 ++ [0x00] ++ payload

/-- The raw operation, if the token does it: a failure may mean that the token only claims to. -/
def rsaRaw (t : NssToken σ) (key : VCardKey) (buffer : Bytes) :
    Option (UInt16 × Bytes) × NssToken σ :=
  if t.failedX509 key ≠ .true ∧ nss.doesMechanism t.slot then
    let (r, slot) := nss.privDecryptRaw t.slot key buffer
    match r with
    | .ok out => (some (Status.success, out),
        { t with slot := slot, failedX509 := Function.update t.failedX509 key .false })
    | .error e =>
      -- we've had a successful X509 operation, this failure must be something else
      (if t.failedX509 key = .false then some (vcardEmulMapError e, buffer) else none,
        { t with slot := slot })
  else (none, t)

/-- The raw operation emulated with CKM_RSA_PKCS. -/
def rsaPkcs1 (t : NssToken σ) (key : VCardKey) (buffer : Bytes) :
    UInt16 × Bytes × NssToken σ :=
  match pkcs1Hash buffer with
  | some hash =>
    let (r, slot) := nss.sign t.slot key hash
    match r with
    | .ok out => (Status.success, out,
        { t with slot := slot, failedX509 := Function.update t.failedX509 key .true })
    | .error e => (vcardEmulMapError e, buffer, { t with slot := slot })
  | none =>
    -- assuming it is deciphering operation
    let (r, slot) := nss.privDecryptPkcs1 t.slot key buffer
    match r with
    | .ok payload =>
      if buffer.length < payload.length + 4 then
        (Status.errorGeneral, buffer, { t with slot := slot })
      else (Status.success, pkcs1Payload buffer.length payload,
        { t with slot := slot, failedX509 := Function.update t.failedX509 key .true })
    | .error e => (vcardEmulMapError e, buffer, { t with slot := slot })

def vcardEmulRsaOp (t : NssToken σ) (key : VCardKey) (buffer : Bytes) :
    UInt16 × Bytes × NssToken σ :=
  if ¬ t.nssEmulInit then (Status.errorConditionNotSatisfied, buffer, t)
  else
    let (found, slot) := nss.findPrivateKeyFromCert t.slot key
    let t := { t with slot := slot }
    if ¬ found then (Status.errorConditionNotSatisfied, buffer, t)
    else if buffer.length ≠ nss.signatureLen key then (Status.errorDataInvalid, buffer, t)
    else
      match rsaRaw nss t key buffer with
      | (some (status, out), t) => (status, out, t)
      | (none, t) => rsaPkcs1 nss t key buffer

/-! ## Login -/

def vcardEmulGetLoginCount (_ : NssToken σ) : ℤ := -1

def vcardEmulLogout (t : NssToken σ) : NssToken σ :=
  if ¬ t.nssEmulInit then t
  else if nss.isLoggedIn t.slot then { t with slot := nss.logout t.slot } else t

/-- The PIN as a string: CAC expanded PINs end in bytes FF. -/
def pinString (pin : Bytes) : Bytes :=
  let kept := pin.rdropWhile (· = 0xff)
  kept ++ List.replicate (pin.length + 1 - kept.length) 0x00

def vcardEmulLogin (t : NssToken σ) (pin : Bytes) : UInt16 × NssToken σ :=
  if ¬ t.nssEmulInit then (Status.errorConditionNotSatisfied, t)
  else
    -- make sure to log out of any already logged in session
    let t := vcardEmulLogout nss t
    let (rv, slot) := nss.authenticate t.slot (pinString pin)
    (if rv then Status.success else Status.errorConditionNotSatisfied, { t with slot := slot })

def vcardEmulIsLoggedIn (t : NssToken σ) : ℤ :=
  if ¬ t.nssEmulInit then Status.errorConditionNotSatisfied.toNat
  -- if we do not need log in, we present the token as "logged in"
  else if ¬ nss.needLogin t.slot then 1
  else if nss.isLoggedIn t.slot then 1 else 0

def vcardEmulReset (t : NssToken σ) (_ : VCardPower) : NssToken σ := vcardEmulLogout nss t

/-! ## Objects -/

/-- The value of the first object with the label; one whose label cannot be read ends the search. -/
def findValue (label : Bytes) : List Pk11GenericObject → Option Bytes
  | [] => none
  | obj :: objs =>
    match obj.label with
    | none => none
    | some l => if l = label then obj.value else findValue label objs

def vcardEmulReadObject (t : NssToken σ) (label : String) : Option Bytes × NssToken σ :=
  let (objs, slot) := nss.findGenericObjects t.slot
  -- `g_memdup2` gives no copy of no bytes
  ((findValue label.toUTF8.toList objs).filter (· ≠ []), { t with slot := slot })

/-! ## The functions together -/

theorem length_pkcs1Payload {n : ℕ} {payload : Bytes} (h : payload.length + 4 ≤ n) :
    (pkcs1Payload n payload).length = n := by
  simp only [pkcs1Payload, List.length_append, List.length_cons, List.length_nil,
    List.length_replicate]
  omega

variable {nss}

theorem rsaRaw_length {t : NssToken σ} {key : VCardKey} {buffer : Bytes} {r : UInt16 × Bytes}
    (hlen : buffer.length = nss.signatureLen key) (h : (rsaRaw nss t key buffer).1 = some r) :
    r.2.length = buffer.length := by
  unfold rsaRaw at h
  by_cases hraw : t.failedX509 key ≠ .true ∧ nss.doesMechanism t.slot
  · rw [if_pos hraw] at h
    rcases hr : nss.privDecryptRaw t.slot key buffer with ⟨e | out, slot⟩
    · simp only [hr] at h
      by_cases hfalse : t.failedX509 key = .false
      · rw [if_pos hfalse] at h
        obtain rfl := Option.some.inj h
        rfl
      · rw [if_neg hfalse] at h
        cases h
    · simp only [hr] at h
      obtain rfl := Option.some.inj h
      rw [hlen]
      exact nss.privDecryptRaw_length t.slot key buffer out (by rw [hr])
  · rw [if_neg hraw] at h
    cases h

theorem rsaPkcs1_length {t : NssToken σ} {key : VCardKey} {buffer : Bytes}
    (hlen : buffer.length = nss.signatureLen key) :
    (rsaPkcs1 nss t key buffer).2.1.length = buffer.length := by
  unfold rsaPkcs1
  rcases pkcs1Hash buffer with _ | hash
  · rcases nss.privDecryptPkcs1 t.slot key buffer with ⟨e | payload, slot⟩
    · rfl
    · dsimp only
      split_ifs with hshort
      · rfl
      · exact length_pkcs1Payload (Nat.le_of_not_lt hshort)
  · rcases hr : nss.sign t.slot key hash with ⟨e | out, slot⟩
    · simp only [hr]
    · simp only [hr, hlen]
      exact nss.sign_length t.slot key hash out (by rw [hr])

theorem vcardEmulRsaOp_length (t : NssToken σ) (key : VCardKey) (buffer : Bytes) :
    (vcardEmulRsaOp nss t key buffer).2.1.length = buffer.length := by
  unfold vcardEmulRsaOp
  by_cases hinit : t.nssEmulInit
  swap
  · rw [if_pos hinit]
  rw [if_neg (not_not.2 hinit)]
  rcases nss.findPrivateKeyFromCert t.slot key with ⟨found, slot⟩
  dsimp only
  by_cases hfound : found
  swap
  · rw [if_pos hfound]
  rw [if_neg (not_not.2 hfound)]
  by_cases hlen : buffer.length = nss.signatureLen key
  swap
  · rw [if_pos hlen]
  rw [if_neg (not_not.2 hlen)]
  split
  · rename_i h
    exact rsaRaw_length hlen (congrArg Prod.fst h)
  · exact rsaPkcs1_length hlen

theorem findValue_mem {label v : Bytes} : ∀ {objs : List Pk11GenericObject},
    findValue label objs = some v → ∃ obj ∈ objs, obj.value = some v
  | obj :: objs, h => by
    unfold findValue at h
    split at h
    · cases h
    · split_ifs at h
      · exact ⟨obj, List.mem_cons_self .., h⟩
      · obtain ⟨obj', hobj', hv⟩ := findValue_mem h
        exact ⟨obj', List.mem_cons_of_mem _ hobj', hv⟩

variable (nss)

def Pk11.emul : Emul (NssToken σ) where
  getLoginCount := vcardEmulGetLoginCount
  login := vcardEmulLogin nss
  isLoggedIn t := (vcardEmulIsLoggedIn nss t, t)
  reset := vcardEmulReset nss
  rsaBits := vcardEmulRsaBits nss
  rsaOp := vcardEmulRsaOp nss
  readObject := vcardEmulReadObject nss
  rsaOp_length := vcardEmulRsaOp_length
  readObject_length t _ _ h := by
    obtain ⟨obj, hobj, hv⟩ := findValue_mem (Option.filter_eq_some_iff.1 h).1
    exact nss.value_length t.slot obj _ hobj hv

end Libcacard
