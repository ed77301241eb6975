import Libcacard.CacApplets
import Mathlib.Logic.Function.Basic

/-!
# A card and its applets

An applet keeps its place in the list it was added to, so its index stands for the pointers to it.
The program's own list has the last applet added first.
-/

namespace Libcacard

open Machine

variable {τ : Type}

def maxChannel : ℕ := 4

/-- What the CCC's buffer has slots for. -/
def maxPkiApplets : ℕ := 10

/-- The `process_apdu` functions. -/
inductive VCardProcessAPDU
  | cacCommonRead
  | cacPki
  | cacAca
  | cacPassthrough
  | gp
  | msft
  deriving DecidableEq, Repr

/-- The `reset_applet` functions. -/
inductive VCardResetApplet
  | pki
  | passthrough
  deriving DecidableEq, Repr

structure VCardApplet where
  processApdu : VCardProcessAPDU
  resetApplet : Option VCardResetApplet
  aid : Bytes
  appletPrivate : Option VCardAppletPrivate

inductive VCardType
  | fileSystem
  | vm
  | direct
  deriving DecidableEq, Repr

/-- The static variables of the program that a later command or a later card can see: the template
of the Global Platform applet, the ten PKI slots of the CCC's buffer with what their pointers now
read (`none` while a slot is of type NONE), and the buffer properties all CCC applets share. -/
structure Statics where
  cplpData : ByteArr cplpDataSize
  cccPkiSlots : Fin maxPkiApplets → Option (ByteArr 16)
  cccBufferProperties : ByteArr 5

/-- What they are when the program starts. -/
def Statics.initial : Statics := ⟨cplpDataInit, fun _ => none, ⟨List.replicate 5 0, rfl⟩⟩

/-- A card, and the statics of the program it is in. -/
structure VCard (τ : Type) extends Session τ where
  applets : List VCardApplet
  currentApplet : Fin maxChannel → Option ℕ
  type : VCardType
  statics : Statics

/-- `vcard_new`, for a card whose token is in state `token`. -/
def vcardNew (token : τ) (statics : Statics) : VCard τ :=
  { bufferResponse := none, compat := 0, serial := ⟨List.replicate 32 0, rfl⟩, serialLen := 0,
    token := token, calls := [], applets := [], currentApplet := fun _ => none, type := .vm,
    statics := statics }

/-- At most the 32 bytes the card has room for. -/
def vcardSetSerial (card : VCard τ) (serial : Bytes) : VCard τ :=
  { card with
    serial := card.serial.write 0 (serial.take 32) (by simp)
    serialLen := min 32 serial.length }

def vcardGetLoginCount (emul : Emul τ) (s : Session τ) : ℤ :=
  let rv := emul.getLoginCount s.token
  if rv = -1 ∧ s.compat &&& compatWindows ≠ 0 then 3 else rv

def vcardAddApplet (card : VCard τ) (applet : VCardApplet) : VCard τ :=
  { card with
    applets := card.applets ++ [applet]
    -- if our card-type is direct, always call the applet
    currentApplet := if card.type = .direct then fun _ => some card.applets.length
      else card.currentApplet }

/-- The applet with this AID that was added last. -/
def vcardFindApplet (applets : List VCardApplet) (aid : Bytes) : Option ℕ :=
  (List.range applets.length).reverse.find? fun i => applets[i]?.any (·.aid = aid)

/-! ## Calling an applet -/

def VCardResetApplet.run : VCardResetApplet → VCardAppletPrivate → Except Fault VCardAppletPrivate
  | pki, p => cacAppletPkiReset p
  | passthrough, p => .ok (cacAppletPassthroughReset p)

/-- All but the Global Platform applet leave the statics alone. -/
def VCardProcessAPDU.run (emul : Emul τ) (st : Statics) (process : VCardProcessAPDU)
    (p : Option VCardAppletPrivate) (s : Session τ) (apdu : VCardAPDU) :
    Except Fault (Handled τ × Statics) := do
  let shared := st.cccBufferProperties
  match process with
  | cacCommonRead => return (← cacCommonProcessApduRead shared (← assertPrivate p) s apdu, st)
  | cacPki => return (← cacAppletPkiProcessApdu shared emul (← assertPrivate p) s apdu, st)
  | cacAca => return (← cacAppletAcaProcessApdu shared (← assertPrivate p) s apdu, st)
  | cacPassthrough =>
    return (← cacPassthroughContainerProcessApdu shared emul (← assertPrivate p) s apdu, st)
  | gp =>
    let (r, cplpData) ← gpAppletContainerProcessApdu st.cplpData p s apdu
    return (r, { st with cplpData := cplpData })
  | msft => return (← msftAppletContainerProcessApdu p s apdu, st)

/-- What the applets are after the reset function of applet `i`. -/
def resetApplets (applets : List VCardApplet) (i : ℕ) (reset : VCardResetApplet) :
    Except Fault (List VCardApplet) :=
  match applets[i]? with
  | none => .error .badAddress
  | some a => do
    let p ← reset.run (← assertPrivate a.appletPrivate)
    return applets.set i { a with appletPrivate := some p }

def vcardSelectApplet (card : VCard τ) (channel : ℕ) (applet : Option ℕ) :
    Except Fault (VCard τ) :=
  if h : channel < maxChannel then
    let currentApplet := Function.update card.currentApplet ⟨channel, h⟩ applet
    match applet with
    | none => .ok { card with currentApplet := currentApplet }
    | some i =>
      match card.applets[i]? with
      | none => .error .badAddress
      | some a =>
        match a.resetApplet with
        | none => .ok { card with currentApplet := currentApplet }
        | some reset => do
          let applets ← resetApplets card.applets i reset
          return { card with currentApplet := currentApplet, applets := applets }
  else .error .assertion

/-- `vcard_reset`: on a card of type direct the applet added first is selected and reset. -/
def vcardReset (emul : Emul τ) (card : VCard τ) (power : VCardPower) : Except Fault (VCard τ) :=
  let card' := { card with bufferResponse := none, token := emul.reset card.token power }
  match card.type, card.applets with
  | .direct, a :: _ =>
    match a.resetApplet with
    | none => .error .nullPointer
    | some reset => do
      let applets ← resetApplets card.applets 0 reset
      return { card' with currentApplet := fun _ => some 0, applets := applets }
  | _, _ => .ok { card' with currentApplet := fun _ => none }

/-- What processing a command leaves. -/
structure Processed (τ : Type) where
  status : VCardStatus
  response : Option VCardResponse
  card : VCard τ

/-- The card after applet `i`, which is `a`, handled a command. -/
def Handled.toProcessed (card : VCard τ) (i : ℕ) (a : VCardApplet) (r : Handled τ)
    (st : Statics) : Processed τ :=
  ⟨r.status, r.response,
    { card with
      toSession := r.session
      applets := card.applets.set i { a with appletPrivate := r.appletPrivate }
      statics := st }⟩

def vcardProcessAppletApdu (emul : Emul τ) (card : VCard τ) (apdu : VCardAPDU) :
    Except Fault (Processed τ) :=
  if h : apdu.aChannel < maxChannel then
    match card.currentApplet ⟨apdu.aChannel, h⟩ with
    | none => .ok ⟨.next, none, card⟩
    | some i =>
      match card.applets[i]? with
      | none => .error .badAddress
      | some a => do
        let (r, st) ← a.processApdu.run emul card.statics a.appletPrivate card.toSession apdu
        return r.toProcessed card i a st
  else .error .outOfBounds

end Libcacard
