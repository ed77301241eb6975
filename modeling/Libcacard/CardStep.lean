import Libcacard.Answer
import Libcacard.CacInit
import Libcacard.Proofs.Apdu
import Libcacard.Split

/-!
# What a command can do

A command is answered without any other effect, or the applet it went to does something with its
own data and the token, or the ISO layer selects an applet, asks the token about a login or
delivers some of the pending response.
-/

namespace Libcacard

open Machine

variable {τ : Type}

theorem VCardAPDU.aChannel_lt_max (apdu : VCardAPDU) : apdu.aChannel < maxChannel :=
  apdu.aChannel_lt

def VCardAPDU.channel (apdu : VCardAPDU) : Fin maxChannel :=
  ⟨apdu.aChannel, apdu.aChannel_lt_max⟩

/-- The ISO layer takes the command. -/
def VCardAPDU.IsIso (apdu : VCardAPDU) : Prop := apdu.aGenType = .iso ∧ apdu.aSecureMessaging = 0

instance (apdu : VCardAPDU) : Decidable apdu.IsIso := inferInstanceAs (Decidable (_ ∧ _))

/-- SELECT FILE by AID. -/
def VCardAPDU.Selects (apdu : VCardAPDU) (aid : Bytes) : Prop :=
  apdu.IsIso ∧ apdu.aIns = Ins.selectFile ∧ apdu.aP1 = 0x04 ∧ apdu.body = aid

instance (apdu : VCardAPDU) (aid : Bytes) : Decidable (apdu.Selects aid) :=
  inferInstanceAs (Decidable (_ ∧ _))

/-- SIGN/DECRYPT as a PKI applet takes it. -/
def VCardAPDU.Signs (apdu : VCardAPDU) : Prop := apdu.aIns = Ins.cacSignDecrypt ∧ apdu.aP2 = 0x00

instance (apdu : VCardAPDU) : Decidable apdu.Signs := inferInstanceAs (Decidable (_ ∧ _))

/-- The FCI of an applet: an AID in a template, or what the Card Manager has of its own. -/
def fci (aid : Bytes) : Bytes :=
  if aid = gpAid then gpResponse
  else [0x6f, UInt8.ofNat (aid.length + 4), 0x84, UInt8.ofNat aid.length] ++ aid ++ [0xa5, 0x00]

/-- The card a command is processed on: a pending response is dropped unless it is asked for. -/
def VCard.start (card : VCard τ) (apdu : VCardAPDU) : VCard τ :=
  { card with
    calls := []
    bufferResponse := if apdu.aIns = Ins.getResponse then card.bufferResponse else none }

/-- The applet as its selection leaves it. -/
def VCardApplet.clear (a : VCardApplet) : VCardApplet :=
  { a with appletPrivate :=
      match a.resetApplet, a.appletPrivate with
      | some .pki, some p =>
        match p.u with
        | .pkiData _ key => some { p with u := .pkiData [] key }
        | _ => some p
      | some .passthrough, some p => some (cacAppletPassthroughReset p)
      | _, p => p }

/-- How long the tables of the ACA are that can have more than 268 bytes, by P1, on a card with `n`
PKI applets. -/
def tableLength (aP1 : UInt8) (n : ℕ) : Option ℕ :=
  match aP1 with
  | 0x10 => some (406 + 24 * n)
  | 0x50 | 0x51 | 0x52 => some (358 + 21 * n)
  | 0x21 => some (154 + 12 * n)
  | _ => none

/-- A handler that leaves everything as it is, but for what an answer does to the session. -/
inductive Quiet (p : Option VCardAppletPrivate) (s : Session τ) (aLe : ℕ) : Handled τ → Prop
  | pass : Quiet p s aLe (.pass p s)
  | answer {r : VCardResponse × Session τ} (hr : Answered s aLe r) :
    Quiet p s aLe ⟨.done, some r.1, p, r.2⟩

/-- What a handler does with its applet's data and the token before it answers. -/
inductive Handling (emul : Emul τ) (apdu : VCardAPDU) (p : VCardAppletPrivate) (s : Session τ) :
    VCardProcessAPDU → VCardAppletPrivate → Session τ → Prop
  | collect {signBuffer : Bytes} {key : VCardKey} (hu : p.u = .pkiData signBuffer key)
    (hsigns : apdu.Signs) (hP1 : apdu.aP1 = 0x80) :
    Handling emul apdu p s .cacPki { p with u := .pkiData (signBuffer ++ apdu.body) key } s
  | operate {signBuffer : Bytes} {key : VCardKey} (hu : p.u = .pkiData signBuffer key)
    (hsigns : apdu.Signs) (hP1 : apdu.aP1 = 0x00) :
    Handling emul apdu p s .cacPki { p with u := .pkiData [] key }
      ({ s with token := (emul.rsaOp s.token key (signBuffer ++ apdu.body)).2.2 }.log
        (.rsaOp key (signBuffer ++ apdu.body)))
  | drop {signBuffer : Bytes} {key : VCardKey} (hu : p.u = .pkiData signBuffer key)
    (hsigns : apdu.Signs) (hP1 : apdu.aP1 ≠ 0x80) (hP1' : apdu.aP1 ≠ 0x00) :
    Handling emul apdu p s .cacPki { p with u := .pkiData [] key } s
  | fetch {label : String} {tagBuffer valBuffer : Option Bytes} (hu : p.u = .ptData label)
    (hins : apdu.aIns = Ins.cacReadBuffer) (hnull : p.tagBuffer = none ∨ p.valBuffer = none)
    (hfiles : passthroughFiles (emul.readObject s.token label).1 = .ok (tagBuffer, valBuffer)) :
    Handling emul apdu p s .cacPassthrough
      { p with tagBuffer := tagBuffer, valBuffer := valBuffer }
      ({ s with token := (emul.readObject s.token label).2 }.log (.readObject label))

/-- What a handler leaves. -/
inductive Outcome (emul : Emul τ) (st : Statics) (process : VCardProcessAPDU)
    (p : Option VCardAppletPrivate) (s : Session τ) (apdu : VCardAPDU) :
    Handled τ × Statics → Prop
  | quiet {r : Handled τ} (h : Quiet p s apdu.aLe r) : Outcome emul st process p s apdu (r, st)
  | handle {p₀ p' : VCardAppletPrivate} {s' : Session τ} {r : VCardResponse × Session τ}
    (hp : p = some p₀) (h : Handling emul apdu p₀ s process p' s')
    (hr : Answered s' apdu.aLe r) : Outcome emul st process p s apdu (.answer p' r, st)
  | serial {r : VCardResponse × Session τ} (hr : Answered s apdu.aLe r) :
    Outcome emul st process p s apdu (⟨.done, some r.1, p, r.2⟩,
      { st with cplpData := cplpDataOf s.serial s.serialLen st.cplpData })
  | windows {r : VCardResponse × Session τ}
    (hr : Answered (vcardSetCompat s compatWindows) apdu.aLe r) :
    Outcome emul st process p s apdu (⟨.done, some r.1, p, r.2⟩, st)

/-- What a command that `card` started on leaves. -/
inductive CardStep (emul : Emul τ) (card : VCard τ) (apdu : VCardAPDU) : Processed τ → Prop
  | answer {r : VCardResponse} {s : Session τ} (hr : Answered card.toSession apdu.aLe (r, s)) :
    CardStep emul card apdu (.answer { card with toSession := s } r)
  | handle {i : ℕ} {a : VCardApplet} {p p' : VCardAppletPrivate} {r : VCardResponse}
    {s s' : Session τ} (hi : card.currentApplet apdu.channel = some i)
    (ha : card.applets[i]? = some a) (hp : a.appletPrivate = some p)
    (h : Handling emul apdu p card.toSession a.processApdu p' s')
    (hr : Answered s' apdu.aLe (r, s)) :
    CardStep emul card apdu (.answer
      { card with
        toSession := s
        applets := card.applets.set i { a with appletPrivate := some p' } } r)
  | serial {r : VCardResponse} {s : Session τ} (hr : Answered card.toSession apdu.aLe (r, s)) :
    CardStep emul card apdu (.answer
      { card with
        toSession := s
        statics := { card.statics with
          cplpData := cplpDataOf card.serial card.serialLen card.statics.cplpData } } r)
  | windows {r : VCardResponse} {s : Session τ}
    (hr : Answered (vcardSetCompat card.toSession compatWindows) apdu.aLe (r, s)) :
    CardStep emul card apdu (.answer { card with toSession := s } r)
  | deselect {aid : Bytes} (hselects : apdu.Selects aid)
    (hnone : vcardFindApplet card.applets aid = none) :
    CardStep emul card apdu (.withStatus
      { card with currentApplet := Function.update card.currentApplet apdu.channel none }
      Status.errorFileNotFound)
  | select {aid : Bytes} {i : ℕ} {a : VCardApplet} {r : VCardResponse} {s : Session τ}
    (hselects : apdu.Selects aid) (hi : vcardFindApplet card.applets aid = some i)
    (ha : card.applets[i]? = some a) (hr : Answered card.toSession apdu.aLe (r, s)) :
    CardStep emul card apdu (.answer
      { card with
        toSession := s
        applets := card.applets.set i a.clear
        currentApplet := Function.update card.currentApplet apdu.channel (some i) } r)
  | loginStatus {r : VCardResponse} {s : Session τ} (hins : apdu.aIns = Ins.verify)
    (hr : Answered { card.toSession with token := (emul.isLoggedIn card.token).2 } apdu.aLe
      (r, s)) :
    CardStep emul card apdu (.answer { card with toSession := s } r)
  | login (hins : apdu.aIns = Ins.verify) :
    CardStep emul card apdu (.withStatus
      { card with
        toSession := Session.log
          { card.toSession with token := (emul.login card.token apdu.body).2 }
          (.login apdu.body (emul.login card.token apdu.body).1) }
      (emul.login card.token apdu.body).1)
  | nextBytes {b : Option VCardBufferResponse} {r : VCardResponse} {s : Session τ}
    (hins : apdu.aIns = Ins.getResponse) (hr : Answered card.toSession apdu.aLe (r, s)) :
    CardStep emul card apdu (.answer { card with toSession := { s with bufferResponse := b } } r)

/-! ## What stops a command -/

/-- A handler computes a number that is no `int`. -/
inductive HandlerOverflows (emul : Emul τ) (apdu : VCardAPDU) (p : VCardAppletPrivate)
    (token : τ) : VCardProcessAPDU → Prop
  | sign {signBuffer : Bytes} {key : VCardKey} (hu : p.u = .pkiData signBuffer key)
    (hsigns : apdu.Signs) (hlen : 2 ^ 31 ≤ signBuffer.length + apdu.aLc) :
    HandlerOverflows emul apdu p token .cacPki
  | fetch {label : String} {data : Bytes} {ms : List SimpletlvMember} (hu : p.u = .ptData label)
    (hins : apdu.aIns = Ins.cacReadBuffer) (hnull : p.tagBuffer = none ∨ p.valBuffer = none)
    (hdata : (emul.readObject token label).1 = some data) (hparse : simpletlvParse data = .ok ms)
    (hover : FileOverflows .tl ms ∨ FileOverflows .value ms) :
    HandlerOverflows emul apdu p token .cacPassthrough

def CommandOverflows (emul : Emul τ) (card : VCard τ) (apdu : VCardAPDU) : Prop :=
  ∃ i a p, card.currentApplet apdu.channel = some i ∧ card.applets[i]? = some a
    ∧ a.appletPrivate = some p ∧ HandlerOverflows emul apdu p card.token a.processApdu

/-! ## The invariant of a card -/

/-- However the properties are asked for, they are there and can be encoded. -/
structure PropertiesOk (p : VCardAppletPrivate) : Prop where
  propertiesLen_le : ∀ shared, p.propertiesLen ≤ (p.properties.tlv shared).length
  longPropertiesLen_le : ∀ shared, p.longPropertiesLen ≤ (p.properties.tlv shared).length
  length_lt : ∀ shared, (p.properties.tlv shared).length < 2 ^ 16
  encodable : ∀ shared, ∀ m ∈ p.properties.tlv shared, Encodable [m] ∧ (record m).length ≤ 256

/-- The data of an applet are those its handler and its reset function work on. -/
inductive AppletOk : VCardApplet → Prop
  | commonRead {aid : Bytes} {p : VCardAppletPrivate} (h : PropertiesOk p)
    (hu : p.u = .cccData ∨ p.u = .reserved) : AppletOk ⟨.cacCommonRead, none, aid, some p⟩
  | pki {aid : Bytes} {p : VCardAppletPrivate} {signBuffer : Bytes} {key : VCardKey}
    (h : PropertiesOk p) (hu : p.u = .pkiData signBuffer key) :
    AppletOk ⟨.cacPki, some .pki, aid, some p⟩
  | aca {aid : Bytes} {p : VCardAppletPrivate} {pkiApplets : ℕ} (h : PropertiesOk p)
    (hu : p.u = .acaData pkiApplets) (hle : pkiApplets ≤ maxPkiApplets) :
    AppletOk ⟨.cacAca, none, aid, some p⟩
  | passthrough {aid : Bytes} {p : VCardAppletPrivate} {label : String} (h : PropertiesOk p)
    (hu : p.u = .ptData label) : AppletOk ⟨.cacPassthrough, some .passthrough, aid, some p⟩
  | gp {aid : Bytes} : AppletOk ⟨.gp, none, aid, none⟩
  | msft {aid : Bytes} : AppletOk ⟨.msft, none, aid, none⟩

/-- What holds of a card between two commands. -/
structure CardOk (card : VCard τ) : Prop where
  type : card.type = .vm
  applets : ∀ a ∈ card.applets, AppletOk a ∧ a.aid.length ≤ 16
  current : ∀ channel i, card.currentApplet channel = some i → i < card.applets.length

end Libcacard
