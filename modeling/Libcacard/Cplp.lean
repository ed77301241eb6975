import Libcacard.Answer
import Libcacard.Program

/-!
# Production life-cycle data

GET DATA `9F 7F` is answered from a template in which six bytes are to be those of the card's serial
number. All the cards of a program have one template, and a card without a serial number leaves it
as it finds it.
-/

namespace Libcacard

open Machine

variable {τ : Type}

/-- The command goes to a Global Platform applet, and asks for the data. -/
structure AsksCplp (card : VCard τ) (apdu : VCardAPDU) : Prop where
  gp : (card.currentApplet apdu.channel).any fun i =>
    card.applets[i]?.any fun a => decide (a.processApdu = .gp)
  ins : apdu.aIns = Ins.getData
  tag : bebytes2ushort apdu.aP1 apdu.aP2 = 0x9f7f

instance (card : VCard τ) (apdu : VCardAPDU) : Decidable (AsksCplp card apdu) :=
  decidable_of_iff (((card.currentApplet apdu.channel).any fun i =>
      card.applets[i]?.any fun a => decide (a.processApdu = .gp))
      ∧ apdu.aIns = Ins.getData ∧ bebytes2ushort apdu.aP1 apdu.aP2 = 0x9f7f)
    ⟨fun h => ⟨h.1, h.2.1, h.2.2⟩, fun h => ⟨h.1, h.2, h.3⟩⟩

/-- The bytes of its serial number a card has in its data, if it has a serial number. -/
def VCard.cplpSerial (card : VCard τ) : Option Bytes :=
  if 0 < card.serialLen then some (card.serial.1.take 6) else none

/-- The template with the bytes of a serial number, or with zeros in their place. -/
def cplpTemplate (serial : Option Bytes) : Bytes :=
  match serial with
  | some six => splice cplpDataInit.1 15 six
  | none => cplpDataInit.1

section Runs

variable (emul : Emul τ) (digest : Bytes → Option Bytes)

/-- The serial number of the card an operation asks, if it asks one that has a serial number. -/
def Program.askedSerial (y : Program τ) : ProgramOp τ → Option Bytes
  | .card k (.apdu apdu) =>
    (y.cardAt k).bind fun card => if AsksCplp card apdu then card.cplpSerial else none
  | _ => none

/-- The last serial number of those a run asks for. -/
def Program.lastSerial (y : Program τ) : List (ProgramOp τ) → Option Bytes → Option Bytes
  | [], last => last
  | op :: ops, last =>
    match y.step emul digest op with
    | .ok (_, y') => y'.lastSerial ops ((y.askedSerial op).or last)
    | .error _ => last

/-! ## What is meant to hold -/

/-- The command is answered with the payload: with all of it, or it is the pending response. -/
def AnswersWith (card : VCard τ) (apdu : VCardAPDU) (payload : Bytes) : Prop :=
  ∃ r, vcardProcessApdu emul card apdu = .ok r ∧ r.status = .done
    ∧ r.response = some (respond (card.start apdu).toSession payload apdu.aLe Status.success).1
    ∧ r.card.bufferResponse
      = (respond (card.start apdu).toSession payload apdu.aLe Status.success).2.bufferResponse

/-- `P` holds for each card that is asked in a run, what the run did before, and the command. -/
def EachAsked (P : List (ProgramOp τ) → VCard τ → VCardAPDU → Prop) (ops : List (ProgramOp τ)) :
    Prop :=
  ∀ before k apdu after replies y card, ops = before ++ .card k (.apdu apdu) :: after →
    run (Program.step emul digest) .start before = .ok (replies, y) → y.cardAt k = some card →
    AsksCplp card apdu → P before card apdu

/-- Each card answers with the template of its own serial number. -/
def CplpOwn : List (ProgramOp τ) → Prop :=
  EachAsked emul digest fun _ card apdu => AnswersWith emul card apdu (cplpTemplate card.cplpSerial)

/-- A card without a serial number is asked before all that have one, or the last one that was asked
before it has a serial number that starts with six zeros. -/
def CplpUnmixed : List (ProgramOp τ) → Prop :=
  EachAsked emul digest fun before card _ => card.cplpSerial = none →
    ∀ six, Program.lastSerial emul digest .start before none = some six →
      six = List.replicate 6 0

end Runs

end Libcacard
