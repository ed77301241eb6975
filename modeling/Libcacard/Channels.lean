import Libcacard.CardRun

/-!
# Logical channels

The two low bits of a class byte name a channel, and each channel has its own current applet,
which stays until the next SELECT by AID on that channel or a reset.
-/

namespace Libcacard

open Machine

variable {τ : Type}

/-- SELECT FILE by AID on channel `c`, with no secure messaging bit set. -/
structure VCardAPDU.SelectsOn (apdu : VCardAPDU) (c : Fin maxChannel) (aid : Bytes) : Prop where
  type : apdu.aCla &&& 0xf0 ∈ [0x00, 0x80, 0x90, (0xa0 : UInt8)]
  channel : (apdu.aCla &&& 0x03).toNat = c
  plain : apdu.aCla &&& 0x0c = 0x00
  ins : apdu.aIns = Ins.selectFile
  p1 : apdu.aP1 = 0x04
  body : apdu.body = aid

/-- Bytes are what a command is answered with, or what its answer announces. -/
def Processed.Answers (r : Processed τ) (payload : Bytes) (aLe : ℕ) : Prop :=
  if aLe < payload.length then
    r.response = some (bytesLeft payload.length)
      ∧ r.card.bufferResponse = some (.ofBytes payload)
  else r.response = some (dataResponse payload Status.success)

/-- Neither a reset nor a SELECT by AID on channel `c`. -/
def CardOp.LeavesChannel (c : Fin maxChannel) : CardOp → Prop
  | .apdu a => ¬ ((∃ aid, a.Selects aid) ∧ a.channel = c)
  | .reset _ => False

/-- A command first goes to applet `i`, which is one with this AID. -/
def Dispatches (emul : Emul τ) (card : VCard τ) (apdu : VCardAPDU) (i : ℕ) (aid : Bytes) : Prop :=
  ∃ a, card.applets[i]? = some a ∧ a.aid = aid ∧ vcardProcessAppletApdu emul card apdu = (do
    let (r, st) ← a.processApdu.run emul card.statics a.appletPrivate card.toSession apdu
    return r.toProcessed card i a st)

/-- Every command on channel `c` goes to applet `i` until the channel is changed. -/
def KeepsChannel (emul : Emul τ) (card : VCard τ) (c : Fin maxChannel) (i : ℕ) (aid : Bytes) :
    Prop :=
  ∀ ops replies card' apdu, Along (cardStep emul) (fun _ op => op.LeavesChannel c) card ops →
    run (cardStep emul) card ops = .ok (replies, card') → apdu.channel = c →
    card'.currentApplet c = some i ∧ Dispatches emul (card'.start apdu) apdu i aid

/-- The command makes applet `i` the current one on channel `c`, and only there. -/
def SelectsChannel (emul : Emul τ) (card : VCard τ) (c : Fin maxChannel) (i : ℕ) (aid : Bytes)
    (apdu : VCardAPDU) : Prop :=
  ∃ r, vcardProcessApdu emul card apdu = .ok r ∧ r.status = .done
    ∧ r.card.currentApplet c = some i ∧ r.Answers (fci aid) apdu.aLe
    ∧ (∀ d ≠ c, r.card.currentApplet d = card.currentApplet d)
    ∧ KeepsChannel emul r.card c i aid

end Libcacard
