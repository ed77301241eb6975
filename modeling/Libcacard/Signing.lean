import Libcacard.CardRun

/-!
# Signing in parts

A PKI applet collects the parts of its input, which SIGN/DECRYPT commands with P1 = 80 send, until
one with P1 = 00 sends the last and has the operation done. Other commands may come in between.
-/

namespace Libcacard

open Machine

variable {τ : Type}

/-- SIGN/DECRYPT to applet `i`. -/
def SignsTo (i : ℕ) (card : VCard τ) (apdu : VCardAPDU) : Prop :=
  apdu.Signs ∧ card.currentApplet apdu.channel = some i

/-- The operations among the calls, with their keys. -/
def rsaOps (calls : List Call) : List (VCardKey × Bytes) :=
  calls.filterMap fun c =>
    match c with
    | .rsaOp key input => some (key, input)
    | _ => none

/-- Applet `i` is a PKI applet and has this input for its key. -/
def HasInput (card : VCard τ) (i : ℕ) (key : VCardKey) (input : Bytes) : Prop :=
  ∃ a p, card.applets[i]? = some a ∧ a.processApdu = .cacPki ∧ a.appletPrivate = some p
    ∧ p.u = .pkiData input key

/-- The chunks applet `i` was sent since it was selected or finished an operation, and the
operations that the commands to it since then had done. -/
inductive Collecting (emul : Emul τ) (digest : Bytes → Option Bytes) (aid : Bytes) (i : ℕ)
    (key : VCardKey) : List Bytes → List (VCardKey × Bytes) → VCard τ → Prop
  | selected {card : VCard τ} {apdu : VCardAPDU} {r : Processed τ} {input : Bytes}
    (hcard : Reachable emul digest card) (hkey : HasInput card i key input)
    (hi : vcardFindApplet card.applets aid = some i) (hselects : apdu.Selects aid)
    (hr : vcardProcessApdu emul card apdu = .ok r) : Collecting emul digest aid i key [] [] r.card
  | chunk {xs : List Bytes} {ops : List (VCardKey × Bytes)} {card : VCard τ} {apdu : VCardAPDU}
    {r : Processed τ} (h : Collecting emul digest aid i key xs ops card)
    (hsigns : SignsTo i card apdu) (hP1 : apdu.aP1 = 0x80)
    (hr : vcardProcessApdu emul card apdu = .ok r) :
    Collecting emul digest aid i key (xs ++ [apdu.body]) (ops ++ rsaOps r.card.calls) r.card
  | other {xs : List Bytes} {ops : List (VCardKey × Bytes)} {card : VCard τ} {apdu : VCardAPDU}
    {r : Processed τ} (h : Collecting emul digest aid i key xs ops card)
    (hselects : ¬ apdu.Selects aid) (hsigns : ¬ SignsTo i card apdu)
    (hr : vcardProcessApdu emul card apdu = .ok r) :
    Collecting emul digest aid i key xs
      (ops ++ if card.currentApplet apdu.channel = some i then rsaOps r.card.calls else []) r.card
  | statics {xs : List Bytes} {ops : List (VCardKey × Bytes)} {card : VCard τ}
    (h : Collecting emul digest aid i key xs ops card) (st : Statics) :
    Collecting emul digest aid i key xs ops { card with statics := st }
  | finished {xs : List Bytes} {ops : List (VCardKey × Bytes)} {card : VCard τ} {apdu : VCardAPDU}
    {r : Processed τ} (h : Collecting emul digest aid i key xs ops card)
    (hsigns : SignsTo i card apdu) (hP1 : apdu.aP1 ≠ 0x80)
    (hr : vcardProcessApdu emul card apdu = .ok r) : Collecting emul digest aid i key [] [] r.card

/-- A further SIGN/DECRYPT goes on as if there were one input: a chunk is taken, the last one has
one operation done on all of them, and that or an unknown P1 leaves no input. -/
def SignsAsOne (emul : Emul τ) (card : VCard τ) (i : ℕ) (key : VCardKey) (xs : List Bytes)
    (ops : List (VCardKey × Bytes)) (apdu : VCardAPDU) : Prop :=
  ∃ r, vcardProcessApdu emul card apdu = .ok r
    ∧ (apdu.aP1 = 0x80 → r.response = some (vcardMakeResponse Status.success)
      ∧ ops ++ rsaOps r.card.calls = [])
    ∧ (apdu.aP1 = 0x00 → ops ++ rsaOps r.card.calls = [(key, xs.flatten ++ apdu.body)])
    ∧ (apdu.aP1 ≠ 0x80 → HasInput r.card i key [])

end Libcacard
