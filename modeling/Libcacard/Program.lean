import Libcacard.CardRun

/-!
# The cards of a program

Cards are made one after the other, and each is used while others are made. They share the
program's static variables: the CCC's buffer keeps the slots that earlier calls filled, whose
pointers go to stack frames of those calls, and its properties are those of the last call.
-/

namespace Libcacard

open Machine

variable {τ : Type}

/-- A card to be made, and what is by then in the stack where earlier calls had their URLs. -/
structure NewCard (τ : Type) where
  token : τ
  certs : List (Bytes × VCardKey)
  stack : Fin maxPkiApplets → ByteArr 16

/-- The statics as the next card finds them. -/
def Statics.reread (st : Statics) (stack : Fin maxPkiApplets → ByteArr 16) : Statics :=
  { st with cccPkiSlots := fun i => (st.cccPkiSlots i).map fun _ => stack i }

structure Program (τ : Type) where
  cards : List (VCard τ)
  statics : Statics

def Program.start : Program τ := ⟨[], .initial⟩

inductive ProgramOp (τ : Type)
  | make (new : NewCard τ)
  | card (k : ℕ) (op : CardOp)

namespace Program

variable (emul : Emul τ) (digest : Bytes → Option Bytes) (y : Program τ)

/-- The card at place `k`, with the statics as they are now. -/
def cardAt (k : ℕ) : Option (VCard τ) :=
  y.cards[k]?.map fun card => { card with statics := y.statics }

/-- `vcard_emul_make_card` gives a card back that could not be initialised, too. -/
def makeCard (new : NewCard τ) : Except Fault (VCardStatus × VCard τ) :=
  vcardEmulMakeCard emul digest new.token (y.statics.reread new.stack) new.certs

def step (y : Program τ) : ProgramOp τ → Except Fault (Option CardReply × Program τ)
  | .make new => do
    let (_, card) ← y.makeCard emul digest new
    return (none, ⟨y.cards ++ [card], card.statics⟩)
  | .card k op =>
    match y.cardAt k with
    | none => .error .badAddress
    | some card => do
      let (reply, card) ← cardStep emul card op
      return (reply, ⟨y.cards.set k card, card.statics⟩)

end Program

/-- The cards a run makes, in order. -/
def made (ops : List (ProgramOp τ)) : List (NewCard τ) :=
  ops.filterMap fun op => match op with
    | .make new => some new
    | .card _ _ => none

/-! ## The files of the CCC -/

/-- The entries of a CCC with the URLs of `n` PKI applets. -/
def cccEntries (n : ℕ) : List SimpletlvMember :=
  (cccBuffer fun i => if i < n then some (pkiCardurl i) else none).filter fun m => ¬ m.isNone

/-- The files of a card's CCC are those of the entries for `n` certificates, and the URLs they were
made of are all the card's own. -/
structure CccFilesRight (n : ℕ) (card : VCard τ) : Prop where
  files : ∃ i a p, vcardFindApplet card.applets cacCccAid = some i ∧ card.applets[i]? = some a
    ∧ a.appletPrivate = some p ∧ FilesOf (cccEntries n) p.tagBuffer p.valBuffer
  slots : ∀ i : Fin maxPkiApplets, (card.statics.cccPkiSlots i).isSome → i < n

end Libcacard
