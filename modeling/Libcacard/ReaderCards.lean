import Libcacard.Lib.Run
import Libcacard.Mirror
import Libcacard.VEvent

/-!
# Cards put into readers and taken out

Whatever puts a card into a reader or takes it out goes through `vreader_insert_card`, which queues
an event for the state it leaves the reader in. `vcard_emul_force_card_remove` and
`vcard_emul_force_card_insert` do it on request.
-/

namespace Libcacard

open Machine

/-- The cards in the readers, and the queued events. -/
structure ReaderCards (γ : Type) where
  card : ℕ → Option γ
  queue : List VEvent

section Readers

variable {γ : Type} (w : ReaderCards γ)

def ReaderCards.vreaderCardIsPresent (reader : ℕ) : Bool := (w.card reader).isSome

def ReaderCards.vreaderQueueCardEvent (reader : ℕ) : ReaderCards γ :=
  { w with queue := w.queue
      ++ [⟨if (w.card reader).isSome then .cardInsert else .cardRemove, reader⟩] }

/-- Insert/remove a new card. For removal, there is no card. -/
def ReaderCards.vreaderInsertCard (reader : ℕ) (card : Option γ) : ReaderCards γ :=
  { w with card := Function.update w.card reader card }.vreaderQueueCardEvent reader

/-- Readers as they are made, with no card. -/
def ReaderCards.new : ReaderCards γ := ⟨fun _ => none, []⟩

/-- Calls of `vreader_insert_card`, each for a reader -/
def ReaderCards.insertCards (w : ReaderCards γ) (calls : List (ℕ × Option γ)) : ReaderCards γ :=
  calls.foldl (fun w call => w.vreaderInsertCard call.1 call.2) w

end Readers

/-! ## Forced removal and insertion -/

inductive VCardEmulError
  | ok
  | fail
  deriving DecidableEq, Repr

/-- What a call finds: `nss_emul_init`, what is kept of the reader, whether its slot has a token,
and the certificate objects on it. -/
structure SlotNow (τ : Type) where
  nssEmulInit : Bool
  reader : VReaderEmul τ
  isPresent : Bool
  objs : List Pk11CertObject
  statics : Statics

inductive ForceOp
  | remove
  | insert
  deriving DecidableEq, Repr

/-- A call for a reader. -/
structure ForceCall (τ : Type) where
  op : ForceOp
  reader : ℕ
  now : SlotNow τ

section Forced

variable {τ κ : Type} (db : CertDb κ) (emul : Emul τ) (digest : Bytes → Option Bytes)
  (savedVcard : ℕ → Option (VCard τ))

def vcardEmulForceCardRemove (w : ReaderCards (VCard τ)) (reader : ℕ) (now : SlotNow τ) :
    VCardEmulError × ReaderCards (VCard τ) :=
  if ¬ now.nssEmulInit ∨ ¬ w.vreaderCardIsPresent reader then (.fail, w)
  else (.ok, w.vreaderInsertCard reader none)

def vcardEmulForceCardInsert (w : ReaderCards (VCard τ)) (reader : ℕ) (now : SlotNow τ) :
    Except Fault (VCardEmulError × ReaderCards (VCard τ)) :=
  if ¬ now.nssEmulInit ∨ w.vreaderCardIsPresent reader then .ok (.fail, w)
  else
    match savedVcard reader with
    | some vcard => .ok (.ok, w.vreaderInsertCard reader (some vcard))
    | none =>
      -- it must be a physical card, rebuild it
      if ¬ now.isPresent then .ok (.fail, w)
      else do
        let vcard ← vcardEmulMirrorCard db emul digest now.statics (some now.reader) now.objs
        return (.ok, w.vreaderInsertCard reader vcard)

def forceStep (w : ReaderCards (VCard τ)) (c : ForceCall τ) :
    Except Fault (VCardEmulError × ReaderCards (VCard τ)) :=
  match c.op with
  | .remove => .ok (vcardEmulForceCardRemove w c.reader c.now)
  | .insert => vcardEmulForceCardInsert db emul digest savedVcard w c.reader c.now

/-! ## What is meant to hold -/

/-- What a call returned is what it did. -/
def ForceCall.Reports (c : ForceCall τ) (w : ReaderCards (VCard τ)) (e : VCardEmulError)
    (w' : ReaderCards (VCard τ)) : Prop :=
  (match c.op with
    | .remove => (e = .ok ↔ c.now.nssEmulInit ∧ w.vreaderCardIsPresent c.reader)
        ∧ (e = .ok → ¬ w'.vreaderCardIsPresent c.reader)
    | .insert => e = .ok ↔ ¬ w.vreaderCardIsPresent c.reader ∧ w'.vreaderCardIsPresent c.reader)
    ∧ (e = .fail → w'.card c.reader = w.card c.reader ∧ w'.queue = w.queue)

/-- Every call of a sequence returns, and reports what it did. -/
def ForcedReport (w : ReaderCards (VCard τ)) (calls : List (ForceCall τ)) : Prop :=
  ∀ before c after es w₁, calls = before ++ c :: after →
    run (forceStep db emul digest savedVcard) w before = .ok (es, w₁) →
    ∃ e w₂, forceStep db emul digest savedVcard w₁ c = .ok (e, w₂) ∧ c.Reports w₁ e w₂

/-- A card that has to be rebuilt can be: there is a slot, with a certificate object. -/
def Rebuildable (w : ReaderCards (VCard τ)) (c : ForceCall τ) : Prop :=
  c.op = .insert → c.now.nssEmulInit → ¬ w.vreaderCardIsPresent c.reader →
    savedVcard c.reader = none → c.now.isPresent → c.now.reader.slot ≠ none ∧ c.now.objs ≠ []

end Forced

/-! ## The events of a reader -/

section Events

variable {γ : Type}

/-- The card events of a reader, in the order they were queued. -/
def ReaderCards.cardEvents (w : ReaderCards γ) (reader : ℕ) : List VEventType :=
  (w.queue.filter (·.reader = reader)).map (·.type)

/-- The cards that go out of a reader and into it when it is given another card. -/
def cardChange (old new : Option γ) : List VEventType :=
  (if old.isSome then [.cardRemove] else []) ++ if new.isSome then [.cardInsert] else []

/-- One event for each card that goes into an empty reader or comes out of it. -/
def cardChanges : Option γ → List (Option γ) → List VEventType
  | _, [] => []
  | old, new :: cards => cardChange old new ++ cardChanges new cards

/-- `a`, `b`, `a`, ... -/
def Alternate (a b : VEventType) : List VEventType → Prop
  | [] => True
  | e :: es => e = a ∧ Alternate b a es

/-- The cards that calls have for a reader. -/
def cardsFor (reader : ℕ) (calls : List (ℕ × Option γ)) : List (Option γ) :=
  (calls.filter (·.1 = reader)).map (·.2)

/-- What a consumer takes a reader's state to be. -/
def replayEvents (es : List VEventType) : Bool :=
  es.foldl (fun _ e => e = .cardInsert) false

/-- The events of a reader, which was empty, mirror what its calls did. -/
structure EventsMirror (w : ReaderCards γ) (reader : ℕ) (cards : List (Option γ)) : Prop where
  each : w.cardEvents reader = cardChanges none cards
  alternate : Alternate .cardInsert .cardRemove (w.cardEvents reader)
  replay : replayEvents (w.cardEvents reader) = w.vreaderCardIsPresent reader

/-- Each card goes into an empty reader, and each removal takes one out. -/
def ChangesPresence : Option γ → List (Option γ) → Prop
  | _, [] => True
  | old, new :: cards => old.isSome ≠ new.isSome ∧ ChangesPresence new cards

end Events

end Libcacard
