import Libcacard.Lib.Owners
import Libcacard.ReaderCards
import Libcacard.VscClient

/-!
# References to cards

A card counts the references to it: of the reader it is in, of what the emulator saved for the
reader, and of the events about it. A reader is counted as well, and what refers to its cards goes
with it. The functions below take and give back references where the program does. A card is a
`γ`.
-/

namespace Libcacard

open Machine

variable {γ : Type}

/-- A reader with its `VReaderEmul`. -/
structure EmulReader where
  card : Option ℕ
  slot : ℕ
  present : Bool
  series : ℕ
  savedVcard : Option ℕ
  deriving DecidableEq, Repr

/-- The cards a reader refers to. -/
def EmulReader.owns (r : EmulReader) : List ℕ := r.card.toList ++ r.savedVcard.toList

structure CardEvent where
  type : VEventType
  reader : ℕ
  card : Option ℕ
  deriving DecidableEq, Repr

/-- The cards and readers, the registered readers and the queued events. -/
structure CardProgram (γ : Type) where
  cards : Heap (Counted γ)
  readers : Heap (Counted EmulReader)
  list : List ℕ
  queue : List CardEvent

namespace CardProgram

variable (s : CardProgram γ)

def vcardNew (x : γ) : CardProgram γ × ℕ :=
  ({ s with cards := Counted.new s.cards x }, s.cards.length)

def vcardReference (card : Option ℕ) : Except Fault (CardProgram γ) := do
  return { s with cards := ← Counted.retainOpt s.cards card }

/-- The last reference takes the card with it. -/
def vcardFree (card : Option ℕ) : Except Fault (CardProgram γ) := do
  return { s with cards := ← Counted.releaseOpt s.cards card }

def vreaderNew (slot : ℕ) : CardProgram γ × ℕ :=
  ({ s with readers := Counted.new s.readers ⟨none, slot, false, 0, none⟩ }, s.readers.length)

def vreaderReference (reader : Option ℕ) : Except Fault (CardProgram γ) := do
  return { s with readers := ← Counted.retainOpt s.readers reader }

/-- The last reference takes the reader with it, and gives back its card and, in
`vreader_emul_delete`, the card that was saved. -/
def vreaderFree : Option ℕ → Except Fault (CardProgram γ)
  | none => .ok s
  | some reader => do
    let r ← s.readers.read reader
    let s := { s with readers := ← Counted.release s.readers reader }
    if 1 < r.references then return s
    let s ← s.vcardFree r.item.card
    s.vcardFree r.item.savedVcard

/-- The reader's own data change. -/
def setReader (reader : ℕ) (f : EmulReader → EmulReader) : Except Fault (CardProgram γ) := do
  let r ← s.readers.read reader
  return { s with readers := ← s.readers.write reader { r with item := f r.item } }

def vreaderGetCard (reader : ℕ) : Except Fault (CardProgram γ × Option ℕ) := do
  let r ← s.readers.read reader
  return (← s.vcardReference r.item.card, r.item.card)

def vreaderCardIsPresent (reader : ℕ) : Except Fault (CardProgram γ × VReaderStatus) := do
  let (s, card) ← s.vreaderGetCard reader
  if card = none then return (s, .noCard)
  return (← s.vcardFree card, .ok)

/-- What `vreader_xfr_bytes` and `vreader_reset` do between `vreader_get_card` and `vcard_free`. -/
def vcardUse (card : ℕ) (f : γ → γ) : Except Fault (CardProgram γ) := do
  let c ← s.cards.read card
  return { s with cards := ← s.cards.write card { c with item := f c.item } }

/-! ## Events -/

def veventNew (type : VEventType) (reader : ℕ) (card : Option ℕ) :
    Except Fault (CardProgram γ × CardEvent) := do
  let s ← s.vreaderReference (some reader)
  return (← s.vcardReference card, ⟨type, reader, card⟩)

def veventDelete (event : CardEvent) : Except Fault (CardProgram γ) := do
  let s ← s.vreaderFree (some event.reader)
  s.vcardFree event.card

/-- `vevent_queue_vevent(vevent_new(...))` -/
def queueNew (type : VEventType) (reader : ℕ) (card : Option ℕ) : Except Fault (CardProgram γ) := do
  let (s, event) ← s.veventNew type reader card
  return { s with queue := s.queue ++ [event] }

def vreaderAddReader (reader : ℕ) : Except Fault (CardProgram γ) := do
  let s ← s.vreaderReference (some reader)
  ({ s with list := s.list ++ [reader] } : CardProgram γ).queueNew .readerInsert reader none

/-- The entry of a reader that is alone in the list or at neither end of it goes, with its
reference. -/
def vreaderRemoveReader (reader : ℕ) : Except Fault (CardProgram γ) := do
  let s ← ({ s with list := s.list.erase reader } : CardProgram γ).queueNew .readerRemove reader none
  s.vreaderFree (some reader)

def vreaderQueueCardEvent (reader : ℕ) : Except Fault (CardProgram γ) := do
  let r ← s.readers.read reader
  s.queueNew (if r.item.card.isSome then .cardInsert else .cardRemove) reader r.item.card

/-- Insert/remove a new card. For removal, `card` is `NULL`. -/
def vreaderInsertCard (reader : ℕ) (card : Option ℕ) : Except Fault (CardProgram γ) := do
  let r ← s.readers.read reader
  let s ← s.vcardFree r.item.card
  let s ← s.setReader reader fun r => { r with card := none }
  let s ← s.vcardReference card
  let s ← s.setReader reader fun r => { r with card := card }
  s.vreaderQueueCardEvent reader

/-! ## The list of readers -/

/-- A copy of the list has a reference to each reader. -/
def vreaderGetReaderList : Except Fault (CardProgram γ × List ℕ) := do
  return (← s.list.foldlM (fun s reader => s.vreaderReference (some reader)) s, s.list)

def vreaderListDelete (list : List ℕ) : Except Fault (CardProgram γ) :=
  list.foldlM (fun s reader => s.vreaderFree (some reader)) s

/-- The loop of `vcard_emul_find_vreader_from_slot`. -/
def findFromSlot (slot : ℕ) : List ℕ → CardProgram γ → Except Fault (CardProgram γ × Option ℕ)
  | [], s => .ok (s, none)
  | reader :: list, s => do
    let s ← s.vreaderReference (some reader)
    let r ← s.readers.read reader
    if r.item.slot = slot then return (s, some reader)
    let s ← s.vreaderFree (some reader)
    findFromSlot slot list s

def vcardEmulFindVreaderFromSlot (slot : ℕ) : Except Fault (CardProgram γ × Option ℕ) := do
  let (s, list) ← s.vreaderGetReaderList
  let (s, reader) ← findFromSlot slot list s
  return (← s.vreaderListDelete list, reader)

/-- The loop of `vcard_emul_replay_insertion_events`, which keeps the references it takes. -/
def replay : List ℕ → CardProgram γ → Except Fault (CardProgram γ)
  | [], s => .ok s
  | reader :: list, s => do
    let s ← s.vreaderReference (some reader)
    let s ← s.vreaderQueueCardEvent reader
    replay list s

def vcardEmulReplayInsertionEvents : Except Fault (CardProgram γ) := do
  let (s, list) ← s.vreaderGetReaderList
  let s ← replay list s
  s.vreaderListDelete list

end CardProgram

end Libcacard
