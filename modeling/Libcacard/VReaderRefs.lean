import Libcacard.Lib.RefCount
import Libcacard.Lib.Run
import Libcacard.VEvent
import Libcacard.VReaderList

/-!
# References to readers

A reader counts the references to it: of the entries of the registered list and its copies, of the
events about it, and those handed to callers. The functions below take and give back references
where the program does.
-/

namespace Libcacard

open Machine Machine.Link

/-- What a reader has besides its count. -/
structure VReaderData where
  id : UInt32
  name : String
  hasCard : Bool
  deriving DecidableEq, Repr

abbrev VReader := Counted VReaderData

/-- The readers, the entries of all lists, the registered list and the queued events. -/
structure ReaderProgram where
  readers : Heap VReader
  entries : Heap (VReaderListEntry ℕ)
  list : VReaderList
  queue : List VEvent

namespace ReaderProgram

variable (s : ReaderProgram)

/-- More steps than a walk that ends can take. -/
def fuel : ℕ := s.entries.length + 1

def vreaderNew (name : String) : ReaderProgram × ℕ :=
  ({ s with readers := Counted.new s.readers ⟨vreaderNoId, name, false⟩ }, s.readers.length)

def vreaderReference : Option ℕ → Except Fault ReaderProgram
  | none => .ok s
  | some reader => do return { s with readers := ← Counted.retain s.readers reader }

/-- The last reference takes the reader with it. -/
def vreaderFree : Option ℕ → Except Fault ReaderProgram
  | none => .ok s
  | some reader => do return { s with readers := ← Counted.release s.readers reader }

def vreaderSetId (reader : ℕ) (id : UInt32) : Except Fault ReaderProgram := do
  let c ← s.readers.read reader
  return { s with readers := ← s.readers.write reader { c with item := { c.item with id := id } } }

/-- `vevent_new` -/
def veventNew (type : VEventType) (reader : ℕ) : Except Fault (ReaderProgram × VEvent) := do
  return (← s.vreaderReference (some reader), ⟨type, reader⟩)

def veventDelete (event : VEvent) : Except Fault ReaderProgram := s.vreaderFree (some event.reader)

def veventQueueVevent (event : VEvent) : ReaderProgram := { s with queue := s.queue ++ [event] }

/-- `vevent_queue_vevent(vevent_new(...))` -/
def queueNew (type : VEventType) (reader : ℕ) : Except Fault ReaderProgram := do
  let (s, event) ← s.veventNew type reader
  return s.veventQueueVevent event

/-! ## The entries -/

def listEntryNew (reader : ℕ) : Except Fault (ReaderProgram × ℕ) := do
  let s ← s.vreaderReference (some reader)
  let (entries, entry) := vreaderListEntryNew s.entries reader
  return ({ s with entries := entries }, entry)

def listEntryDelete : Option ℕ → Except Fault ReaderProgram
  | none => .ok s
  | some entry => do
    let e ← s.entries.read entry
    let s ← s.vreaderFree (some e.reader)
    return { s with entries := ← s.entries.free entry }

/-- `vreader_list_get_reader`, of an entry that is there. -/
def vreaderListGetReader (entry : ℕ) : Except Fault (ReaderProgram × ℕ) := do
  let e ← s.entries.read entry
  return (← s.vreaderReference (some e.reader), e.reader)

/-- `vreader_list_get_next` -/
def next (entry : ℕ) : Except Fault (Option ℕ) := do
  let e ← s.entries.read entry
  return e.next

/-! ## Walks along a list -/

/-- The loop of `vreader_list_delete`. -/
def listDelete : ℕ → ReaderProgram → Option ℕ → Except Fault ReaderProgram
  | _, s, none => .ok s
  | 0, _, some _ => .error .diverges
  | fuel + 1, s, some current => do
    let nextEntry ← s.next current
    let s ← s.listEntryDelete (some current)
    listDelete fuel s nextEntry

/-- The loop of `vreader_copy_list`. -/
def copyList : ℕ → ReaderProgram → Option ℕ → VReaderList →
    Except Fault (ReaderProgram × VReaderList)
  | _, s, none, newList => .ok (s, newList)
  | 0, _, some _, _ => .error .diverges
  | fuel + 1, s, some current, newList => do
    let (s, reader) ← s.vreaderListGetReader current
    let (s, newEntry) ← s.listEntryNew reader
    let s ← s.vreaderFree (some reader)
    let (entries, newList) ← vreaderQueue s.entries newList newEntry
    let s := { s with entries := entries }
    copyList fuel s (← s.next current) newList

/-- The loop of the two lookups, which stop at a reader that `p` accepts. -/
def lookup (p : VReaderData → Bool) : ℕ → ReaderProgram → Option ℕ →
    Except Fault (ReaderProgram × Option ℕ)
  | _, s, none => .ok (s, none)
  | 0, _, some _ => .error .diverges
  | fuel + 1, s, some current => do
    let (s, creader) ← s.vreaderListGetReader current
    let c ← s.readers.read creader
    if p c.item then return (s, some creader)
    let s ← s.vreaderFree (some creader)
    lookup p fuel s (← s.next current)

/-! ## The functions callers use -/

def vreaderListDelete (list : VReaderList) : Except Fault ReaderProgram :=
  listDelete s.fuel s list.head

def vreaderGetReaderList : Except Fault (ReaderProgram × VReaderList) :=
  copyList s.fuel s s.list.head vreaderListNew

def vreaderGetReaderById (id : UInt32) : Except Fault (ReaderProgram × Option ℕ) :=
  if id = vreaderNoId then .ok (s, none) else lookup (fun r => decide (r.id = id)) s.fuel s s.list.head

def vreaderGetReaderByName (name : String) : Except Fault (ReaderProgram × Option ℕ) :=
  lookup (fun r => decide (r.name = name)) s.fuel s s.list.head

def vreaderAddReader (reader : ℕ) : Except Fault ReaderProgram := do
  let (s, entry) ← s.listEntryNew reader
  let (entries, list) ← vreaderQueue s.entries s.list entry
  ({ s with entries := entries, list := list } : ReaderProgram).queueNew .readerInsert reader

def vreaderRemoveReader (reader : ℕ) : Except Fault ReaderProgram := do
  let entry ← findEntry s.entries (fun r => decide (r = reader)) s.fuel s.list.head
  let (entries, list) ← vreaderDequeue s.entries s.list entry
  let s ← ({ s with entries := entries, list := list } : ReaderProgram).queueNew .readerRemove reader
  s.listEntryDelete entry

/-- `vreader_queue_card_event` -/
def vreaderQueueCardEvent (reader : ℕ) : Except Fault ReaderProgram := do
  let c ← s.readers.read reader
  s.queueNew (if c.item.hasCard then .cardInsert else .cardRemove) reader

/-- `vreader_insert_card`, whose card is `NULL` when one is removed. -/
def vreaderInsertCard (reader : ℕ) (hasCard : Bool) : Except Fault ReaderProgram := do
  let c ← s.readers.read reader
  let readers ← s.readers.write reader { c with item := { c.item with hasCard := hasCard } }
  ({ s with readers := readers } : ReaderProgram).vreaderQueueCardEvent reader

/-- `vreader_xfr_bytes` looks for the reader's card. -/
def vreaderXfrBytes (reader : ℕ) : Except Fault ReaderProgram := do
  let _ ← s.readers.read reader
  return s

/-- The loop of `vcard_emul_replay_insertion_events`. -/
def replay : ℕ → ReaderProgram → Option ℕ → Except Fault ReaderProgram
  | _, s, none => .ok s
  | 0, _, some _ => .error .diverges
  | fuel + 1, s, some current => do
    let (s, vreader) ← s.vreaderListGetReader current
    let nextEntry ← s.next current
    let s ← s.vreaderQueueCardEvent vreader
    replay fuel s nextEntry

def vcardEmulReplayInsertionEvents : Except Fault ReaderProgram := do
  let (s, list) ← s.vreaderGetReaderList
  let s ← replay s.fuel s list.head
  s.vreaderListDelete list

end ReaderProgram

/-! ## The program and its callers -/

/-- What callers have: copies of the list they have not deleted, events they made or were given and
have not deleted or queued, and references to readers. -/
structure ReaderSystem where
  program : ReaderProgram
  copies : List VReaderList
  events : List VEvent
  held : List ℕ

def ReaderSystem.start : ReaderSystem := ⟨⟨[], [], vreaderListNew, []⟩, [], [], []⟩

/-- A call. A copy or an event is named by its place among those the callers have, and an entry of
a copy by the number of entries before it. -/
inductive ReaderCall
  | new (name : String)
  | reference (reader : Option ℕ)
  | free (reader : Option ℕ)
  | setId (reader : ℕ) (id : UInt32)
  | addReader (reader : ℕ)
  | removeReader (reader : ℕ)
  | getReaderList
  | listDelete (copy : ℕ)
  | listGetReader (copy entry : ℕ)
  | getReaderById (id : UInt32)
  | getReaderByName (name : String)
  | insertCard (reader : ℕ) (hasCard : Bool)
  | xfrBytes (reader : ℕ)
  | eventNew (type : VEventType) (reader : ℕ)
  | eventQueue (event : ℕ)
  | eventNext
  | eventDelete (event : ℕ)
  | replay
  deriving DecidableEq, Repr

/-- `vreader_list_get_first`, and then `vreader_list_get_next` some times. -/
def ReaderProgram.entryAt (s : ReaderProgram) : ℕ → Option ℕ → Except Fault (Option ℕ)
  | _, none => .ok none
  | 0, some entry => .ok (some entry)
  | n + 1, some entry => do s.entryAt n (← s.next entry)

namespace ReaderSystem

variable (y : ReaderSystem)

/-- A call returned, and handed out no reference. -/
def done (s : ReaderProgram) : Except Fault (Unit × ReaderSystem) := .ok ((), { y with program := s })

/-- A call returned a reader, or `NULL`. -/
def hand (r : ReaderProgram × Option ℕ) : Except Fault (Unit × ReaderSystem) :=
  .ok ((), { y with program := r.1, held := r.2.toList ++ y.held })

def step (y : ReaderSystem) : ReaderCall → Except Fault (Unit × ReaderSystem)
  | .new name => y.hand ((y.program.vreaderNew name).1, some (y.program.vreaderNew name).2)
  | .reference reader => do y.hand (← y.program.vreaderReference reader, reader)
  | .free reader => do
    let s ← y.program.vreaderFree reader
    return ((), { y with program := s, held := reader.elim y.held y.held.erase })
  | .setId reader id => do y.done (← y.program.vreaderSetId reader id)
  | .addReader reader => do y.done (← y.program.vreaderAddReader reader)
  | .removeReader reader => do y.done (← y.program.vreaderRemoveReader reader)
  | .getReaderList => do
    let (s, list) ← y.program.vreaderGetReaderList
    return ((), { y with program := s, copies := y.copies ++ [list] })
  | .listDelete copy =>
    match y.copies[copy]? with
    | none => .error .badAddress
    | some list => do
      let s ← y.program.vreaderListDelete list
      return ((), { y with program := s, copies := y.copies.eraseIdx copy })
  | .listGetReader copy entry =>
    match y.copies[copy]? with
    | none => .error .badAddress
    | some list => do
      match ← y.program.entryAt entry list.head with
      | none => y.hand (y.program, none)
      | some entry =>
        let (s, reader) ← y.program.vreaderListGetReader entry
        y.hand (s, some reader)
  | .getReaderById id => do y.hand (← y.program.vreaderGetReaderById id)
  | .getReaderByName name => do y.hand (← y.program.vreaderGetReaderByName name)
  | .insertCard reader hasCard => do y.done (← y.program.vreaderInsertCard reader hasCard)
  | .xfrBytes reader => do y.done (← y.program.vreaderXfrBytes reader)
  | .eventNew type reader => do
    let (s, event) ← y.program.veventNew type reader
    return ((), { y with program := s, events := y.events ++ [event] })
  | .eventQueue event =>
    match y.events[event]? with
    | none => .error .badAddress
    | some e =>
      .ok ((), { y with program := y.program.veventQueueVevent e, events := y.events.eraseIdx event })
  | .eventNext =>
    match y.program.queue with
    | [] => .ok ((), y)
    | e :: queue =>
      .ok ((), { y with program := { y.program with queue := queue }, events := y.events ++ [e] })
  | .eventDelete event =>
    match y.events[event]? with
    | none => .error .badAddress
    | some e => do
      let s ← y.program.veventDelete e
      return ((), { y with program := s, events := y.events.eraseIdx event })
  | .replay => do y.done (← y.program.vcardEmulReplayInsertionEvents)

/-- The call names only what is there: readers that were not destroyed, and copies, events and
references the callers have. -/
def Proper : ReaderCall → Prop
  | .reference (some reader) | .setId reader _ | .addReader reader | .removeReader reader
  | .insertCard reader _ | .xfrBytes reader | .eventNew _ reader =>
    ∃ c, y.program.readers.Holds reader c
  | .free (some reader) => reader ∈ y.held
  | .listDelete copy | .listGetReader copy _ => copy < y.copies.length
  | .eventQueue event | .eventDelete event => event < y.events.length
  | .new _ | .reference none | .free none | .getReaderList | .getReaderById _ | .getReaderByName _
  | .eventNext | .replay => True

/-- No reader is registered when the events are replayed, and the entry a removal takes away is the
only one of the list or at neither end. -/
def KeepsCounts : ReaderCall → Prop
  | .replay => y.program.list.head = none
  | .removeReader reader =>
    ∀ entry, findEntry y.program.entries (fun r => decide (r = reader)) y.program.fuel
        y.program.list.head = .ok (some entry) →
      (y.program.list.head = some entry ↔ y.program.list.tail = some entry)
  | _ => True

instance (c : ReaderCall) : Decidable (y.Proper c) :=
  match c with
  | .reference (some reader) | .setId reader _ | .addReader reader | .removeReader reader
  | .insertCard reader _ | .xfrBytes reader | .eventNew _ reader =>
    inferInstanceAs (Decidable (∃ c, y.program.readers.Holds reader c))
  | .free (some reader) => inferInstanceAs (Decidable (reader ∈ y.held))
  | .listDelete copy | .listGetReader copy _ => inferInstanceAs (Decidable (copy < y.copies.length))
  | .eventQueue event | .eventDelete event => inferInstanceAs (Decidable (event < y.events.length))
  | .new _ | .reference none | .free none | .getReaderList | .getReaderById _ | .getReaderByName _
  | .eventNext | .replay => .isTrue trivial

instance (c : ReaderCall) : Decidable (y.KeepsCounts c) :=
  match c with
  | .replay => inferInstanceAs (Decidable (y.program.list.head = none))
  | .removeReader reader =>
    match h : findEntry y.program.entries (fun r => decide (r = reader)) y.program.fuel
        y.program.list.head with
    | .ok (some entry) =>
      decidable_of_iff (y.program.list.head = some entry ↔ y.program.list.tail = some entry)
        ⟨fun hends entry' h' => by rw [h] at h'; cases h'; exact hends, fun hall => hall entry h⟩
    | .ok none | .error _ => .isTrue fun entry h' => by rw [h] at h'; cases h'
  | .new _ | .reference _ | .free _ | .setId _ _ | .addReader _ | .getReaderList | .listDelete _
  | .listGetReader _ _ | .getReaderById _ | .getReaderByName _ | .insertCard _ _ | .xfrBytes _
  | .eventNew _ _ | .eventQueue _ | .eventNext | .eventDelete _ => .isTrue trivial

/-- The registered list and the copies run through these entries. -/
structure Lists (es : List (ℕ × ℕ)) (cs : List (List (ℕ × ℕ))) : Prop where
  list : y.program.list = ⟨firstOr none es, lastOr none es⟩
  linked : Linked y.program.entries none none es
  copies : y.copies = cs.map fun c => ⟨firstOr none c, lastOr none c⟩
  copiesLinked : ∀ c ∈ cs, Linked y.program.entries none none c
  nodup : ((es ++ cs.flatten).map Prod.fst).Nodup

/-- The references to readers: of list entries, of events, and of callers. -/
def refs (es : List (ℕ × ℕ)) (cs : List (List (ℕ × ℕ))) : List ℕ :=
  (es ++ cs.flatten).map Prod.snd ++ (y.program.queue ++ y.events).map VEvent.reader ++ y.held

/-- Each reader's count is the number of references to it, and a reader is there just if there is
one. -/
def CountsExact : Prop :=
  ∃ es cs, y.Lists es cs ∧ Counted.Exact y.program.readers (y.refs es cs)

end ReaderSystem

end Libcacard
