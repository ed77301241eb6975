import Libcacard.EmulReaders

/-!
# Readers without references

What the emulator does with readers and cards when nobody has to count: they stay once they were
made. With the counts right the program does just this, and what holds of it holds of the program.
-/

namespace Libcacard

open Machine

variable {γ : Type}

/-- All the cards and readers that were made, the registered readers and the queued events. -/
structure EmulView (γ : Type) where
  cards : List γ
  readers : List EmulReader
  list : List ℕ
  queue : List CardEvent

namespace EmulView

variable (v : EmulView γ)

def reader (r : ℕ) : EmulReader := (v.readers[r]?).getD ⟨none, 0, false, 0, none⟩

def setReader (r : ℕ) (f : EmulReader → EmulReader) : EmulView γ :=
  { v with readers := v.readers.modify r f }

def queueEvent (e : CardEvent) : EmulView γ := { v with queue := v.queue ++ [e] }

/-- The event for the state a reader is in. -/
def cardEvent (r : ℕ) : CardEvent :=
  ⟨if (v.reader r).card.isSome then .cardInsert else .cardRemove, r, (v.reader r).card⟩

def insertCard (r : ℕ) (card : Option ℕ) : EmulView γ :=
  let v := v.setReader r fun i => { i with card := card }
  v.queueEvent (v.cardEvent r)

def make : Option γ → EmulView γ × Option ℕ
  | none => (v, none)
  | some x => ({ v with cards := v.cards ++ [x] }, some v.cards.length)

/-- A card is made and put into a reader. -/
def insertMade (r : ℕ) (made : Option γ) : EmulView γ :=
  (v.make made).1.insertCard r (v.make made).2

/-- A reader is made and registered. -/
def addReader (slot : ℕ) : EmulView γ :=
  { v with
    readers := v.readers ++ [⟨none, slot, false, 0, none⟩]
    list := v.list ++ [v.readers.length]
    queue := v.queue ++ [⟨.readerInsert, v.readers.length, none⟩] }

/-- A reader is registered no more. -/
def removeReader (r : ℕ) : EmulView γ :=
  ({ v with list := v.list.erase r } : EmulView γ).queueEvent ⟨.readerRemove, r, none⟩

def find (slot : ℕ) : Option ℕ := v.list.find? fun r => (v.reader r).slot = slot

/-- What a pass of the event thread does to the reader of the slot. -/
def tokenChange (r : ℕ) (e : TokenNow γ) : EmulView γ :=
  let i := v.reader r
  if e.present then
    let v := if e.series ≠ i.series then
        (if i.present then v.insertCard r none else v).insertMade r e.mirrored
      else v
    v.setReader r fun i => { i with series := e.series, present := true }
  else
    (if i.present then v.insertCard r none else v).setReader r
      fun i => { i with series := 0, present := false }

def tokenEvent (e : TokenNow γ) : EmulView γ :=
  match v.find e.slot with
  | none => v.addReader e.slot
  | some r => v.tokenChange r e

def initSeries (r : ℕ) (present : Bool) (series : ℕ) : EmulView γ :=
  let v := v.setReader r fun i => { i with present := present, series := series }
  if present then v else v.insertCard r none

def initSoft (o : SoftReader γ) : EmulView γ :=
  match o.slot with
  | none => v
  | some slot =>
    let r := v.readers.length
    let v := v.addReader slot
    if o.certs then
      let saved := (v.make o.made).2
      ((v.insertMade r o.made).initSeries r o.present o.series).setReader r
        fun i => { i with savedVcard := saved }
    else v

def initSlot (useHw : UseHw) (slot : HwSlot γ) : EmulView γ :=
  if ¬ slot.isRemovable ∨ (useHw = .yes ∧ ¬ slot.isHw) then v
  else if slot.name = "E-Gate 0 0" then v
  else
    let r := v.readers.length
    let v := v.addReader slot.now.slot
    if slot.now.present then
      (v.insertMade r slot.now.mirrored).initSeries r slot.isPresentThen slot.now.series
    else v

def forceRemove (nssEmulInit : Bool) (r : ℕ) : EmulView γ × VCardEmulError :=
  if ¬ nssEmulInit ∨ (v.reader r).card = none then (v, .fail) else (v.insertCard r none, .ok)

def forceInsert (nssEmulInit : Bool) (r : ℕ) (isPresent : Bool) (mirrored : Option γ) :
    EmulView γ × VCardEmulError :=
  if ¬ nssEmulInit ∨ (v.reader r).card ≠ none then (v, .fail)
  else
    match (v.reader r).savedVcard with
    | some saved => (v.insertCard r (some saved), .ok)
    | none => if isPresent then (v.insertMade r mirrored, .ok) else (v, .fail)

end EmulView

/-- The emulator with the events that callers took. -/
structure EmulSpec (γ : Type) where
  view : EmulView γ
  mode : Option EmulMode
  nssEmulInit : Bool
  events : List CardEvent

namespace EmulSpec

variable (p : EmulSpec γ)

def start : EmulSpec γ := ⟨⟨[], [], [], []⟩, none, false, []⟩

def init (o : EmulInit γ) : EmulInitError × EmulSpec γ :=
  if p.mode ≠ none then (.alreadyInited, p)
  else if o.passthru then
    (if o.vreaders ≠ [] ∨ ¬ o.capcscInit then .fail else .ok, { p with mode := some .pcsc })
  else if ¬ o.nssInit then (.fail, { p with mode := some .nss })
  else
    let v := o.vreaders.foldl EmulView.initSoft p.view
    let hasReaders := o.vreaders.any fun r => r.slot.isSome && r.certs
    if o.useHw = .no then
      (if hasReaders then .ok else .fail,
        { p with view := v, mode := some .nss, nssEmulInit := hasReaders })
    else
      (.ok, { p with
        view := o.slots.foldl (fun v slot => v.initSlot o.useHw slot) v
        mode := some .nss
        nssEmulInit := true })

def step (p : EmulSpec γ) : EmulCall γ → EmulOutput × EmulSpec γ
  | .init o => (.init (p.init o).1, (p.init o).2)
  | .tokenEvent e => (.none, { p with view := p.view.tokenEvent e })
  | .forceRemove r =>
    let (v, e) := p.view.forceRemove p.nssEmulInit r
    (.forced e, { p with view := v })
  | .forceInsert r isPresent mirrored =>
    let (v, e) := p.view.forceInsert p.nssEmulInit r isPresent mirrored
    (.forced e, { p with view := v })
  | .useCard card f =>
    (.none, { p with view := { p.view with cards := p.view.cards.modify card f } })
  | .getReader _ | .freeReader _ | .getCard _ | .freeCard _ | .cardIsPresent _ => (.none, p)
  | .eventNext =>
    match p.view.queue with
    | [] => (.none, p)
    | e :: queue =>
      (.none, { p with view := { p.view with queue := queue }, events := p.events ++ [e] })
  | .eventDelete event => (.none, { p with events := p.events.eraseIdx event })
  | .replay =>
    (.none, { p with view := { p.view with
      queue := p.view.queue ++ p.view.list.map p.view.cardEvent } })
  | .capcscNewReader => (.none, { p with view := p.view.addReader 0 })
  | .capcscInsert r connects card =>
    (.none, if connects then { p with view := p.view.insertMade r (some card) } else p)
  | .capcscRemove r => (.none, { p with view := p.view.insertCard r none })
  | .capcscGone r => (.none, { p with view := p.view.removeReader r })

/-- A run, with its outputs. -/
def run : EmulSpec γ → List (EmulCall γ) → List EmulOutput × EmulSpec γ
  | p, [] => ([], p)
  | p, c :: cs => ((p.step c).1 :: (run (p.step c).2 cs).1, (run (p.step c).2 cs).2)

end EmulSpec

end Libcacard
