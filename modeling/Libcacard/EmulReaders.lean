import Libcacard.CardRefs
import Libcacard.Lib.Run
import Libcacard.Options

/-!
# Readers of the emulator

`vcard_emul_init` makes readers for soft cards and for the slots of tokens, and an event thread
follows what happens to tokens after that. Cards are taken out and put back on request, and while
all that goes on callers use cards and take events. Where the program loses a reference the state
keeps it as lost.
-/

namespace Libcacard

open Machine

variable {γ : Type}

/-- What is found at a slot: whether a token is there, its series, and the card that
`vcard_emul_mirror_card` makes of it, if it makes one. -/
structure TokenNow (γ : Type) where
  slot : ℕ
  present : Bool
  series : ℕ
  mirrored : Option γ

/-- A soft card of the options: its slot, if there is one of that name, whether one of its
certificates is found, the card that is made of those, and what the slot says. -/
structure SoftReader (γ : Type) where
  slot : Option ℕ
  certs : Bool
  made : Option γ
  present : Bool
  series : ℕ

/-- A slot of a module, as `vcard_emul_init` looks at it, and whether its token is still there
when the card has been inserted. -/
structure HwSlot (γ : Type) where
  isRemovable : Bool
  isHw : Bool
  name : String
  now : TokenNow γ
  isPresentThen : Bool

/-- The options, what NSS and PC/SC say of them, and the slots of the modules but the internal one.
`passthru` says that the hardware is used through PC/SC. -/
structure EmulInit (γ : Type) where
  passthru : Bool
  capcscInit : Bool
  nssInit : Bool
  vreaders : List (SoftReader γ)
  useHw : UseHw
  slots : List (HwSlot γ)

inductive EmulInitError
  | ok
  | fail
  | alreadyInited
  deriving DecidableEq, Repr

namespace CardProgram

variable (s : CardProgram γ)

/-- A card that is made, or `NULL`. -/
def vcardMake : Option γ → CardProgram γ × Option ℕ
  | none => (s, none)
  | some x => ((s.vcardNew x).1, some (s.vcardNew x).2)

/-- One pass through the loop of `vcard_emul_event_thread`. -/
def vcardEmulEventThread (e : TokenNow γ) : Except Fault (CardProgram γ) := do
  let (s, vreader) ← s.vcardEmulFindVreaderFromSlot e.slot
  match vreader with
  | none =>
    -- new vreader
    let (s, vreader) := s.vreaderNew e.slot
    let s ← s.vreaderAddReader vreader
    s.vreaderFree (some vreader)
  | some vreader => do
    -- card remove/insert
    let r ← s.readers.read vreader
    if e.present then
      let s ← if e.series ≠ r.item.series then do
          let s ← if r.item.present then s.vreaderInsertCard vreader none else pure s
          let (s, vcard) := s.vcardMake e.mirrored
          let s ← s.vreaderInsertCard vreader vcard
          s.vcardFree vcard
        else pure s
      let s ← s.setReader vreader fun r => { r with series := e.series, present := true }
      s.vreaderFree (some vreader)
    else
      let s ← if r.item.present then s.vreaderInsertCard vreader none else pure s
      let s ← s.setReader vreader fun r => { r with series := 0, present := false }
      s.vreaderFree (some vreader)

/-- If the card is inserted when we start up, make sure our state is correct. -/
def vcardEmulInitSeries (vreader : ℕ) (present : Bool) (series : ℕ) :
    Except Fault (CardProgram γ) := do
  let s ← s.setReader vreader fun r => { r with present := present, series := series }
  if present then return s
  s.vreaderInsertCard vreader none

/-- A soft card is set up. The reader is not given back when no certificate is found. -/
def vcardEmulInitSoft (o : SoftReader γ) : Except Fault (CardProgram γ × Option ℕ) :=
  match o.slot with
  | none => .ok (s, none)
  | some slot => do
    let (s, vreader) := s.vreaderNew slot
    let s ← s.vreaderAddReader vreader
    if o.certs then
      let (s, vcard) := s.vcardMake o.made
      let s ← s.vreaderInsertCard vreader vcard
      let s ← s.vcardEmulInitSeries vreader o.present o.series
      -- allow insertion and removal of soft cards
      let s ← s.vcardReference vcard
      let s ← s.setReader vreader fun r => { r with savedVcard := vcard }
      let s ← s.vcardFree vcard
      return (← s.vreaderFree (some vreader), none)
    else return (s, some vreader)

/-- The slot of a module gets a reader. -/
def vcardEmulInitSlot (useHw : UseHw) (slot : HwSlot γ) : Except Fault (CardProgram γ) :=
  -- only map removable HW slots
  if ¬ slot.isRemovable ∨ (useHw = .yes ∧ ¬ slot.isHw) then .ok s
  else if slot.name = "E-Gate 0 0" then .ok s
  else do
    let (s, vreader) := s.vreaderNew slot.now.slot
    let s ← s.vreaderAddReader vreader
    let s ← if slot.now.present then do
        let (s, vcard) := s.vcardMake slot.now.mirrored
        let s ← s.vreaderInsertCard vreader vcard
        let s ← s.vcardEmulInitSeries vreader slot.isPresentThen slot.now.series
        s.vcardFree vcard
      else pure s
    s.vreaderFree (some vreader)

/-- The loop over the soft cards, with the readers that are not given back. -/
def initSofts : List (SoftReader γ) → CardProgram γ → List ℕ →
    Except Fault (CardProgram γ × List ℕ)
  | [], s, lost => .ok (s, lost)
  | o :: os, s, lost => do
    let (s, reader) ← s.vcardEmulInitSoft o
    initSofts os s (reader.toList ++ lost)

/-- Force a card removal even if the card is not physically removed. -/
def vcardEmulForceCardRemove (nssEmulInit : Bool) (vreader : ℕ) :
    Except Fault (CardProgram γ × VCardEmulError) := do
  if ¬ nssEmulInit then return (s, .fail)
  let (s, present) ← s.vreaderCardIsPresent vreader
  if present ≠ .ok then return (s, .fail)
  return (← s.vreaderInsertCard vreader none, .ok)

/-- Re-insert of a card that has been removed by force removal. -/
def vcardEmulForceCardInsert (nssEmulInit : Bool) (vreader : ℕ) (isPresent : Bool)
    (mirrored : Option γ) : Except Fault (CardProgram γ × VCardEmulError) := do
  if ¬ nssEmulInit then return (s, .fail)
  let (s, present) ← s.vreaderCardIsPresent vreader
  if present = .ok then return (s, .fail)
  let r ← s.readers.read vreader
  match r.item.savedVcard with
  | some saved =>
    let s ← s.vcardReference (some saved)
    let s ← s.vreaderInsertCard vreader (some saved)
    return (← s.vcardFree (some saved), .ok)
  | none =>
    -- physical card has been removed, not way to reinsert it
    if ¬ isPresent then return (s, .fail)
    let (s, vcard) := s.vcardMake mirrored
    let s ← s.vreaderInsertCard vreader vcard
    return (← s.vcardFree vcard, .ok)

/-- `insert_card` of the PC/SC emulation, for the reader of that name: it gives back neither its
own reference to the card nor, when it cannot connect, the reader. -/
def capcscInsertCard (reader : ℕ) (connects : Bool) (card : γ) :
    Except Fault (CardProgram γ × Option ℕ × Option ℕ) := do
  let s ← s.vreaderReference (some reader)
  if ¬ connects then return (s, some reader, none)
  let (s, vcard) := s.vcardNew card
  let s ← s.vreaderInsertCard reader (some vcard)
  return (← s.vreaderFree (some reader), none, some vcard)

/-- `new_reader` of the PC/SC emulation, whose readers have no `VReaderEmul`. -/
def capcscNewReader : Except Fault (CardProgram γ) := do
  let (s, vreader) := s.vreaderNew 0
  let s ← s.vreaderAddReader vreader
  s.vreaderFree (some vreader)

/-- `scan_for_readers` removes a reader that PC/SC no longer has. -/
def capcscGone (reader : ℕ) : Except Fault (CardProgram γ) := do
  let s ← s.vreaderReference (some reader)
  let s ← s.vreaderFree (some reader)
  s.vreaderRemoveReader reader

/-- `remove_card` of the PC/SC emulation -/
def capcscRemoveCard (reader : ℕ) : Except Fault (CardProgram γ) := do
  let s ← s.vreaderReference (some reader)
  let s ← s.vreaderInsertCard reader none
  s.vreaderFree (some reader)

end CardProgram

/-! ## The program and its callers -/

inductive EmulMode
  | nss
  | pcsc
  deriving DecidableEq, Repr

/-- What callers have: events they took, references to readers, and cards they use. `lostReaders`
and `lostCards` are references that nobody gives back any more. -/
structure EmulSystem (γ : Type) where
  program : CardProgram γ
  mode : Option EmulMode
  nssEmulInit : Bool
  events : List CardEvent
  held : List ℕ
  inUse : List ℕ
  lostReaders : List ℕ
  lostCards : List ℕ

def EmulSystem.start : EmulSystem γ := ⟨⟨[], [], [], []⟩, none, false, [], [], [], [], []⟩

/-- A call, or a pass of an event thread. An event is named by its place among those taken. -/
inductive EmulCall (γ : Type)
  | init (o : EmulInit γ)
  | tokenEvent (e : TokenNow γ)
  | forceRemove (reader : ℕ)
  | forceInsert (reader : ℕ) (isPresent : Bool) (mirrored : Option γ)
  | getReader (reader : ℕ)
  | freeReader (reader : ℕ)
  /-- a command or a reset begins -/
  | getCard (reader : ℕ)
  | useCard (card : ℕ) (f : γ → γ)
  /-- and ends -/
  | freeCard (card : ℕ)
  | cardIsPresent (reader : ℕ)
  | eventNext
  | eventDelete (event : ℕ)
  | replay
  | capcscNewReader
  | capcscInsert (reader : ℕ) (connects : Bool) (card : γ)
  | capcscRemove (reader : ℕ)
  | capcscGone (reader : ℕ)

inductive EmulOutput
  | none
  | init (e : EmulInitError)
  | forced (e : VCardEmulError)
  deriving DecidableEq, Repr

namespace EmulSystem

variable (y : EmulSystem γ)

/-- `vcard_emul_init` -/
def vcardEmulInit (o : EmulInit γ) : Except Fault (EmulInitError × EmulSystem γ) :=
  if y.mode ≠ none then .ok (.alreadyInited, y)
  else
    -- vreader_init and vevent_queue_init
    let y := { y with program := { y.program with list := [], queue := [] } }
    if o.passthru then
      let y := { y with mode := some .pcsc }
      .ok (if o.vreaders ≠ [] ∨ ¬ o.capcscInit then .fail else .ok, y)
    else
      let y := { y with mode := some .nss }
      if ¬ o.nssInit then .ok (.fail, y)
      else do
        let (s, lost) ← CardProgram.initSofts o.vreaders y.program y.lostReaders
        let y := { y with program := s, lostReaders := lost }
        let hasReaders := o.vreaders.any fun v => v.slot.isSome && v.certs
        if o.useHw = .no then
          return (if hasReaders then .ok else .fail, { y with nssEmulInit := hasReaders })
        else
          let s ← o.slots.foldlM (fun s slot => s.vcardEmulInitSlot o.useHw slot) y.program
          return (.ok, { y with program := s, nssEmulInit := true })

def done (s : CardProgram γ) : Except Fault (EmulOutput × EmulSystem γ) :=
  .ok (.none, { y with program := s })

def step (y : EmulSystem γ) : EmulCall γ → Except Fault (EmulOutput × EmulSystem γ)
  | .init o => do
    let (e, y) ← y.vcardEmulInit o
    return (.init e, y)
  | .tokenEvent e => do y.done (← y.program.vcardEmulEventThread e)
  | .forceRemove reader => do
    let (s, e) ← y.program.vcardEmulForceCardRemove y.nssEmulInit reader
    return (.forced e, { y with program := s })
  | .forceInsert reader isPresent mirrored => do
    let (s, e) ← y.program.vcardEmulForceCardInsert y.nssEmulInit reader isPresent mirrored
    return (.forced e, { y with program := s })
  | .getReader reader => do
    let s ← y.program.vreaderReference (some reader)
    return (.none, { y with program := s, held := reader :: y.held })
  | .freeReader reader => do
    let s ← y.program.vreaderFree (some reader)
    return (.none, { y with program := s, held := y.held.erase reader })
  | .getCard reader => do
    let (s, card) ← y.program.vreaderGetCard reader
    return (.none, { y with program := s, inUse := card.toList ++ y.inUse })
  | .useCard card f => do y.done (← y.program.vcardUse card f)
  | .freeCard card => do
    let s ← y.program.vcardFree (some card)
    return (.none, { y with program := s, inUse := y.inUse.erase card })
  | .cardIsPresent reader => do
    let (s, _) ← y.program.vreaderCardIsPresent reader
    y.done s
  | .eventNext =>
    match y.program.queue with
    | [] => .ok (.none, y)
    | e :: queue =>
      .ok (.none, { y with
        program := { y.program with queue := queue }, events := y.events ++ [e] })
  | .eventDelete event =>
    match y.events[event]? with
    | none => .error .badAddress
    | some e => do
      let s ← y.program.veventDelete e
      return (.none, { y with program := s, events := y.events.eraseIdx event })
  | .replay => do
    let s ← y.program.vcardEmulReplayInsertionEvents
    return (.none, { y with program := s, lostReaders := y.program.list ++ y.lostReaders })
  | .capcscNewReader => do y.done (← y.program.capcscNewReader)
  | .capcscInsert reader connects card => do
    let (s, lostReader, lostCard) ← y.program.capcscInsertCard reader connects card
    return (.none, { y with
      program := s
      lostReaders := lostReader.toList ++ y.lostReaders
      lostCards := lostCard.toList ++ y.lostCards })
  | .capcscRemove reader => do y.done (← y.program.capcscRemoveCard reader)
  | .capcscGone reader => do y.done (← y.program.capcscGone reader)

/-- The call names only what the caller may name: readers it has a reference to or that are
registered, and its own events and cards. The threads of the two emulations run when these were set
up. A reader that goes is alone in the list or at neither end of it. -/
def Proper : EmulCall γ → Prop
  | .tokenEvent _ => y.mode = some .nss
  | .forceRemove reader | .forceInsert reader _ _ | .getCard reader | .cardIsPresent reader =>
    reader ∈ y.held
  | .freeReader reader => reader ∈ y.held
  | .getReader reader => reader ∈ y.program.list
  | .useCard card _ | .freeCard card => card ∈ y.inUse
  | .eventDelete event => event < y.events.length
  | .capcscNewReader => y.mode = some .pcsc
  | .capcscInsert reader _ _ | .capcscRemove reader =>
    y.mode = some .pcsc ∧ reader ∈ y.program.list
  | .capcscGone reader => (y.mode = some .pcsc ∧ reader ∈ y.program.list)
    ∧ (y.program.list.head? = some reader ↔ y.program.list.getLast? = some reader)
  | .init _ | .eventNext | .replay => True

instance decidableProper (c : EmulCall γ) : Decidable (y.Proper c) :=
  match c with
  | .tokenEvent _ => inferInstanceAs (Decidable (y.mode = some .nss))
  | .forceRemove reader | .forceInsert reader _ _ | .getCard reader | .cardIsPresent reader
  | .freeReader reader => inferInstanceAs (Decidable (reader ∈ y.held))
  | .getReader reader => inferInstanceAs (Decidable (reader ∈ y.program.list))
  | .useCard card _ | .freeCard card => inferInstanceAs (Decidable (card ∈ y.inUse))
  | .eventDelete event => inferInstanceAs (Decidable (event < y.events.length))
  | .capcscNewReader => inferInstanceAs (Decidable (y.mode = some .pcsc))
  | .capcscInsert reader _ _ | .capcscRemove reader =>
    inferInstanceAs (Decidable (y.mode = some .pcsc ∧ reader ∈ y.program.list))
  | .capcscGone reader => inferInstanceAs (Decidable
    ((y.mode = some .pcsc ∧ reader ∈ y.program.list)
    ∧ (y.program.list.head? = some reader ↔ y.program.list.getLast? = some reader)))
  | .init _ | .eventNext | .replay => .isTrue trivial

/-- The references to readers: of the list, of events, of callers, and those that were lost. -/
def readerRefs : List ℕ :=
  y.program.list ++ (y.program.queue ++ y.events).map CardEvent.reader ++ y.held ++ y.lostReaders

/-- The references to cards but those that readers have. -/
def cardRefs : List ℕ :=
  (y.program.queue ++ y.events).flatMap (fun e => e.card.toList) ++ y.inUse ++ y.lostCards

/-- Each reader and each card is there just if there is a reference to it, and counts the
references. -/
structure CountsExact : Prop where
  readers : Counted.Exact y.program.readers y.readerRefs
  cards : Counted.Exact y.program.cards
    (Counted.owned EmulReader.owns y.program.readers ++ y.cardRefs)

/-! ## What callers see -/

/-- The event that a call takes from the queue. -/
def takes : EmulCall γ → List CardEvent
  | .eventNext => y.program.queue.take 1
  | _ => []

/-- The events that a run takes. -/
def taken : EmulSystem γ → List (EmulCall γ) → List CardEvent
  | _, [] => []
  | y, c :: cs => y.takes c ++
    match y.step c with
    | .ok (_, y) => y.taken cs
    | .error _ => []

/-- The registered readers of a slot. -/
def withSlot (slot : ℕ) : List ℕ :=
  y.program.list.filter fun reader =>
    match y.program.readers.read reader with
    | .ok r => r.item.slot = slot
    | .error _ => false

end EmulSystem

def eventsAbout (reader : ℕ) (events : List CardEvent) : List CardEvent :=
  events.filter fun e => e.reader = reader

/-- The events about a reader begin with the one that it is there, and the last of them tells the
card it has. -/
structure EventsTell (events : List CardEvent) (reader : ℕ) (card : Option ℕ) : Prop where
  first : (eventsAbout reader events).head? = some ⟨.readerInsert, reader, none⟩
  last : ∃ e, (eventsAbout reader events).getLast? = some e ∧ e.card = card
    ∧ (e.type = .cardInsert ↔ card.isSome)

end Libcacard
