import Libcacard.VEvent
import Libcacard.VscCommon
import Mathlib.Logic.Function.Basic

/-!
# The VSC client

The main loop handles the host's messages and the event threads tell the host of readers and
cards. They share one slot for the reader whose `VSC_ReaderAdd` the host has not answered. A
reader is known by a number, and `σ` is what the program holds besides: the cards, the list of
readers.
-/

namespace Libcacard

open Machine

variable {σ : Type}

inductive VReaderStatus
  | ok
  | noCard
  | outOfMemory
  deriving DecidableEq, Repr

/-- `rv = reader_status`, as it lies in memory. -/
def VReaderStatus.bytes : VReaderStatus → Bytes
  | ok => [0, 0, 0, 0]
  | noCard => [1, 0, 0, 0]
  | outOfMemory => [2, 0, 0, 0]

/-- What the readers do for the client: the status and the bytes `vreader_xfr_bytes` gives for a
command to the reader that `vreader_get_reader_by_id` finds. -/
structure CardReaders (σ : Type) where
  xfrBytes : σ → (ℕ → UInt32) → UInt32 → Bytes → VReaderStatus × Bytes × σ

/-- Where an event thread is. -/
inductive EventThread
  /-- waiting for the next event -/
  | idle
  /-- an event was taken -/
  | taken (event : VEvent)
  /-- the reader had no id, the pending reader is looked at next -/
  | unknown (event : VEvent)
  /-- the host is still deciding on this reader -/
  | deciding (event : VEvent)
  /-- the host has decided, the id is looked at again -/
  | decided (event : VEvent)
  /-- the event is forwarded -/
  | forwarding (event : VEvent) (readerId : UInt32)
  /-- the reader is pending, `VSC_ReaderAdd` is sent next -/
  | adding (event : VEvent) (readerId : UInt32)
  deriving DecidableEq, Repr

/-- A message of the client, and the reader it is about, which the message itself does not tell. -/
structure Sent where
  header : VSCMsgHeader
  payload : Bytes
  about : Option ℕ
  deriving DecidableEq, Repr

/-- `sent` has what was given to `send_msg` since the start. -/
structure Client (σ : Type) where
  pendingReader : Option ℕ
  readerId : ℕ → UInt32
  sent : List Sent
  events : List VEvent
  threads : List EventThread
  world : σ

/-- The client before the host's first message. -/
def Client.start (world : σ) : Client σ :=
  ⟨none, fun _ => vscardUndefinedReaderId, [], [], [], world⟩

/-- `send_msg`: the header it writes has the number 0 for the reader, whatever it was given. -/
def Client.sendMsg (c : Client σ) (type : VSCMsgType) (_readerId : UInt32) (msg : Bytes)
    (about : Option ℕ) : Client σ :=
  { c with sent :=
      c.sent ++ [⟨⟨type.value, 0, UInt32.ofNat msg.length⟩, msg, about⟩] }

/-! ## The host's first message -/

/-- The local copy of a `VSCMsgInit`, which has one capability. -/
structure VSCMsgInit where
  magic : Bytes
  version : UInt32
  capabilities : List UInt32
  deriving DecidableEq, Repr

def VSCMsgInit.ofBytes (b : Bytes) : VSCMsgInit :=
  ⟨b.take 4, leUInt32 ((b.drop 4).take 4), [leUInt32 ((b.drop 8).take 4)]⟩

/-- `1 + ((length - sizeof(VSCMsgInit)) / sizeof(uint32_t))`, as an `int`. -/
def numCapabilities (length : UInt32) : ℤ :=
  toInt32 (toSize (1 + (toSize ((length.toNat : ℤ) - sizeofVSCMsgInit) / 4 : ℕ)))

/-- The loop over the capabilities from `i` on, `n` of them. -/
def ntohlCapabilities : ℕ → ℕ → List UInt32 → Except Fault (List UInt32)
  | 0, _, capabilities => .ok capabilities
  | n + 1, i, capabilities =>
    match capabilities[i]? with
    | none => .error .outOfBounds
    | some c => ntohlCapabilities n (i + 1) (capabilities.set i (ntohl c))

/-- `on_host_init` on the message: what it makes of it, or `none` if it rejects it. -/
def onHostInit (length : UInt32) (incoming : VSCMsgInit) : Except Fault (Option VSCMsgInit) :=
  let incoming := { incoming with version := ntohl incoming.version }
  if incoming.magic ≠ vscardMagic then .ok none
  else do
    let capabilities ← ntohlCapabilities (numCapabilities length).toNat 0 incoming.capabilities
    return some { incoming with capabilities := capabilities }

/-! ## The messages of the host -/

/-- `case VSC_APDU` -/
def Client.onApdu (readers : CardReaders σ) (c : Client σ) (h : VSCMsgHeader) (command : Bytes) :
    Client σ :=
  let (status, reply, world) := readers.xfrBytes c.world c.readerId h.readerId command
  let c := { c with world := world }
  if status = .ok then c.sendMsg .apdu h.readerId reply none
  else c.sendMsg .error h.readerId status.bytes none

/-- `case VSC_Error` -/
def Client.onError (c : Client σ) (h : VSCMsgHeader) (code : UInt32) : Client σ :=
  if code = VSCErrorCode.success then
    match c.pendingReader with
    | some r =>
      { c with readerId := Function.update c.readerId r h.readerId, pendingReader := none }
    | none => c
  -- clear pending reader, qemu can't handle any more
  else if code = VSCErrorCode.cannotAddMoreReaders then { c with pendingReader := none }
  else c

/-- The switch over the type of a message that has been read into `pbSendBuffer`, and whether
`do_socket_read` goes on after it. -/
def Client.handle (readers : CardReaders σ) (c : Client σ) (h : VSCMsgHeader) (pbSendBuffer : Bytes) :
    Except Fault (Bool × Client σ) :=
  if h.type = VSCMsgType.apdu.value then do
    let command ← readBytes pbSendBuffer 0 h.length.toNat
    return (true, c.onApdu readers h command)
  else if h.type = VSCMsgType.flush.value then
    return (true, c.sendMsg .flushComplete h.readerId [] none)
  else if h.type = VSCMsgType.error.value then do
    let code ← readBytes pbSendBuffer 0 4
    return (true, c.onError h (leUInt32 code))
  else if h.type = VSCMsgType.init.value then do
    let init ← readBytes pbSendBuffer 0 sizeofVSCMsgInit
    match ← onHostInit h.length (.ofBytes init) with
    | none => return (false, c)
    | some _ =>
      let c := c.sendMsg .readerRemove vscardMinimalReaderId [] none
      return (true, { c with threads := c.threads ++ [.idle] })
  else throw .assertion

/-! ## The event thread -/

/-- One step of an event thread; there is none while it has to wait. `atr` is what
`vreader_power_on` left in the thread's buffer. -/
def Client.threadStep (c : Client σ) (atr : Bytes) :
    EventThread → Option (EventThread × Client σ)
  | .idle =>
    match c.events with
    | [] => none
    | event :: events => some (.taken event, { c with events := events })
  | .taken event =>
    let readerId := c.readerId event.reader
    if readerId = vscardUndefinedReaderId ∧ event.type ≠ .readerInsert then
      some (.unknown event, c)
    else some (.forwarding event readerId, c)
  | .unknown event =>
    if c.pendingReader = some event.reader then some (.deciding event, c)
    -- this reader has already been rejected
    else some (.idle, c)
  | .deciding event => if c.pendingReader = none then some (.decided event, c) else none
  | .decided event =>
    let readerId := c.readerId event.reader
    if readerId = vscardUndefinedReaderId then some (.idle, c)
    else some (.forwarding event readerId, c)
  | .forwarding event readerId =>
    match event.type with
    | .readerInsert =>
      if c.pendingReader = none then
        some (.adding event readerId, { c with pendingReader := some event.reader })
      else none
    | .readerRemove => some (.idle, c.sendMsg .readerRemove readerId [] (some event.reader))
    | .cardInsert => some (.idle, c.sendMsg .atr readerId atr (some event.reader))
    | .cardRemove => some (.idle, c.sendMsg .cardRemove readerId [] (some event.reader))
    | .last => some (.idle, c)
  | .adding event readerId =>
    some (.idle, c.sendMsg .readerAdd readerId [] (some event.reader))

end Libcacard
