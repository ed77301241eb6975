import Libcacard.Lib.Run
import Libcacard.VscClient

/-!
# Reading messages from the socket

`do_socket_read` keeps what it has read so far in static variables, so a message may come in any
number of pieces. Each call reads what there is, up to what the header or the message still needs.
-/

namespace Libcacard

open Machine

variable {σ : Type}

def apduBufSize : ℕ := 270

inductive SocketPhase
  | header
  | message
  deriving DecidableEq, Repr

/-- The static variables. `buf` is an offset into the header while that is read, and into
`pbSendBuffer` while the message is. The header's numbers stand beside the bytes they came in. -/
structure SocketReader where
  state : SocketPhase
  inMessage : Bool
  buf : ℕ
  toRead : ℕ
  headerBytes : ByteArr sizeofVSCMsgHeader
  mhHeader : VSCMsgHeader
  pbSendBuffer : ByteArr apduBufSize

def SocketReader.start : SocketReader :=
  ⟨.header, false, 0, 0, ⟨List.replicate sizeofVSCMsgHeader 0, by simp⟩, ⟨0, 0, 0⟩,
    ⟨List.replicate apduBufSize 0, by simp⟩⟩

namespace SocketReader

/-- The size of what `buf` points into. -/
def room (s : SocketReader) : ℕ := if s.inMessage then apduBufSize else sizeofVSCMsgHeader

/-- `g_io_channel_read_chars` into `buf`. -/
def readChars (s : SocketReader) (bytes : Bytes) : Except Fault SocketReader :=
  if s.inMessage then
    if h : s.buf + bytes.length ≤ apduBufSize then
      .ok { s with
        pbSendBuffer := s.pbSendBuffer.write s.buf bytes h
        buf := s.buf + bytes.length, toRead := s.toRead - bytes.length }
    else .error .outOfBounds
  else
    if h : s.buf + bytes.length ≤ sizeofVSCMsgHeader then
      .ok { s with
        headerBytes := s.headerBytes.write s.buf bytes h
        buf := s.buf + bytes.length, toRead := s.toRead - bytes.length }
    else .error .outOfBounds

/-- Nothing is read when nothing is waited for. -/
def read (s : SocketReader) (bytes : Bytes) : Except Fault SocketReader :=
  if 0 < s.toRead then s.readChars bytes else .ok s

/-- The start of a call: a header is read next if nothing is under way. -/
def enter (s : SocketReader) : SocketReader :=
  if s.state = .header ∧ s.toRead = 0 then
    { s with inMessage := false, buf := 0, toRead := sizeofVSCMsgHeader }
  else s

/-- After the header: a message is read next if the type is known. -/
def onHeader (s : SocketReader) : Bool × SocketReader :=
  let mhHeader := VSCMsgHeader.decode s.headerBytes.1
  if mhHeader.Handled then
    (true, { s with
      mhHeader := mhHeader, inMessage := true, buf := 0, toRead := mhHeader.length.toNat
      state := .message })
  else (false, { s with mhHeader := mhHeader })

end SocketReader

/-- A message the switch over the types got. -/
structure Message where
  header : VSCMsgHeader
  payload : Bytes
  deriving DecidableEq, Repr

/-- The message as the host sends it. -/
def Message.encode (m : Message) : Bytes := m.header.encode ++ m.payload

/-- What a call does: whether the function goes on, and the message it dispatched. -/
structure SocketRead where
  result : Bool
  dispatched : Option Message
  deriving DecidableEq, Repr

/-- The client on its socket: `unread` is what has come in and was not read yet. -/
structure VscClient (σ : Type) where
  socket : SocketReader
  client : Client σ
  unread : Bytes

def VscClient.start (world : σ) : VscClient σ := ⟨.start, .start world, []⟩

/-- `do_socket_read` -/
def doSocketRead (readers : CardReaders σ) (c : VscClient σ) :
    Except Fault (SocketRead × VscClient σ) := do
  let s := c.socket.enter
  let br := min s.toRead c.unread.length
  let s ← s.read (c.unread.take br)
  let unread := c.unread.drop br
  if s.toRead ≠ 0 then return (⟨true, none⟩, ⟨s, c.client, unread⟩)
  match s.state with
  | .header => return (⟨s.onHeader.1, none⟩, ⟨s.onHeader.2, c.client, unread⟩)
  | .message =>
    let m : Message := ⟨s.mhHeader, s.pbSendBuffer.1.take s.mhHeader.length.toNat⟩
    let (goesOn, client) ← c.client.handle readers s.mhHeader s.pbSendBuffer.1
    let s := if goesOn then { s with state := .header } else s
    return (⟨goesOn, some m⟩, ⟨s, client, unread⟩)

/-- What happens to the client on its socket. -/
inductive SocketEvent
  | arrive (piece : Bytes)
  | call
  deriving DecidableEq, Repr

def socketStep (readers : CardReaders σ) (c : VscClient σ) :
    SocketEvent → Except Fault (Option SocketRead × VscClient σ)
  | .arrive piece => .ok (none, { c with unread := c.unread ++ piece })
  | .call => do
    let (r, c) ← doSocketRead readers c
    return (some r, c)

/-! ## Staying inside the buffers -/

/-- What is still to be read fits where it is read to. -/
def VscClient.InBounds (c : VscClient σ) : Prop :=
  c.socket.buf + c.socket.toRead ≤ c.socket.room

/-- The header a call completes with what has come in. -/
def VscClient.headerRead (c : VscClient σ) : Option VSCMsgHeader :=
  let s := c.socket.enter
  if s.state = .header ∧ s.toRead ≤ c.unread.length then
    some (.decode (splice s.headerBytes.1 s.buf (c.unread.take s.toRead)))
  else none

/-- The header and the buffer of the message a call completes with what has come in. -/
def VscClient.messageRead (c : VscClient σ) : Option (VSCMsgHeader × Bytes) :=
  let s := c.socket.enter
  if s.state = .message ∧ s.toRead ≤ c.unread.length then
    some (s.mhHeader, splice s.pbSendBuffer.1 s.buf (c.unread.take s.toRead))
  else none

/-- A message fits `pbSendBuffer`, and a `VSC_Init` with the magic announces one capability at
most. -/
structure VscClient.Fits (c : VscClient σ) : Prop where
  length : ∀ h ∈ c.headerRead, h.Handled → h.length.toNat ≤ apduBufSize
  capabilities : ∀ m ∈ c.messageRead, m.1.type = VSCMsgType.init.value →
    m.2.take 4 = vscardMagic → m.1.length.toNat < 16

/-! ## Streams of messages -/

/-- A complete message of a known type that `pbSendBuffer` has room for. -/
structure Message.WellFormed (m : Message) : Prop where
  handled : m.header.Handled
  length : m.header.length.toNat = m.payload.length
  length_le : m.payload.length ≤ apduBufSize

/-- A `VSC_Init` with the magic announces one capability at most. -/
def Message.OneCapability (m : Message) : Prop :=
  m.header.type = VSCMsgType.init.value → m.payload.take 4 = vscardMagic → m.payload.length < 16

/-- The bytes that come in. -/
def arrived (events : List SocketEvent) : Bytes :=
  (events.map fun | .arrive piece => piece | .call => []).flatten

/-- Pieces are not empty, and the function is called when there is something to read. -/
def Prompt (c : VscClient σ) : SocketEvent → Prop
  | .arrive piece => piece ≠ []
  | .call => c.unread ≠ []

instance (c : VscClient σ) : ∀ ev, Decidable (Prompt c ev)
  | .arrive piece => inferInstanceAs (Decidable (piece ≠ []))
  | .call => inferInstanceAs (Decidable (c.unread ≠ []))

/-- Messages as they are sent one after the other. -/
def encodeAll (ms : List Message) : Bytes := (ms.map Message.encode).flatten

/-- The messages that were dispatched, in order. -/
def dispatchedIn (os : List (Option SocketRead)) : List Message :=
  os.filterMap fun o => o.bind SocketRead.dispatched

end Libcacard
