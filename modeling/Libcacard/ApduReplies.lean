import Libcacard.Transfer
import Libcacard.VReaderList

/-!
# Replies to the host's commands

A `VSC_APDU` names a reader. `do_socket_read` looks it up, hands the command to its card, and sends
what came of that.
-/

namespace Libcacard

open Machine

variable {τ σ : Type}

/-- The registered readers and the cards in them. -/
structure ReaderWorld (τ : Type) where
  readers : Readers ℕ
  card : ℕ → Option (VCard τ)

/-- `vreader_xfr_bytes` for the reader that was looked up, whose lock it takes first. -/
def ReaderWorld.xfrBytes (emul : Emul τ) (w : ReaderWorld τ) (reader : Option ℕ) (command : Bytes) :
    Except Fault (VReaderStatus × Bytes × ReaderWorld τ) :=
  match reader with
  | none => .error .nullPointer
  | some reader => do
    let x ← vreaderXfrBytes emul (w.card reader) command apduBufSize
    return (x.status, x.receiveBuf.take x.receiveBufLen,
      { w with card := Function.update w.card reader x.card })

/-- `case VSC_APDU` -/
def Client.onApduMessage (emul : Emul τ) (c : Client (ReaderWorld τ)) (h : VSCMsgHeader)
    (command : Bytes) : Except Fault (Client (ReaderWorld τ)) := do
  let reader ← vreaderGetReaderById c.world.readers c.readerId h.readerId
  let (status, reply, world) ← c.world.xfrBytes emul reader command
  let c := { c with world := world }
  if status = .ok then return c.sendMsg .apdu h.readerId reply none
  else return c.sendMsg .error h.readerId status.bytes none

/-- The readers as the client sees them, as long as nothing goes wrong. -/
def CardReaders.ofWorld (emul : Emul τ) : CardReaders (ReaderWorld τ) where
  xfrBytes w readerId id command :=
    match vreaderGetReaderById w.readers readerId id >>= fun reader =>
      w.xfrBytes emul reader command with
    | .ok r => r
    | .error _ => (.noCard, [], w)

/-- The switch over the type of a message. -/
def Client.dispatch (emul : Emul τ) (c : Client (ReaderWorld τ)) (h : VSCMsgHeader)
    (pbSendBuffer : Bytes) : Except Fault (Bool × Client (ReaderWorld τ)) :=
  if h.type = VSCMsgType.apdu.value then do
    let command ← readBytes pbSendBuffer 0 h.length.toNat
    return (true, ← c.onApduMessage emul h command)
  else c.handle (.ofWorld emul) h pbSendBuffer

/-- `do_socket_read`, with a switch over the types -/
def doSocketReadBy (dispatch : Client σ → VSCMsgHeader → Bytes → Except Fault (Bool × Client σ))
    (c : VscClient σ) : Except Fault (SocketRead × VscClient σ) := do
  let s := c.socket.enter
  let br := min s.toRead c.unread.length
  let s ← s.read (c.unread.take br)
  let unread := c.unread.drop br
  if s.toRead ≠ 0 then return (⟨true, none⟩, ⟨s, c.client, unread⟩)
  match s.state with
  | .header => return (⟨s.onHeader.1, none⟩, ⟨s.onHeader.2, c.client, unread⟩)
  | .message =>
    let m : Message := ⟨s.mhHeader, s.pbSendBuffer.1.take s.mhHeader.length.toNat⟩
    let (goesOn, client) ← dispatch c.client s.mhHeader s.pbSendBuffer.1
    let s := if goesOn then { s with state := .header } else s
    return (⟨goesOn, some m⟩, ⟨s, client, unread⟩)

theorem doSocketRead_eq (readers : CardReaders σ) :
    doSocketRead readers = doSocketReadBy fun c => c.handle readers := rfl

/-! ## What is meant to hold -/

/-- The first registered reader with the id, which the undefined id is none of. -/
def Client.readerWithId (c : Client σ) (registered : List ℕ) (id : UInt32) : Option ℕ :=
  if id = vreaderNoId then none else registered.find? fun r => c.readerId r = id

/-- A message is answered with the card's whole answer, or with an error if there is no card. -/
structure AnswersApdu (emul : Emul τ) (card : Option (VCard τ)) (m : Message) (reply : Sent) :
    Prop where
  readerId : (VSCMsgHeader.decode reply.header.encode).readerId = m.header.readerId
  length : reply.header.length.toNat = reply.payload.length
  answer : ∀ card', card = some card' → reply.header.type = VSCMsgType.apdu.value
    ∧ XfrWhole emul card' m.payload
    ∧ ∃ x, vreaderXfrBytes emul (some card') m.payload apduBufSize = .ok x
      ∧ reply.payload = x.receiveBuf
  error : card = none → reply.header.type = VSCMsgType.error.value

/-- A call that completes a message queues one message, which answers it. -/
def RepliesTo (emul : Emul τ) (registered : List ℕ) (c : VscClient (ReaderWorld τ)) (m : Message) :
    Prop :=
  ∃ r c' reply, doSocketReadBy (Client.dispatch emul) c = .ok (r, c') ∧ r.dispatched = some m
    ∧ c'.client.sent = c.client.sent ++ [reply]
    ∧ AnswersApdu emul ((c.client.readerWithId registered m.header.readerId).bind
      c.client.world.card) m reply

end Libcacard
