import Libcacard.CardAtr
import Libcacard.Lib.Simulation
import Libcacard.MainLoop

/-!
# Client and host over a stream of bytes

The client writes its messages as bytes, as many at a time as the socket takes, and the host's
bytes arrive in pieces. The host takes a message once all of it has come. Beside the bytes the
state keeps which messages they are and what each answers, and with that it is seen as client and
host that exchange whole messages.

The calls that a callback of the main loop makes, those of the event threads and what the host does
come in any order. The host sends only messages that fit the client's buffers and does not close the
socket.
-/

namespace Libcacard

open Machine

variable {σ : Type}

/-- A message of the host, and what it answers. -/
structure Coming where
  message : Message
  answers : Option Sent
  deriving DecidableEq, Repr

/-- A buffer that starts with these bytes, or with as many of them as it has room for. -/
def apduBuffer (b : Bytes) : ByteArr apduBufSize :=
  ⟨(b ++ List.replicate apduBufSize 0).take apduBufSize, by simp⟩

/-- The message as the client has it in its buffer. -/
def Coming.incoming (m : Coming) : Incoming :=
  ⟨m.message.header, apduBuffer m.message.payload, m.answers⟩

/-- A message the host may send: it is complete, and the parts that the client reads of a
`VSC_Error` and of a `VSC_Init` are there. -/
structure Message.Proper (m : Message) : Prop where
  wellFormed : m.WellFormed
  error : m.header.type = VSCMsgType.error.value → 4 ≤ m.payload.length
  init : m.header.type = VSCMsgType.init.value → m.payload.length = sizeofVSCMsgInit

instance Message.decidableProper (m : Message) : Decidable m.Proper :=
  decidable_of_iff ((m.header.Handled ∧ m.header.length.toNat = m.payload.length
      ∧ m.payload.length ≤ apduBufSize)
      ∧ (m.header.type = VSCMsgType.error.value → 4 ≤ m.payload.length)
      ∧ (m.header.type = VSCMsgType.init.value → m.payload.length = sizeofVSCMsgInit))
    ⟨fun h => ⟨⟨h.1.1, h.1.2.1, h.1.2.2⟩, h.2.1, h.2.2⟩,
      fun h => ⟨⟨h.1.1, h.1.2, h.1.3⟩, h.2, h.3⟩⟩

/-- The call took a message, and did not reject it. -/
def SocketRead.Took (r : SocketRead) : Prop := r.dispatched ≠ none ∧ r.result = true

instance SocketRead.decidableTook (r : SocketRead) : Decidable r.Took :=
  inferInstanceAs (Decidable (_ ∧ _))

/-- The main loop and the host. `toClient` has the bytes of the host that have not arrived,
`coming` the messages that the client has not taken, and `got` those the host has taken.
`answered` and `grants` are as in `VscSystem`. -/
structure Link (σ : Type) where
  loop : MainLoop σ
  toClient : Bytes
  coming : List Coming
  got : List Message
  answered : List (Sent × UInt32)
  grants : List (ℕ × Option Sent)

namespace Link

variable (k : Link σ)

def start (world : σ) : Link σ := ⟨.start world, [], [], [], [], []⟩

def client : Client σ := k.loop.vsc.client

/-- Everything given to `send_msg`. -/
def sent : List Sent := initSent :: k.client.sent

/-- Client and host as they exchange messages, which leaves out the client's `VSC_Init`. -/
def view : VscSystem σ :=
  ⟨k.client, k.got.length - 1, k.coming.map Coming.incoming, k.answered, k.grants⟩

/-- The host sends a message. -/
def hostSends (m : Message) (answers : Option Sent) : Link σ :=
  { k with toClient := k.toClient ++ m.encode, coming := k.coming ++ [⟨m, answers⟩] }

/-- What is kept of a message the client took, as `k` was before that. -/
def took (loop : MainLoop σ) : Link σ :=
  match k.coming with
  | [] => { k with loop := loop }
  | m :: coming => { k with
      loop := loop
      coming := coming
      answered := k.answered ++ m.answers.toList.map fun q => (q, m.incoming.code)
      grants := k.grants ++ k.client.grants m.incoming }

end Link

inductive LinkAction (σ : Type)
  /-- readers and cards come and go -/
  | event (event : VEvent)
  | world (world : σ)
  /-- an event thread goes on -/
  | thread (i : ℕ) (atr : Bytes)
  /-- the thread that has `socket_to_send_lock` makes its next call -/
  | sends
  /-- the main loop runs `socket_prepare_sending` -/
  | idle
  /-- a watch fires -/
  | fire (i : ℕ) (out readable : Bool) (bw : ℕ)
  /-- the callback goes on -/
  | goesOn
  /-- the host takes a message, and answers it if it has to -/
  | answer (readerId : UInt32) (payload : Bytes)
  | send (m : Message)
  /-- bytes of the host arrive -/
  | arrive (n : ℕ)

/-- The host answers this message. -/
def Message.Answered (m : Message) : Prop := (⟨m.header, m.payload, none⟩ : Sent).Answered

instance Message.decidableAnswered (m : Message) : Decidable m.Answered :=
  inferInstanceAs (Decidable (Sent.Answered _))

/-- The `VSC_Error` that answers a message. -/
def errorMessage (readerId : UInt32) (payload : Bytes) : Message :=
  ⟨⟨VSCMsgType.error.value, readerId, UInt32.ofNat payload.length⟩, payload⟩

/-- An action there is no way to take now has no result. -/
def Link.step (readers : CardReaders σ) (k : Link σ) : LinkAction σ → Option (Link σ)
  | .event event =>
    some { k with loop := { k.loop with vsc := { k.loop.vsc with
      client := { k.client with events := k.client.events ++ [event] } } } }
  | .world world =>
    some { k with loop := { k.loop with vsc := { k.loop.vsc with
      client := { k.client with world := world } } } }
  | .thread i atr =>
    if maxAtrLen < atr.length then none
    else do
      let (thread, client) ← k.client.threadStep atr (← k.client.threads[i]?)
      let vsc := { k.loop.vsc with
        client := { client with threads := client.threads.set i thread } }
      if k.loop.MayGoOn i vsc then return { k with loop := k.loop.threadGoesOn i vsc } else none
  | .sends =>
    match k.loop.sending with
    | [] => none
    | call :: calls => some { k with loop := { k.loop.sendCall call with sending := calls } }
  | .idle =>
    if k.loop.callback ≠ .none ∨ k.loop.idles = 0 then none
    else some { k with loop := k.loop.socketPrepareSending }
  | .fire i out readable bw =>
    match k.loop.watches[i]? with
    | none => none
    | some w =>
      if k.loop.MayFire w out readable then
        some { k with loop := k.loop.doSocket w out readable bw }
      else none
  | .goesOn =>
    if k.loop.callback = .none then none
    else do
      let (r, loop) ← (k.loop.goesOn readers).toOption
      if k.loop.HasLock loop.vsc then
        return if r.Took then k.took loop else { k with loop := loop }
      else none
  | .answer readerId payload => do
    let (m, toHost) ← Message.take k.loop.toHost
    let q := k.sent[k.got.length]?
    let k := { k with loop := { k.loop with toHost := toHost }, got := k.got ++ [m] }
    if m.Answered then
      if (errorMessage readerId payload).Proper then
        return k.hostSends (errorMessage readerId payload) q
      else none
    else return k
  | .send m =>
    if m.Proper ∧ m.header.type ≠ VSCMsgType.error.value then some (k.hostSends m none) else none
  | .arrive n => some { k with
      toClient := k.toClient.drop n
      loop := { k.loop with vsc :=
        { k.loop.vsc with unread := k.loop.vsc.unread ++ k.toClient.take n } } }

/-- The step of client and host that exchange messages that an action is, if it is one. -/
def Link.label (readers : CardReaders σ) (k : Link σ) : LinkAction σ → Option (VscAction σ)
  | .event event => some (.event event)
  | .world world => some (.world world)
  | .thread i atr => some (.thread i atr)
  | .sends | .idle | .fire .. => none
  | .goesOn =>
    match (k.loop.goesOn readers).toOption with
    | some (r, _) => if r.Took then some .receive else none
    | none => none
  | .answer readerId payload =>
    if k.got = [] then none
    else some (.answer readerId (UInt32.ofNat payload.length) (apduBuffer payload))
  | .send m => some (.send m.header (apduBuffer m.payload))
  | .arrive _ => none

end Libcacard
