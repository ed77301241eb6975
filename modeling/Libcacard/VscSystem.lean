import Libcacard.SocketRead

/-!
# Client and host

The host takes the client's messages in order. It answers each `VSC_ReaderAdd`, `VSC_ReaderRemove`
and `VSC_CardRemove` with one `VSC_Error`, sends other messages as it likes, and the client takes
all of them in order. The event threads run beside that, and readers and cards come and go.
-/

namespace Libcacard

open Machine

variable {σ : Type}

/-- A message of the host on its way, as the client will have it in its buffer, and what it
answers. -/
structure Incoming where
  header : VSCMsgHeader
  pbSendBuffer : ByteArr apduBufSize
  answers : Option Sent

/-- The code of a `VSC_Error`. -/
def Incoming.code (m : Incoming) : UInt32 := leUInt32 (m.pbSendBuffer.1.take 4)

def Incoming.IsError (m : Incoming) : Prop := m.header.type = VSCMsgType.error.value

instance (m : Incoming) : Decidable m.IsError := inferInstanceAs (Decidable (_ = _))

def Sent.IsReaderAdd (m : Sent) : Prop := m.header.type = VSCMsgType.readerAdd.value

instance (m : Sent) : Decidable m.IsReaderAdd := inferInstanceAs (Decidable (_ = _))

/-- The host answers this message. -/
def Sent.Answered (m : Sent) : Prop :=
  m.header.type ∈ [VSCMsgType.readerAdd.value, VSCMsgType.readerRemove.value,
    VSCMsgType.cardRemove.value]

instance (m : Sent) : Decidable m.Answered := inferInstanceAs (Decidable (_ ∈ _))

/-- `taken` messages of the client have got to the host. `answered` are the answers the client has
processed, with the message each is about, and `grants` the readers that `vreader_set_id` was
applied to, with the message whose answer was processed then. -/
structure VscSystem (σ : Type) where
  client : Client σ
  taken : ℕ
  incoming : List Incoming
  answered : List (Sent × UInt32)
  grants : List (ℕ × Option Sent)

def VscSystem.start (world : σ) : VscSystem σ := ⟨.start world, 0, [], [], []⟩

/-- The readers `vreader_set_id` is applied to when a message is processed. -/
def Client.grants (c : Client σ) (m : Incoming) : List (ℕ × Option Sent) :=
  if m.IsError ∧ m.code = VSCErrorCode.success then
    c.pendingReader.toList.map fun r => (r, m.answers)
  else []

inductive VscAction (σ : Type)
  /-- readers and cards come and go -/
  | event (event : VEvent)
  | world (world : σ)
  /-- an event thread goes on -/
  | thread (i : ℕ) (atr : Bytes)
  /-- the host takes a message, and answers it if it has to -/
  | answer (readerId length : UInt32) (buffer : ByteArr apduBufSize)
  | send (header : VSCMsgHeader) (buffer : ByteArr apduBufSize)
  /-- the client takes a message of the host -/
  | receive

/-- An action there is no way to take now has no result. -/
def VscSystem.step (readers : CardReaders σ) (s : VscSystem σ) : VscAction σ → Option (VscSystem σ)
  | .event event => some { s with client := { s.client with events := s.client.events ++ [event] } }
  | .world world => some { s with client := { s.client with world := world } }
  | .thread i atr => do
    let (thread, client) ← s.client.threadStep atr (← s.client.threads[i]?)
    return { s with client := { client with threads := client.threads.set i thread } }
  | .answer readerId length buffer => do
    let m ← s.client.sent[s.taken]?
    if m.Answered then
      return { s with
        taken := s.taken + 1
        incoming := s.incoming
          ++ [⟨⟨VSCMsgType.error.value, readerId, length⟩, buffer, some m⟩] }
    return { s with taken := s.taken + 1 }
  | .send header buffer =>
    if header.type = VSCMsgType.error.value then none
    else some { s with incoming := s.incoming ++ [⟨header, buffer, none⟩] }
  | .receive =>
    match s.incoming with
    | [] => none
    | m :: incoming =>
      match s.client.handle readers m.header m.pbSendBuffer.1 with
      | .error _ => none
      | .ok (_, client) =>
        some { s with
          client := client
          incoming := incoming
          answered := s.answered ++ m.answers.toList.map fun q => (q, m.code)
          grants := s.grants ++ s.client.grants m }

/-- If a reader is pending when the client processes a success, or a refusal because the host can
add no more readers, it answers a `VSC_ReaderAdd`. -/
def VscSystem.AnswersAdd (s : VscSystem σ) (a : VscAction σ) : Prop :=
  a = .receive → ∀ m ∈ s.incoming.head?, m.IsError →
    m.code = VSCErrorCode.success ∨ m.code = VSCErrorCode.cannotAddMoreReaders →
    s.client.pendingReader ≠ none → ∃ q ∈ m.answers, q.IsReaderAdd

instance (s : VscSystem σ) : ∀ a, Decidable (s.AnswersAdd a)
  | .receive => decidable_of_iff (∀ m ∈ s.incoming.head?, m.IsError →
      m.code = VSCErrorCode.success ∨ m.code = VSCErrorCode.cannotAddMoreReaders →
      s.client.pendingReader ≠ none → ∃ q ∈ m.answers, q.IsReaderAdd)
      ⟨fun h _ => h, fun h => h rfl⟩
  | .event _ | .world _ | .thread .. | .answer .. | .send .. => .isTrue fun h => by cases h

/-- The state after some actions, if all of them can be taken and meet a condition. -/
def VscSystem.follow (readers : CardReaders σ) (P : VscSystem σ → VscAction σ → Prop)
    [∀ s a, Decidable (P s a)] : VscSystem σ → List (VscAction σ) → Option (VscSystem σ)
  | s, [] => some s
  | s, a :: as => if P s a then (s.step readers a).bind (follow readers P · as) else none

/-- The states of runs whose steps all meet a condition. -/
inductive VscReachable (readers : CardReaders σ) (P : VscSystem σ → VscAction σ → Prop) :
    VscSystem σ → Prop
  | start (world : σ) : VscReachable readers P (.start world)
  | step {s s' : VscSystem σ} {a : VscAction σ} (h : VscReachable readers P s) (hP : P s a)
    (hs : s.step readers a = some s') : VscReachable readers P s'

/-- Ids are granted by the reply to the reader's own `VSC_ReaderAdd`: a reader that got one was
told so, and one that never was told so has no id, and nothing but its `VSC_ReaderAdd` was sent for
it. -/
structure VscSystem.OwnGrants (s : VscSystem σ) : Prop where
  grants : ∀ g ∈ s.grants, ∃ m, g.2 = some m ∧ m.IsReaderAdd ∧ m.about = some g.1
    ∧ (m, VSCErrorCode.success) ∈ s.answered
  refused : ∀ r, (∀ m code, (m, code) ∈ s.answered → m.IsReaderAdd → m.about = some r →
      code ≠ VSCErrorCode.success) →
    s.client.readerId r = vscardUndefinedReaderId
      ∧ ∀ m ∈ s.client.sent, m.about = some r → m.IsReaderAdd

end Libcacard
