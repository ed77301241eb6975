import Libcacard.SocketRead

/-!
# Sending on the socket

`send_msg` puts a message behind the bytes to send and has the main loop look at them. The main
loop watches the socket for room to write only while there are bytes to send, and each time the
watch fires it writes as much as the socket takes.

`send_msg` holds `socket_to_send_lock`, but `do_socket_send` and `update_socket_watch` do not take
it. So a callback of the main loop and `send_msg` are given here call by call, and other threads go
on between two calls; a single call on `socket_to_send` or on the socket is one step.
-/

namespace Libcacard

open Machine

variable {σ : Type}

/-- A message given to `send_msg`, as the host gets it. -/
def Sent.message (m : Sent) : Message := ⟨m.header, m.payload⟩

/-- The `VSC_Init` that `main` sends. -/
def initSent : Sent :=
  ⟨⟨VSCMsgType.init.value, 0, 12⟩, vscardMagic ++ htonl vscardVersion ++ [0, 0, 0, 0], none⟩

/-- A call that `send_msg` makes: `g_byte_array_append`, or `g_idle_add`. -/
inductive SendCall
  | append (b : Bytes)
  | idleAdd
  deriving DecidableEq, Repr

/-- `send_msg` -/
def Message.sendMsg (m : Message) : List SendCall :=
  [.append m.header.encode, .append m.payload, .idleAdd]

/-- What a call appends. -/
def SendCall.bytes : SendCall → Bytes
  | append b => b
  | idleAdd => []

/-- A watch on the socket: its id, and whether it is for writing besides reading. -/
structure Watch where
  tag : ℕ
  out : Bool
  deriving DecidableEq, Repr

/-- Where the main loop is in a callback. -/
inductive Callback
  /-- there is none under way -/
  | none
  /-- in `do_socket_send`, so many bytes were written -/
  | wrote (w : Watch) (readable : Bool) (bw : ℕ)
  /-- and removed from `socket_to_send` -/
  | removed (w : Watch) (readable : Bool)
  /-- in `do_socket`, before `do_socket_read` -/
  | reads (w : Watch)
  /-- in `update_socket_watch`, which `do_socket_send` calls for a watch that fired, and
  `socket_prepare_sending` for none -/
  | updates (w : Option Watch)
  /-- and `out` was computed -/
  | looked (w : Option Watch) (out : Bool)
  deriving DecidableEq, Repr

/-- The client with its main loop. `idles` callbacks of `g_idle_add` have not run yet, `nextTag`
is what the next source gets as its id, and `toHost` has the bytes that were written and that the
host has not taken. The event thread `sender` has `socket_to_send_lock` while it has the calls
`sending` to make. -/
structure MainLoop (σ : Type) where
  vsc : VscClient σ
  socketToSend : Bytes
  idles : ℕ
  socketTag : ℕ
  watches : List Watch
  nextTag : ℕ
  toHost : Bytes
  callback : Callback
  sending : List SendCall
  sender : ℕ

namespace MainLoop

variable (s : MainLoop σ)

def sendCall : SendCall → MainLoop σ
  | .append b => { s with socketToSend := s.socketToSend ++ b }
  | .idleAdd => { s with idles := s.idles + 1 }

/-- What the client gives to `send_msg` as it goes on. -/
def newCalls (vsc : VscClient σ) : List SendCall :=
  ((vsc.client.sent.drop s.vsc.client.sent.length).map Sent.message).flatMap Message.sendMsg

/-- The main thread went on, and made its calls of `send_msg`. It has the lock for them, and nobody
else looks at the bytes to send. -/
def goOn (vsc : VscClient σ) : MainLoop σ := (s.newCalls vsc).foldl sendCall { s with vsc := vsc }

/-- An event thread went on, and has its calls of `send_msg` to make. -/
def threadGoesOn (i : ℕ) (vsc : VscClient σ) : MainLoop σ :=
  if s.newCalls vsc = [] then { s with vsc := vsc }
  else { s with vsc := vsc, sending := s.newCalls vsc, sender := i }

/-- Nobody else has the lock, if it is needed. -/
def HasLock (vsc : VscClient σ) : Prop := s.sending = [] ∨ s.newCalls vsc = []

/-- A thread goes on when it has made its calls. -/
def MayGoOn (i : ℕ) (vsc : VscClient σ) : Prop :=
  (s.sending = [] ∨ s.sender ≠ i) ∧ s.HasLock vsc

/-- `main`, up to the main loop -/
def start (world : σ) : MainLoop σ :=
  initSent.message.sendMsg.foldl sendCall ⟨.start world, [], 0, 0, [], 1, [], .none, [], 0⟩

/-- `g_source_remove` -/
def sourceRemove (tag : ℕ) : MainLoop σ :=
  { s with watches := s.watches.filter fun w => decide (w.tag ≠ tag) }

/-- `update_socket_watch`, once `out` was computed. The watch it was called for is removed when
`do_socket` has returned. -/
def updateSocketWatch (w : Option Watch) (out : Bool) : MainLoop σ :=
  let s := if s.socketTag ≠ 0 then s.sourceRemove s.socketTag else s
  let s := { s with socketTag := s.nextTag, watches := s.watches ++ [⟨s.nextTag, out⟩],
                    nextTag := s.nextTag + 1, callback := .none }
  match w with
  | some w => s.sourceRemove w.tag
  | none => s

/-- `socket_prepare_sending`, which the main loop calls once. -/
def socketPrepareSending : MainLoop σ :=
  { s with idles := s.idles - 1, callback := .updates none }

/-- `do_socket_send` for a watch, up to the write, when the socket takes `bw` bytes. -/
def doSocketSend (w : Watch) (out readable : Bool) (bw : ℕ) : MainLoop σ :=
  if s.socketToSend.length = 0 ∨ ¬ out then s.sourceRemove w.tag
  else
    let bw := min bw s.socketToSend.length
    { s with toHost := s.toHost ++ s.socketToSend.take bw, callback := .wrote w readable bw }

/-- `do_socket` begins, for a watch that fires. -/
def doSocket (w : Watch) (out readable : Bool) (bw : ℕ) : MainLoop σ :=
  if out then s.doSocketSend w out readable bw
  else if readable then { s with callback := .reads w }
  else s

/-- `do_socket_read` within the main loop, which removes the watch if it returns `FALSE`. -/
def doSocketRead (readers : CardReaders σ) (w : Watch) :
    Except Fault (SocketRead × MainLoop σ) := do
  let (r, vsc) ← Libcacard.doSocketRead readers s.vsc
  let s := { s.goOn vsc with callback := .none }
  return (r, if r.result then s else s.sourceRemove w.tag)

/-- The callback goes on to its next call. -/
def goesOn (readers : CardReaders σ) : Except Fault (SocketRead × MainLoop σ) :=
  match s.callback with
  | .none => .ok (⟨true, none⟩, s)
  | .wrote w readable bw =>
    .ok (⟨true, none⟩,
      { s with socketToSend := s.socketToSend.drop bw, callback := .removed w readable })
  | .removed w readable =>
    .ok (⟨true, none⟩, { s with callback :=
      if s.socketToSend.length = 0 then .updates (some w)
      else if readable then .reads w
      else .none })
  | .reads w => s.doSocketRead readers w
  | .updates w =>
    .ok (⟨true, none⟩, { s with callback := .looked w (decide (0 < s.socketToSend.length)) })
  | .looked w out => .ok (⟨true, none⟩, s.updateSocketWatch w out)

/-- What the socket has not taken of `socket_to_send`. -/
def unwritten : Bytes :=
  match s.callback with
  | .wrote _ _ bw => s.socketToSend.drop bw
  | _ => s.socketToSend

/-- What is to be written of the messages given to `send_msg`. -/
def unsent : Bytes := s.unwritten ++ s.sending.flatMap SendCall.bytes

/-- A callback is due, or `send_msg` is going to ask for one. -/
def Due : Prop := 0 < s.idles ∨ s.sending ≠ []

end MainLoop

instance MainLoop.decidableMayGoOn (s : MainLoop σ) (i : ℕ) (vsc : VscClient σ) :
    Decidable (s.MayGoOn i vsc) := inferInstanceAs (Decidable ((_ ∨ _) ∧ (_ ∨ _)))

instance MainLoop.decidableHasLock (s : MainLoop σ) (vsc : VscClient σ) :
    Decidable (s.HasLock vsc) := inferInstanceAs (Decidable (_ ∨ _))

/-- A watch may fire for what it watches, and for reading only if there is something to read. -/
def MainLoop.MayFire (s : MainLoop σ) (w : Watch) (out readable : Bool) : Prop :=
  s.callback = .none ∧ (out = true ∨ readable = true) ∧ (out = true → w.out = true)
    ∧ (readable = true → s.vsc.unread ≠ [])

instance MainLoop.decidableMayFire (s : MainLoop σ) (w : Watch) (out readable : Bool) :
    Decidable (s.MayFire w out readable) := inferInstanceAs (Decidable (_ ∧ _))

/-! ## The host's side of the stream -/

/-- The first message in a stream of bytes, and what comes after it. -/
def Message.take (b : Bytes) : Option (Message × Bytes) :=
  if sizeofVSCMsgHeader ≤ b.length then
    let header := VSCMsgHeader.decode b
    let b := b.drop sizeofVSCMsgHeader
    if header.length.toNat ≤ b.length then
      some (⟨header, b.take header.length.toNat⟩, b.drop header.length.toNat)
    else none
  else none

/-- The header tells the length of the payload. -/
def Message.Sized (m : Message) : Prop := m.header.length.toNat = m.payload.length

end Libcacard
