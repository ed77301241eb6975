import Libcacard.Lib.Queue
import Libcacard.VEvent

/-!
# The event queue

Each event has the address of the one queued after it. The tail is not changed when an event is
taken out, and so may be the address of an event that has been deleted since.
-/

namespace Libcacard

open Machine

/-- The events, and `vevent_queue_head` and `vevent_queue_tail`. The queue looks at no field of an
event but `next`, and so `ε` is any type. -/
structure EventQueue (ε : Type) where
  vevents : Heap (Node ε)
  head : Option ℕ
  tail : Option ℕ

namespace EventQueue

variable {ε : Type} (q : EventQueue ε) (vevent : ℕ)

def veventQueueInit : EventQueue ε := ⟨[], none, none⟩

/-- `vevent_new`, where `g_new` gives an address that may have been that of a deleted event -/
def veventNew (e : ε) : EventQueue ε := { q with vevents := q.vevents.allocAt vevent ⟨none, e⟩ }

def veventDelete : Except Fault (EventQueue ε) := do
  return { q with vevents := ← q.vevents.free vevent }

def veventQueueVevent : Except Fault (EventQueue ε) := do
  let vevents ← Node.setNext q.vevents vevent none
  match q.head with
  | some head =>
    match q.tail with
    | none => throw .assertion
    | some tail =>
      let vevents ← Node.setNext vevents tail (some vevent)
      return ⟨vevents, some head, some vevent⟩
  | none => return ⟨vevents, some vevent, some vevent⟩

def veventDequeueVevent : Except Fault (Option ℕ × EventQueue ε) :=
  match q.head with
  | none => .ok (none, q)
  | some vevent => do
    let e ← q.vevents.read vevent
    let vevents ← Node.setNext q.vevents vevent none
    return (some vevent, { q with vevents, head := e.next })

def veventGetNextVevent : Except Fault (Option ℕ × EventQueue ε) := q.veventDequeueVevent

/-- What `vevent_wait_next_vevent` does from when it has the lock until it gives it back: it returns
an event, or waits. -/
def veventWaitNextVevent : Except Fault (Option ℕ × EventQueue ε) := q.veventDequeueVevent

end EventQueue

/-! ## A program that uses it -/

section Program

variable {ε : Type}

inductive EventOp (ε : Type)
  | new (vevent : ℕ) (e : ε)
  | queue (vevent : ℕ)
  | getNext
  | waitNext
  | delete (vevent : ℕ)

inductive EventReply
  | done
  | got (vevent : Option ℕ)
  /-- `vevent_wait_next_vevent` has not returned. -/
  | waits
  deriving DecidableEq

/-- The queue, and the events the program has outside of it. -/
structure EventProgram (ε : Type) where
  queue : EventQueue ε
  held : List ℕ

def EventProgram.start : EventProgram ε := ⟨.veventQueueInit, []⟩

def eventStep (p : EventProgram ε) : EventOp ε → Except Fault (EventReply × EventProgram ε)
  | .new vevent e => .ok (.done, ⟨p.queue.veventNew vevent e, vevent :: p.held⟩)
  | .queue vevent => do
    let queue ← p.queue.veventQueueVevent vevent
    return (.done, ⟨queue, p.held.erase vevent⟩)
  | .getNext => do
    let (vevent, queue) ← p.queue.veventGetNextVevent
    return (.got vevent, ⟨queue, vevent.toList ++ p.held⟩)
  | .waitNext => do
    let (vevent, queue) ← p.queue.veventWaitNextVevent
    return (if vevent.isNone then .waits else .got vevent, ⟨queue, vevent.toList ++ p.held⟩)
  | .delete vevent => do
    let queue ← p.queue.veventDelete vevent
    return (.done, ⟨queue, p.held.erase vevent⟩)

/-- A new event is put where there is none, and what is queued or deleted is an event that is not in
the queue. -/
def EventOp.Proper (p : EventProgram ε) : EventOp ε → Prop
  | .new vevent _ => p.queue.vevents.Vacant vevent
  | .queue vevent | .delete vevent => vevent ∈ p.held
  | .getNext | .waitNext => True

instance (p : EventProgram ε) : ∀ op : EventOp ε, Decidable (op.Proper p)
  | .new vevent _ => inferInstanceAs (Decidable (p.queue.vevents.Vacant vevent))
  | .queue vevent | .delete vevent => inferInstanceAs (Decidable (vevent ∈ p.held))
  | .getNext | .waitNext => .isTrue trivial

/-! ## What is meant to hold -/

/-- What an operation does to the list of the queued events. -/
def EventOp.fifo : EventOp ε → Option (Fifo.Op ℕ)
  | .queue vevent => some (.push vevent)
  | .getNext | .waitNext => some .pop
  | .new .. | .delete _ => none

/-- What was taken out of the queue. -/
def EventReply.popped : EventReply → Option (Option ℕ)
  | .got vevent => some vevent
  | .waits => some none
  | .done => none

/-- The queue has the events at `es`, in this order. -/
structure EventQueue.Queues (q : EventQueue ε) (es : List (ℕ × ε)) : Prop where
  head : q.head = Node.first es
  tail : es ≠ [] → q.tail = Node.last es
  chained : Node.Chained q.vevents es

/-- No operation of the run has a fault. The events come out of the queue in the order in which they
were queued, each once, or are still in it, and none comes out only of an empty queue. -/
def QueuesInOrder (ops : List (EventOp ε)) : Prop :=
  ∃ replies p es, run eventStep .start ops = .ok (replies, p) ∧ p.queue.Queues es
    ∧ Fifo.run [] (ops.filterMap EventOp.fifo)
      = (replies.filterMap EventReply.popped, es.map Prod.fst)
    ∧ Fifo.pushed (ops.filterMap EventOp.fifo)
      = (replies.filterMap EventReply.popped).reduceOption ++ es.map Prod.fst

end Program

end Libcacard
