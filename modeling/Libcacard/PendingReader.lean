import Libcacard.VscSystem

/-!
# The pending reader

The slot for the pending reader holds a reference, and the event threads wait for it to be empty on
a condition variable. A thread that has gone to sleep there goes on when it is woken, one at each
signal, or for no reason.
-/

namespace Libcacard

open Machine

variable {σ : Type}

/-- The thread is in one of the loops that wait while a reader is pending. -/
def EventThread.waits : EventThread → Bool
  | .deciding _ => true
  | .forwarding event _ => event.type = .readerInsert
  | _ => false

/-- The reader whose reference a step of the thread puts into the slot. -/
def EventThread.takes (t : EventThread) (c : Client σ) : Option ℕ :=
  match t with
  | .forwarding event _ =>
    if event.type = .readerInsert ∧ c.pendingReader = none then some event.reader else none
  | _ => none

/-- The reader that is freed when a message is processed: only a success gives the reference back. -/
def Client.gives (c : Client σ) (m : Incoming) : Option ℕ :=
  if m.IsError ∧ m.code = VSCErrorCode.success then c.pendingReader else none

/-- The condition variable is signalled when a message is processed. -/
def Client.signals (c : Client σ) (m : Incoming) : Prop :=
  m.IsError ∧ (m.code = VSCErrorCode.success ∨ m.code = VSCErrorCode.cannotAddMoreReaders)
    ∧ c.pendingReader ≠ none

instance (c : Client σ) (m : Incoming) : Decidable (c.signals m) :=
  inferInstanceAs (Decidable (_ ∧ _ ∧ _))

/-- `references` are those taken for the slot and not given back, of each reader, and `asleep` the
threads that sleep in `g_cond_wait`. -/
structure PendingSystem (σ : Type) where
  system : VscSystem σ
  references : ℕ → ℕ
  asleep : List ℕ

def PendingSystem.start (world : σ) : PendingSystem σ := ⟨.start world, fun _ => 0, []⟩

inductive PendingAction (σ : Type)
  /-- whatever goes on besides; a signal wakes this thread, if any sleeps -/
  | act (action : VscAction σ) (woken : ℕ)
  /-- a thread waits for the slot to be empty -/
  | sleep (i : ℕ)
  /-- a thread wakes up for no reason -/
  | wake (i : ℕ)

/-- `g_cond_signal` -/
def signal (asleep : List ℕ) (woken : ℕ) : Option (List ℕ) :=
  if asleep = [] then some []
  else if woken ∈ asleep then some (asleep.erase woken)
  else none

/-- What the slot and the condition variable go through when an action is taken. -/
def PendingSystem.slot (s : PendingSystem σ) (woken : ℕ) :
    VscAction σ → Option ((ℕ → ℕ) × List ℕ)
  | .thread i _ =>
    if i ∈ s.asleep then none
    else
      match s.system.client.threads[i]?.bind (·.takes s.system.client) with
      | some r => some (Function.update s.references r (s.references r + 1), s.asleep)
      | none => some (s.references, s.asleep)
  | .receive =>
    match s.system.incoming with
    | [] => none
    | m :: _ =>
      let references := match s.system.client.gives m with
        | some r => Function.update s.references r (s.references r - 1)
        | none => s.references
      if s.system.client.signals m then do return (references, ← signal s.asleep woken)
      else some (references, s.asleep)
  | .event _ | .world _ | .answer .. | .send .. => some (s.references, s.asleep)

def PendingSystem.step (readers : CardReaders σ) (s : PendingSystem σ) :
    PendingAction σ → Option (PendingSystem σ)
  | .act action woken => do
    let system ← s.system.step readers action
    let (references, asleep) ← s.slot woken action
    return ⟨system, references, asleep⟩
  | .sleep i => do
    let t ← s.system.client.threads[i]?
    if t.waits ∧ s.system.client.pendingReader ≠ none ∧ i ∉ s.asleep then
      return { s with asleep := s.asleep ++ [i] }
    else none
  | .wake i => if i ∈ s.asleep then some { s with asleep := s.asleep.erase i } else none

/-- The condition on an action, for the messages it processes. -/
def PendingSystem.AnswersAdd (s : PendingSystem σ) : PendingAction σ → Prop
  | .act action _ => s.system.AnswersAdd action
  | .sleep _ | .wake _ => True

instance (s : PendingSystem σ) : ∀ a, Decidable (s.AnswersAdd a)
  | .act action _ => inferInstanceAs (Decidable (s.system.AnswersAdd action))
  | .sleep _ | .wake _ => inferInstanceAs (Decidable True)

/-- The states of runs in which what clears the slot answers a `VSC_ReaderAdd`. -/
inductive PendingReachable (readers : CardReaders σ) : PendingSystem σ → Prop
  | start (world : σ) : PendingReachable readers (.start world)
  | step {s s' : PendingSystem σ} {a : PendingAction σ} (h : PendingReachable readers s)
    (ha : s.AnswersAdd a) (hs : s.step readers a = some s') : PendingReachable readers s'

/-- The state after some actions, if all of them can be taken and meet the condition. -/
def PendingSystem.follow (readers : CardReaders σ) :
    PendingSystem σ → List (PendingAction σ) → Option (PendingSystem σ)
  | s, [] => some s
  | s, a :: as => if s.AnswersAdd a then (s.step readers a).bind (follow readers · as) else none

/-- The answer to a reader's `VSC_ReaderAdd` has been processed, and nothing waits for it. -/
structure Settled (s s' : PendingSystem σ) (m : Incoming) (r : ℕ) : Prop where
  pending : s'.system.client.pendingReader ≠ some r
  id : s'.system.client.readerId r ≠ vscardUndefinedReaderId ↔ m.code = VSCErrorCode.success
  released : s'.references r + 1 = s.references r
  unblocked : ∀ i t, s'.system.client.threads[i]? = some t → t.waits →
    i ∉ s'.asleep ∧ ∀ atr, (s'.system.client.threadStep atr t).isSome

/-- The message is the answer to a reader's `VSC_ReaderAdd`. -/
def Incoming.AnswersAddOf (m : Incoming) (r : ℕ) : Prop :=
  ∃ q, m.answers = some q ∧ q.IsReaderAdd ∧ q.about = some r

end Libcacard
