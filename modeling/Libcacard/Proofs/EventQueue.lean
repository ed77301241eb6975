import Libcacard.EventQueue
import Mathlib.Data.List.Nodup

/-!
# The event queue is a queue

The tail is only looked at when there is a head, and then it is the address of the last event: an
event that is queued becomes the tail, and one that is taken out was the tail only if it was alone.
-/

namespace Libcacard

open Machine

variable {ε : Type} {q : EventQueue ε} {p : EventProgram ε} {es : List (ℕ × ε)} {vevent : ℕ}

/-- The queue has the events `es`, and what the program holds are other events. -/
structure EventProgram.Ok (p : EventProgram ε) (es : List (ℕ × ε)) : Prop where
  queues : p.queue.Queues es
  held : ∀ a ∈ p.held, ∃ c, p.queue.vevents.Holds a c
  nodup : (es.map Prod.fst ++ p.held).Nodup

theorem EventProgram.start_ok : (EventProgram.start : EventProgram ε).Ok [] :=
  ⟨⟨rfl, fun h => absurd rfl h, trivial⟩, fun _ h => absurd h List.not_mem_nil, .nil⟩

theorem EventProgram.Ok.not_queued (h : p.Ok es) (hheld : vevent ∈ p.held) :
    vevent ∉ es.map Prod.fst :=
  fun hmem => (List.nodup_append.1 h.nodup).2.2 _ hmem _ hheld rfl

section Queueing

theorem EventQueue.Queues.queueVevent {e : Node ε} (h : q.Queues es)
    (hvevent : q.vevents.Holds vevent e) (hnd : (es.map Prod.fst ++ [vevent]).Nodup) :
    ∃ q', q.veventQueueVevent vevent = .ok q' ∧ q'.Queues (es ++ [(vevent, e.item)])
      ∧ ∀ a ∉ es.map Prod.fst ++ [vevent], ∀ c, q.vevents.Holds a c → q'.vevents.Holds a c := by
  have hmark : Heap.Holds (q.vevents.set vevent (some ⟨none, e.item⟩)) vevent ⟨none, e.item⟩ :=
    hvevent.set_same
  have hchain : Node.Chained (q.vevents.set vevent (some ⟨none, e.item⟩)) es :=
    h.chained.set fun hmem => (List.nodup_append.1 hnd).2.2 _ hmem _ List.mem_cons_self rfl
  unfold EventQueue.veventQueueVevent
  rw [Node.setNext_of_holds hvevent, ok_bind, h.head]
  rcases List.eq_nil_or_concat es with rfl | ⟨l, ⟨tail, x⟩, rfl⟩
  · refine ⟨_, rfl, ⟨rfl, fun _ => rfl, hmark, trivial⟩, fun a ha c hc => hc.set_ne ?_⟩
    rintro rfl
    exact ha List.mem_cons_self
  · rw [List.concat_eq_append] at *
    obtain ⟨head, hhead⟩ : ∃ head, Node.first (l ++ [(tail, x)]) = some head := by
      cases l <;> exact ⟨_, rfl⟩
    have htail : q.tail = some tail := by
      rw [h.tail (by simp), Node.last_concat]
    have hlast := hchain.last
    rw [hhead, htail]
    dsimp only
    rw [Node.setNext_of_holds hlast, ok_bind]
    refine ⟨_, rfl, ⟨?_, fun _ => ?_, hchain.snoc hnd hmark⟩,
      fun a ha c hc => (hc.set_ne ?_).set_ne ?_⟩
    · rw [← hhead]
      cases l <;> rfl
    · rw [Node.last_concat]
    · rintro rfl
      exact ha (List.mem_append_right _ List.mem_cons_self)
    · rintro rfl
      exact ha (by simp)

end Queueing

section Taking

theorem EventQueue.Queues.dequeue_nil (h : q.Queues []) :
    q.veventDequeueVevent = .ok (none, q) := by
  unfold EventQueue.veventDequeueVevent
  rw [h.head]
  rfl

theorem EventQueue.Queues.dequeue_cons {x : ε} (h : q.Queues ((vevent, x) :: es))
    (hnd : (vevent :: es.map Prod.fst).Nodup) :
    ∃ q', q.veventDequeueVevent = .ok (some vevent, q') ∧ q'.Queues es
      ∧ (∃ c, q'.vevents.Holds vevent c)
      ∧ ∀ a ≠ vevent, ∀ c, q.vevents.Holds a c → q'.vevents.Holds a c := by
  obtain ⟨hfirst, hrest⟩ := h.chained
  unfold EventQueue.veventDequeueVevent
  rw [h.head]
  change ∃ q', (q.vevents.read vevent >>= _) = _ ∧ _
  rw [Heap.read_of_holds hfirst, ok_bind, Node.setNext_of_holds hfirst, ok_bind]
  refine ⟨_, rfl, ⟨rfl, fun hne => ?_, hrest.set (List.nodup_cons.1 hnd).1⟩,
    ⟨_, hfirst.set_same⟩, fun a ha c hc => hc.set_ne ha.symm⟩
  refine (h.tail (List.cons_ne_nil _ _)).trans ?_
  rw [Node.last, Node.last, List.getLast?_cons_of_ne_nil hne]

/-- The first event is taken out, and then the program holds it. -/
theorem EventProgram.Ok.dequeue (h : p.Ok es) :
    ∃ first q' es', p.queue.veventDequeueVevent = .ok (first, q')
      ∧ EventProgram.Ok ⟨q', first.toList ++ p.held⟩ es'
      ∧ (es.map Prod.fst).head? = first ∧ (es.map Prod.fst).tail = es'.map Prod.fst := by
  rcases es with _ | ⟨⟨vevent, x⟩, es⟩
  · exact ⟨none, p.queue, [], h.queues.dequeue_nil, h, rfl, rfl⟩
  have hnd : (vevent :: (es.map Prod.fst ++ p.held)).Nodup := h.nodup
  obtain ⟨q', hq', hqueues, hfirst, hframe⟩ :=
    h.queues.dequeue_cons (hnd.sublist ((List.sublist_append_left _ _).cons_cons vevent))
  refine ⟨some vevent, q', es, hq', ⟨hqueues, fun a ha => ?_, List.nodup_middle.2 hnd⟩, rfl, rfl⟩
  rcases List.mem_cons.1 ha with rfl | hheld
  · exact hfirst
  · obtain ⟨c, hc⟩ := h.held a hheld
    refine ⟨c, hframe a ?_ c hc⟩
    rintro rfl
    exact (List.nodup_cons.1 hnd).1 (List.mem_append_right _ hheld)

end Taking

section Steps

theorem EventProgram.Ok.veventNew (h : p.Ok es) (hvacant : p.queue.vevents.Vacant vevent) (e : ε) :
    EventProgram.Ok ⟨p.queue.veventNew vevent e, vevent :: p.held⟩ es := by
  have hnot : vevent ∉ es.map Prod.fst ++ p.held := by
    rw [List.mem_append, List.mem_map]
    rintro (⟨x, hx, rfl⟩ | hheld)
    · exact hvacant.2 (h.queues.chained.holds hx)
    · exact hvacant.2 (h.held vevent hheld)
  refine ⟨⟨h.queues.head, h.queues.tail, ?_⟩, fun a ha => ?_, ?_⟩
  · exact h.queues.chained.frame fun _ _ c hc => hc.allocAt hvacant
  · rcases List.mem_cons.1 ha with rfl | ha
    · exact ⟨_, Heap.allocAt_holds hvacant⟩
    · obtain ⟨c, hc⟩ := h.held a ha
      exact ⟨c, hc.allocAt hvacant⟩
  · exact List.nodup_middle.2 (List.nodup_cons.2 ⟨hnot, h.nodup⟩)

/-- An event the program holds is queued behind the others. -/
theorem EventProgram.Ok.queueVevent (h : p.Ok es) (hheld : vevent ∈ p.held) :
    ∃ q' x, p.queue.veventQueueVevent vevent = .ok q'
      ∧ EventProgram.Ok ⟨q', p.held.erase vevent⟩ (es ++ [(vevent, x)]) := by
  obtain ⟨c, hc⟩ := h.held vevent hheld
  have hperm : (es.map Prod.fst ++ [vevent] ++ p.held.erase vevent).Nodup := by
    rw [List.append_assoc]
    exact ((List.perm_cons_erase hheld).append_left _).nodup h.nodup
  obtain ⟨q', hq', hqueues, hframe⟩ :=
    h.queues.queueVevent hc (hperm.sublist (List.sublist_append_left _ _))
  refine ⟨q', c.item, hq', hqueues, fun a ha => ?_, ?_⟩
  · obtain ⟨c', hc'⟩ := h.held a (List.mem_of_mem_erase ha)
    exact ⟨c', hframe a (fun hmem => (List.nodup_append.1 hperm).2.2 _ hmem _ ha rfl) c' hc'⟩
  · rwa [List.map_append]

theorem EventProgram.Ok.veventDelete (h : p.Ok es) (hheld : vevent ∈ p.held) :
    ∃ q', p.queue.veventDelete vevent = .ok q'
      ∧ EventProgram.Ok ⟨q', p.held.erase vevent⟩ es := by
  obtain ⟨c, hc⟩ := h.held vevent hheld
  have hnd : p.held.Nodup := (List.nodup_append.1 h.nodup).2.1
  refine ⟨{ p.queue with vevents := p.queue.vevents.set vevent none }, ?_,
    ⟨h.queues.head, h.queues.tail, ?_⟩, fun a ha => ?_, ?_⟩
  · rw [EventQueue.veventDelete, Heap.free_of_holds hc]
    rfl
  · exact h.queues.chained.set (h.not_queued hheld)
  · obtain ⟨hne, ha⟩ := hnd.mem_erase_iff.1 ha
    obtain ⟨c', hc'⟩ := h.held a ha
    exact ⟨c', hc'.set_ne hne.symm⟩
  · exact h.nodup.sublist ((List.erase_sublist).append_left _)

theorem eventStep_fifo (op : EventOp ε) (h : p.Ok es) (hop : op.Proper p) :
    ∃ reply p' es', eventStep p op = .ok (reply, p') ∧ p'.Ok es'
      ∧ Fifo.run (es.map Prod.fst) op.fifo.toList
        = (reply.popped.toList, es'.map Prod.fst) := by
  rcases op with ⟨vevent, e⟩ | vevent | - | - | vevent
  · exact ⟨_, _, es, rfl, h.veventNew hop e, rfl⟩
  · obtain ⟨q', x, hq', hok⟩ := h.queueVevent hop
    refine ⟨.done, _, es ++ [(vevent, x)], ?_, hok, ?_⟩
    · rw [eventStep, hq', ok_bind]
      rfl
    · rw [List.map_append]
      rfl
  · obtain ⟨first, q', es', hq', hok, hhead, htail⟩ := h.dequeue
    refine ⟨.got first, _, es', ?_, hok, ?_⟩
    · rw [eventStep, EventQueue.veventGetNextVevent, hq', ok_bind]
      rfl
    · rw [← hhead, ← htail]
      rfl
  · obtain ⟨first, q', es', hq', hok, hhead, htail⟩ := h.dequeue
    refine ⟨if first.isNone then .waits else .got first, _, es', ?_, hok, ?_⟩
    · rw [eventStep, EventQueue.veventWaitNextVevent, hq', ok_bind]
      rfl
    · rw [← htail]
      cases first <;> simp [EventOp.fifo, EventReply.popped, Fifo.run, hhead]
  · obtain ⟨q', hq', hok⟩ := h.veventDelete hop
    refine ⟨.done, _, es, ?_, hok, rfl⟩
    rw [eventStep, hq', ok_bind]
    rfl

/-- A run of the program that keeps to its own events queues them in order. -/
theorem vevents_fifo (ops : List (EventOp ε)) (h : Along eventStep EventOp.Proper .start ops) :
    QueuesInOrder ops := by
  have hsteps : ∀ (p : EventProgram ε) (xs : List ℕ) (op : EventOp ε),
      (∃ es, es.map Prod.fst = xs ∧ p.Ok es) → op.Proper p →
      ∃ reply p' xs', eventStep p op = .ok (reply, p') ∧ (∃ es, es.map Prod.fst = xs' ∧ p'.Ok es)
        ∧ Fifo.run xs op.fifo.toList = (reply.popped.toList, xs') := by
    rintro p _ op ⟨es, rfl, hok⟩ hop
    obtain ⟨reply, p', es', hstep, hok', hfifo⟩ := eventStep_fifo op hok hop
    exact ⟨reply, p', _, hstep, ⟨es', rfl, hok'⟩, hfifo⟩
  obtain ⟨replies, p, _, hrun, ⟨es, rfl, hok⟩, hfifo⟩ :=
    Fifo.run_refines hsteps ⟨[], rfl, EventProgram.start_ok⟩ h
  refine ⟨replies, p, es, hrun, hok.queues, hfifo, ?_⟩
  have hpushed := Fifo.pushed_eq [] (ops.filterMap EventOp.fifo)
  rw [List.map_nil] at hfifo
  rwa [hfifo] at hpushed

/-- An event is deleted while it is still the tail, and the next one gets its address. -/
theorem drained_fifo : QueuesInOrder [.new 0 ⟨.cardInsert, 0⟩, .new 1 ⟨.cardRemove, 0⟩, .queue 0,
    .queue 1, .getNext, .waitNext, .delete 1, .getNext, .waitNext, .new 1 ⟨.readerRemove, 0⟩,
    .queue 1, .queue 0, (.getNext : EventOp VEvent)] :=
  vevents_fifo _ (by decide)

end Steps

end Libcacard
