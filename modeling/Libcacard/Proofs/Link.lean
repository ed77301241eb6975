import Libcacard.Proofs.ApduReplies
import Libcacard.Proofs.Framed
import Libcacard.Proofs.VscSystem

/-!
# Whole messages over a stream of bytes

However the bytes are written and arrive, client and host do what they do when they exchange whole
messages. So what holds of those holds of the stream.
-/

namespace Libcacard

open Machine

variable {σ : Type} {readers : CardReaders σ}

/-- The host has taken the first messages, and the bytes under way are those of the others. -/
def Streams (sent : List Sent) (got : List Message) (underWay : Bytes) : Prop :=
  ∃ rest, sent.map Sent.message = got ++ rest ∧ underWay = encodeAll rest

theorem Streams.more {sent : List Sent} {got : List Message} {underWay : Bytes}
    (h : Streams sent got underWay) (l : List Sent) :
    Streams (sent ++ l) got (underWay ++ encodeAll (l.map Sent.message)) := by
  obtain ⟨rest, hsent, rfl⟩ := h
  exact ⟨rest ++ l.map Sent.message, by rw [List.map_append, hsent, List.append_assoc],
    (encodeAll_append _ _).symm⟩

/-- The bytes of the host that the client has not read. -/
def Link.Comes (k : Link σ) (vsc : VscClient σ) (coming : List Coming) : Prop :=
  Framed vsc.socket (coming.map Coming.message) (vsc.unread ++ k.toClient)

/-- What holds in every state. -/
structure Link.Ok (k : Link σ) : Prop where
  socket : k.loop.vsc.socket.Ok
  proper : ∀ m ∈ k.coming, m.message.Proper
  comes : k.Comes k.loop.vsc k.coming ∨ Stuck k.loop.vsc.socket
  sized : ∀ q ∈ k.sent, q.message.Sized
  streams : Streams k.sent k.got (k.loop.toHost ++ k.loop.unsent)
  watching : k.loop.Watching (Stuck k.loop.vsc.socket)

theorem initSent_sized : initSent.message.Sized := rfl

theorem Link.start_ok (world : σ) : (Link.start world).Ok := by
  refine ⟨SocketReader.start_ok, fun m hm => (by cases hm), .inl framed_start, ?_, ?_,
    MainLoop.start_watching world⟩
  · exact fun q hq => List.mem_singleton.1 hq ▸ initSent_sized
  · exact ⟨[initSent.message], rfl, (List.nil_append _).trans (encodeAll_singleton _).symm⟩

section Steps

variable {k k' : Link σ}

/-- What the step of a callback does. -/
theorem Link.step_goesOn (hs : k.step readers .goesOn = some k') :
    ∃ r loop, k.loop.goesOn readers = .ok (r, loop) ∧ k.loop.HasLock loop.vsc
      ∧ k' = if r.Took then k.took loop else { k with loop := loop } := by
  simp only [Link.step] at hs
  split_ifs at hs with hcallback
  obtain ⟨⟨r, loop⟩, hgoes, hs⟩ := Option.bind_eq_some_iff.1 hs
  rcases hresult : k.loop.goesOn readers with e | ⟨r', loop'⟩ <;>
    rw [hresult] at hgoes <;> cases hgoes
  dsimp only at hs
  by_cases hlock : k.loop.HasLock loop.vsc
  · rw [if_pos hlock] at hs
    cases hs
    exact ⟨r, loop, rfl, hlock, rfl⟩
  · rw [if_neg hlock] at hs
    cases hs

theorem Link.step_fire {i : ℕ} {out readable : Bool} {bw : ℕ}
    (hs : k.step readers (.fire i out readable bw) = some k') :
    ∃ w ∈ k.loop.watches, k.loop.MayFire w out readable
      ∧ k' = { k with loop := k.loop.doSocket w out readable bw } := by
  simp only [Link.step] at hs
  rcases hw : k.loop.watches[i]? with _ | w <;> rw [hw] at hs
  · cases hs
  dsimp only at hs
  split_ifs at hs with hmay
  cases hs
  exact ⟨w, List.mem_of_getElem? hw, hmay, rfl⟩

theorem Link.step_thread {i : ℕ} {atr : Bytes}
    (hs : k.step readers (.thread i atr) = some k') :
    ∃ t t' client, atr.length ≤ maxAtrLen ∧ k.client.threads[i]? = some t
      ∧ k.client.threadStep atr t = some (t', client)
      ∧ k.loop.MayGoOn i { k.loop.vsc with
        client := { client with threads := client.threads.set i t' } }
      ∧ k' = { k with loop := k.loop.threadGoesOn i { k.loop.vsc with
        client := { client with threads := client.threads.set i t' } } } := by
  simp only [Link.step] at hs
  split_ifs at hs with hatr
  simp only [Option.bind_eq_bind, Option.bind_eq_some_iff] at hs
  obtain ⟨t, ht, ⟨t', client⟩, hprogress, hs⟩ := hs
  dsimp only at hs
  split_ifs at hs with hmay
  cases hs
  exact ⟨t, t', client, Nat.le_of_not_lt hatr, ht, hprogress, hmay, rfl⟩

end Steps

namespace Link.Ok

variable {k : Link σ}

theorem wellFormed (h : k.Ok) : ∀ m ∈ k.coming.map Coming.message, m.WellFormed := by
  intro m hm
  obtain ⟨x, hx, rfl⟩ := List.mem_map.1 hm
  exact (h.proper x hx).wellFormed

/-- An event thread goes on. -/
theorem thread (h : k.Ok) {i : ℕ} {client : Client σ} {l : List Sent}
    (hsent : client.sent = k.client.sent ++ l) (hl : ∀ q ∈ l, q.message.Sized)
    (hmay : k.loop.MayGoOn i { k.loop.vsc with client := client }) :
    ({ k with loop := k.loop.threadGoesOn i { k.loop.vsc with client := client } } :
      Link σ).Ok := by
  have hvsc := k.loop.threadGoesOn_vsc i { k.loop.vsc with client := client }
  obtain ⟨hhost, hunsent⟩ := MainLoop.threadGoesOn_unsent
    (show ({ k.loop.vsc with client := client } : VscClient σ).client.sent
      = k.loop.vsc.client.sent ++ l from hsent) hmay
  have hall : initSent :: client.sent = k.sent ++ l := by
    rw [hsent]
    rfl
  refine ⟨?_, h.proper, ?_, ?_, ?_, ?_⟩
  · rw [hvsc]
    exact h.socket
  · simp only [Link.Comes, hvsc]
    exact h.comes
  · simp only [Link.sent, Link.client, hvsc, hall]
    exact List.forall_mem_append.2 ⟨h.sized, hl⟩
  · simp only [Link.sent, Link.client, hvsc, hhost, hunsent, hall, ← List.append_assoc]
    exact h.streams.more l
  · rw [hvsc]
    exact h.watching.threadGoesOn rfl

/-- The main loop went on, and the client did not. -/
theorem quiet (h : k.Ok) {loop : MainLoop σ} (hvsc : loop.vsc = k.loop.vsc)
    (hbytes : loop.toHost ++ loop.unsent = k.loop.toHost ++ k.loop.unsent)
    (hwatching : loop.Watching (Stuck k.loop.vsc.socket)) :
    ({ k with loop := loop } : Link σ).Ok := by
  obtain ⟨hsocket, hproper, hcomes, hsized, hstreams, -⟩ := h
  refine ⟨hvsc ▸ hsocket, hproper, ?_, ?_, ?_, hvsc ▸ hwatching⟩
  · simpa only [Link.Comes, hvsc] using hcomes
  · simpa only [Link.sent, Link.client, hvsc] using hsized
  · simpa only [Link.sent, Link.client, hvsc, hbytes] using hstreams

/-- The thread that has the lock goes on sending. -/
theorem sends (h : k.Ok) {call : SendCall} {calls : List SendCall}
    (hsending : k.loop.sending = call :: calls) :
    ({ k with loop := { k.loop.sendCall call with sending := calls } } : Link σ).Ok := by
  have hwatching := h.watching.sends hsending
  refine h.quiet ?_ ?_ hwatching
  · cases call <;> rfl
  · rw [h.watching.sends_unsent hsending]
    cases call <;> rfl

/-- The host takes the first message it has not taken. -/
theorem takes (h : k.Ok) {m : Message} {toHost : Bytes}
    (htake : Message.take k.loop.toHost = some (m, toHost)) :
    ({ k with loop := { k.loop with toHost := toHost }, got := k.got ++ [m] } : Link σ).Ok
      ∧ ∃ q, k.sent[k.got.length]? = some q ∧ q.message = m := by
  obtain ⟨rest, hsent, hbytes⟩ := h.streams
  have hsized : ∀ m ∈ rest, m.Sized := by
    intro m hm
    obtain ⟨q, hq, rfl⟩ := List.mem_map.1 (hsent ▸ List.mem_append_right k.got hm)
    exact h.sized q hq
  obtain ⟨rest, rfl, hrest⟩ := Message.take_stream hsized hbytes htake
  refine ⟨⟨h.socket, h.proper, h.comes, h.sized, ⟨rest, ?_, hrest⟩, h.watching.frame _ _ id⟩, ?_⟩
  · exact hsent.trans (List.append_cons k.got m rest)
  · have hget : (k.sent.map Sent.message)[k.got.length]? = some m := by
      rw [hsent, List.getElem?_append_right le_rfl, Nat.sub_self]
      rfl
    rw [List.getElem?_map, Option.map_eq_some_iff] at hget
    exact hget

theorem hostSends (h : k.Ok) {m : Message} (hm : m.Proper) (answers : Option Sent) :
    (k.hostSends m answers).Ok := by
  refine ⟨h.socket, forall_mem_concat h.proper hm, h.comes.imp_left fun hcomes => ?_, h.sized,
    h.streams, h.watching⟩
  have := Framed.append hcomes hm.wellFormed
  rwa [List.append_assoc, ← List.map_singleton (f := Coming.message) (a := ⟨m, answers⟩),
    ← List.map_append] at this

/-- What comes of it when the client reads. -/
inductive Reads (k : Link σ) (readers : CardReaders σ) (r : SocketRead) (vsc : VscClient σ) : Prop
  | stays (hnot : ¬ r.Took) (hclient : vsc.client = k.client)
    (hcomes : k.Comes vsc k.coming ∨ Stuck vsc.socket) (hstop : r.result = false → Stuck vsc.socket)
  | takes {m : Coming} {coming : List Coming} (hcoming : k.coming = m :: coming) (htook : r.Took)
    (hhandle : k.client.handle readers m.incoming.header m.incoming.pbSendBuffer.1
      = .ok (true, vsc.client))
    (hcomes : k.Comes vsc coming)

theorem apduBuffer_take {b : Bytes} (h : b.length ≤ apduBufSize) :
    (apduBuffer b).1.take b.length = b := by
  rw [apduBuffer, List.take_take, Nat.min_eq_left h, List.take_left]

/-- A message is handled as it is when it lies in a buffer of its own. -/
theorem handled {r : SocketRead} {vsc : VscClient σ} {m : Coming} (hm : m.message.Proper)
    (hr : r.dispatched = some m.message)
    (hread : doSocketRead readers k.loop.vsc = .ok (r, vsc)) :
    k.client.handle readers m.incoming.header m.incoming.pbSendBuffer.1
      = .ok (r.result, vsc.client) := by
  rcases doSocketRead_handled hread with ⟨hnone, -⟩ | ⟨m', b, hsome, hb, hhandle⟩
  · rw [hr] at hnone
    cases hnone
  · rw [hr, Option.some.injEq] at hsome
    subst hsome
    rw [hm.wellFormed.length] at hb
    rw [← hhandle]
    exact handle_congr readers k.client hm (apduBuffer_take hm.wellFormed.length_le) hb

/-- A call that takes no message leaves the client alone. -/
theorem unchanged {r : SocketRead} {vsc : VscClient σ} (hnot : ¬ r.Took)
    (hread : doSocketRead readers k.loop.vsc = .ok (r, vsc)) : vsc.client = k.client := by
  rcases doSocketRead_handled hread with ⟨-, hclient⟩ | ⟨m, b, hsome, -, hhandle⟩
  · exact hclient
  · have hresult : r.result = false := by
      rw [← Bool.not_eq_true]
      exact fun hgoes => hnot ⟨by rw [hsome]; exact Option.some_ne_none m, hgoes⟩
    rw [hresult] at hhandle
    exact (handle_eq_false hhandle).1

theorem reads (h : k.Ok) {r : SocketRead} {vsc : VscClient σ} (hunread : k.loop.vsc.unread ≠ [])
    (hread : doSocketRead readers k.loop.vsc = .ok (r, vsc)) :
    vsc.socket.Ok ∧ Reads k readers r vsc := by
  rcases h.comes with hcomes | hstuck
  · obtain ⟨hok, hcall⟩ := Framed.call h.socket h.wellFormed hunread hcomes hread
    refine ⟨hok, ?_⟩
    generalize htodo : k.coming.map Coming.message = todo at hcall
    rcases hcall with ⟨hr, hgoes, hframed⟩ | ⟨hr, hgoes, hframed⟩ | ⟨hr, hgoes, hstuck⟩
    · have hnot : ¬ r.Took := fun htook => htook.1 hr
      subst htodo
      exact .stays hnot (unchanged hnot hread) (.inl hframed)
        fun hfalse => absurd (hgoes.symm.trans hfalse) (by decide)
    · obtain ⟨x, coming, hcoming, rfl, rfl⟩ := List.map_eq_cons_iff.1 htodo
      have hhandle := handled (h.proper x (hcoming ▸ List.mem_cons_self)) hr hread
      rw [hgoes] at hhandle
      exact .takes hcoming ⟨by rw [hr]; exact Option.some_ne_none _, hgoes⟩ hhandle hframed
    · have hnot : ¬ r.Took := fun htook => absurd (hgoes.symm.trans htook.2) (by decide)
      exact .stays hnot (unchanged hnot hread) (.inr hstuck) fun _ => hstuck
  · have hstuck' := (hstuck.call hread).1
    have hnot : ¬ r.Took := by
      rintro ⟨hsome, hgoes⟩
      rcases doSocketRead_returned h.socket hread with
        ⟨hr, -⟩ | ⟨hr, -⟩ | ⟨-, -, hstate⟩ | ⟨-, hr, -⟩
      · exact hsome hr
      · exact hsome hr
      · rw [hstuck'.state] at hstate
        cases hstate
      · rw [hgoes] at hr
        cases hr
    exact ⟨hstuck'.ok, .stays hnot (unchanged hnot hread) (.inr hstuck') fun _ => hstuck'⟩

/-- The messages that are left when one is taken. -/
theorem proper_of_cons (h : k.Ok) {m : Coming} {coming : List Coming}
    (hcoming : k.coming = m :: coming) : ∀ x ∈ coming, x.message.Proper :=
  fun x hx => h.proper x (hcoming ▸ List.mem_cons_of_mem m hx)

/-- The client has read and sent, and the messages it took are no longer to come. -/
theorem moved (h : k.Ok) {loop : MainLoop σ} {coming : List Coming} {l : List Sent}
    (hsocket : loop.vsc.socket.Ok) (hproper : ∀ m ∈ coming, m.message.Proper)
    (hcomes : k.Comes loop.vsc coming ∨ Stuck loop.vsc.socket)
    (hsent : loop.vsc.client.sent = k.client.sent ++ l) (hl : ∀ q ∈ l, q.message.Sized)
    (hbytes : loop.toHost ++ loop.unsent
      = k.loop.toHost ++ k.loop.unsent ++ encodeAll (l.map Sent.message))
    (hwatching : loop.Watching (Stuck loop.vsc.socket)) (answered : List (Sent × UInt32))
    (grants : List (ℕ × Option Sent)) :
    ({ k with loop := loop, coming := coming, answered := answered, grants := grants } :
      Link σ).Ok := by
  have hall : initSent :: loop.vsc.client.sent = k.sent ++ l := by
    rw [hsent]
    rfl
  refine ⟨hsocket, hproper, hcomes, ?_, ?_, hwatching⟩
  · simp only [Link.sent, Link.client, hall]
    exact List.forall_mem_append.2 ⟨h.sized, hl⟩
  · simp only [Link.sent, Link.client, hbytes, hall]
    exact h.streams.more l

/-- The callback goes on. -/
theorem goesOn (hb : readers.Bounded) (h : k.Ok) {r : SocketRead} {loop : MainLoop σ}
    (hgoes : MainLoop.Goes readers k.loop r loop) (hlock : k.loop.HasLock loop.vsc) :
    (if r.Took then k.took loop else { k with loop := loop }).Ok := by
  rcases hgoes with ⟨hvsc, hbytes, hwatching⟩ | @⟨w, r, vsc, hcallback, hread⟩
  · rw [if_neg fun htook : SocketRead.Took ⟨true, none⟩ => htook.1 rfl]
    exact h.quiet hvsc hbytes (hwatching _ h.watching)
  · have hunread := h.watching.unread_of_reads hcallback
    have hvsc := k.loop.afterRead_vsc w r vsc
    have hsent : ∃ l, vsc.client.sent = k.client.sent ++ l ∧ ∀ q ∈ l, q.message.Sized := by
      rcases doSocketRead_handled hread with ⟨-, hclient⟩ | ⟨m, b, -, -, hhandle⟩
      · exact ⟨[], by rw [hclient, List.append_nil]; rfl, fun q hq => by cases hq⟩
      · exact handle_sent hb hhandle
    obtain ⟨l, hl, hsized⟩ := hsent
    obtain ⟨hok, hreads⟩ := h.reads hunread hread
    have hrejected : r.result = false → Stuck vsc.socket := by
      intro hfalse
      rcases hreads with ⟨-, -, -, hstop⟩ | ⟨-, htook, -, -⟩
      · exact hstop hfalse
      · exact absurd (htook.2.symm.trans hfalse) (by decide)
    have hwatching := h.watching.reads hcallback vsc
      (fun hstuck => (hstuck.call hread).1) hrejected
    have hbytes := MainLoop.afterRead_bytes hcallback r hl (hvsc ▸ hlock)
    generalize k.loop.afterRead w r vsc = loop at hvsc hwatching hbytes
    subst hvsc
    rcases hreads with ⟨hnot, -, hcomes, -⟩ | ⟨hcoming, htook, -, hcomes⟩
    · rw [if_neg hnot]
      exact h.moved hok h.proper hcomes hl hsized hbytes hwatching _ _
    · rw [if_pos htook, Link.took, hcoming]
      exact h.moved hok (h.proper_of_cons hcoming) (.inl hcomes) hl hsized hbytes hwatching _ _

theorem step (hb : readers.Bounded) (h : k.Ok) {k' : Link σ} {a : LinkAction σ}
    (hs : k.step readers a = some k') : k'.Ok := by
  rcases a with event | world | ⟨i, atr⟩ | _ | _ | ⟨i, out, readable, bw⟩ | _
    | ⟨readerId, payload⟩ | m | n
  · cases hs
    exact ⟨h.socket, h.proper, h.comes, h.sized, h.streams, h.watching.frame _ _ id⟩
  · cases hs
    exact ⟨h.socket, h.proper, h.comes, h.sized, h.streams, h.watching.frame _ _ id⟩
  · obtain ⟨t, t', client, hatr, -, hprogress, hmay, rfl⟩ := Link.step_thread hs
    obtain ⟨l, hl, hsized⟩ := threadStep_sent hatr hprogress
    exact h.thread hl hsized hmay
  · simp only [Link.step] at hs
    rcases hsending : k.loop.sending with _ | ⟨call, calls⟩ <;> rw [hsending] at hs <;> cases hs
    exact h.sends hsending
  · simp only [Link.step] at hs
    split_ifs at hs with hno
    cases hs
    obtain ⟨hwatching, hunsent⟩ :=
      h.watching.socketPrepareSending (not_not.1 (not_or.1 hno).1)
    exact h.quiet rfl (congrArg (k.loop.toHost ++ ·) hunsent) hwatching
  · obtain ⟨w, hw, hmay, rfl⟩ := Link.step_fire hs
    obtain ⟨hwatching, hbytes, hvsc⟩ := h.watching.doSocket hw hmay bw
    exact h.quiet hvsc hbytes hwatching
  · obtain ⟨r, loop, hgoes, hlock, rfl⟩ := Link.step_goesOn hs
    exact h.goesOn hb (MainLoop.goes readers k.loop hgoes) hlock
  · simp only [Link.step, Option.bind_eq_bind, Option.bind_eq_some_iff] at hs
    obtain ⟨⟨m, toHost⟩, htake, hs⟩ := hs
    obtain ⟨hok, -⟩ := h.takes htake
    split_ifs at hs with hanswered hproper
    · cases hs
      exact hok.hostSends hproper _
    · cases hs
      exact hok
  · simp only [Link.step] at hs
    split_ifs at hs with hm
    cases hs
    exact h.hostSends hm.1 none
  · cases hs
    refine ⟨h.socket, h.proper, ?_, h.sized, h.streams, h.watching.frame _ _ ?_⟩
    · simp only [Link.Comes, List.append_assoc, List.take_append_drop]
      exact h.comes
    · exact fun hne => List.append_ne_nil_of_left_ne_nil hne _

end Link.Ok

theorem Link.Ok.reaches (hb : readers.Bounded) {P : Link σ → LinkAction σ → Prop} {world : σ}
    {k : Link σ} (h : Reaches (Link.step readers) P (.start world) k) : k.Ok :=
  h.invariant (Link.start_ok world) fun _ _ _ hk _ hs => hk.step hb hs

section Seen

/-- What the client takes off the stream is what it receives as a whole message. -/
theorem Link.Ok.receive {k : Link σ} {loop : MainLoop σ} {m : Coming} {coming : List Coming}
    (hcoming : k.coming = m :: coming)
    (hhandle : k.client.handle readers m.incoming.header m.incoming.pbSendBuffer.1
      = .ok (true, loop.vsc.client)) :
    k.view.step readers .receive = some (k.took loop).view := by
  simp only [VscSystem.step, Link.view, hcoming, List.map_cons, hhandle, Link.took]
  rfl

end Seen

section NoFault

theorem Message.Proper.oneCapability {m : Message} (h : m.Proper) : m.OneCapability :=
  fun htype _ => by rw [h.init htype]; decide

/-- What comes fits the buffers. -/
theorem Link.Ok.fits {k : Link σ} (h : k.Ok) (hunread : k.loop.vsc.unread ≠ []) :
    k.loop.vsc.Fits := by
  rcases h.comes with hcomes | hstuck
  · have hnow := hcomes [] (fun m hm => by cases hm)
    rw [List.append_nil, encodeAll_nil, List.append_nil] at hnow
    refine hnow.fits h.socket h.wellFormed (fun m hm => ?_) hunread
    obtain ⟨x, hx, rfl⟩ := List.mem_map.1 hm
    exact (h.proper x hx).oneCapability
  · exact hstuck.fits

end NoFault

section Drains

variable {k : Link σ} {w : Watch}

/-- A callback goes on, and the client does not. -/
theorem Link.step_quiet {loop : MainLoop σ} (hcallback : k.loop.callback ≠ .none)
    (hgoes : k.loop.goesOn readers = .ok (⟨true, none⟩, loop)) (hvsc : loop.vsc = k.loop.vsc) :
    k.step readers .goesOn = some { k with loop := loop } := by
  have hlock : k.loop.HasLock loop.vsc := .inr (hvsc ▸ k.loop.newCalls_self)
  have hnot : ¬ SocketRead.Took ⟨true, none⟩ := fun htook => htook.1 rfl
  simp only [Link.step, if_neg hcallback, hgoes, Except.toOption, Option.bind_eq_bind,
    Option.bind_some, if_pos hlock, if_neg hnot]
  rfl

/-- The socket took so many bytes. -/
def Link.written (k : Link σ) (bw : ℕ) (callback : Callback) : Link σ :=
  { k with loop := { k.loop with
    toHost := k.loop.toHost ++ k.loop.socketToSend.take bw
    socketToSend := k.loop.socketToSend.drop bw
    callback := callback } }

theorem Link.Ok.follow (hb : readers.Bounded) {k' : Link σ} {as : List (LinkAction σ)} (h : k.Ok)
    (hf : Machine.follow (Link.step readers) (fun _ _ => True) k as = some k') : k'.Ok :=
  (Reaches.start.follow hf).invariant h fun _ _ _ hk _ hs => hk.step hb hs

/-- The callback has looked whether there is something to send. -/
def Link.looked (k : Link σ) : Link σ :=
  { k with loop := { k.loop with
    idles := k.loop.idles - 1
    callback := .looked none (decide (0 < k.loop.socketToSend.length)) } }

end Drains

section Example

/-- No reader is registered, and none has a card. -/
def ReaderWorld.empty : ReaderWorld Unit := ⟨vreaderListInit, fun _ => none⟩

end Example

section Runs

variable {P : Link σ → LinkAction σ → Prop} {world : σ} {k : Link σ}

end Runs

end Libcacard
