import Libcacard.MainLoop
import Libcacard.Proofs.Framing

/-!
# Nothing to send is forgotten

What `send_msg` was given goes out in order, however the socket takes it. While there are bytes to
send, the socket is watched for writing or the main loop is going to look at them, and it is
watched for writing only then.
-/

namespace Libcacard

open Machine

variable {σ : Type} {readers : CardReaders σ} {s : MainLoop σ}

section Stream

theorem encodeAll_append (ms ms' : List Message) :
    encodeAll (ms ++ ms') = encodeAll ms ++ encodeAll ms' := by
  simp [encodeAll]

theorem encodeAll_singleton (m : Message) : encodeAll [m] = m.encode := by simp [encodeAll]

/-- What is taken out of a stream of messages is the first of them. -/
theorem Message.take_stream {b b' rest : Bytes} {m : Message} {ms : List Message}
    (hsized : ∀ m ∈ ms, m.Sized) (heq : b ++ b' = encodeAll ms)
    (htake : Message.take b = some (m, rest)) :
    ∃ ms', ms = m :: ms' ∧ rest ++ b' = encodeAll ms' := by
  unfold Message.take at htake
  dsimp only at htake
  split_ifs at htake with hheader hpayload
  cases htake
  have hpos : 0 < (encodeAll ms).length := by
    rw [← heq, List.length_append]
    exact Nat.lt_of_lt_of_le (Nat.lt_of_lt_of_le (by decide) hheader) (Nat.le_add_right _ _)
  obtain ⟨m, ms, rfl⟩ := exists_of_length_encodeAll hpos
  rw [encodeAll_cons] at heq
  have hdrop : b.take sizeofVSCMsgHeader = m.header.encode ∧
      b.drop sizeofVSCMsgHeader ++ b' = m.payload ++ encodeAll ms := by
    refine List.append_inj ?_ ?_
    · rw [← List.append_assoc, List.take_append_drop, heq]
    · rw [List.length_take, Nat.min_eq_left hheader, m.header.length_encode]
  have hdecode : VSCMsgHeader.decode b = m.header := by
    rw [← VSCMsgHeader.decode_encode m.header, ← hdrop.1]
    simp only [VSCMsgHeader.decode, List.take_take, List.drop_take, sizeofVSCMsgHeader]
    rfl
  rw [hdecode, hsized m (by simp)] at hpayload ⊢
  have hrest : (b.drop sizeofVSCMsgHeader).take m.payload.length = m.payload ∧
      (b.drop sizeofVSCMsgHeader).drop m.payload.length ++ b' = encodeAll ms := by
    refine List.append_inj ?_ ?_
    · rw [← List.append_assoc, List.take_append_drop, hdrop.2]
    · rw [List.length_take, Nat.min_eq_left hpayload]
  exact ⟨ms, by rw [hrest.1], hrest.2⟩

end Stream

section Sending

@[simp] theorem length_htonl (x : UInt32) : (htonl x).length = 4 := rfl

/-- `send_msg` appends the messages. -/
theorem bytes_sendMsg (ms : List Message) :
    (ms.flatMap Message.sendMsg).flatMap SendCall.bytes = encodeAll ms := by
  induction ms with
  | nil => rfl
  | cons m ms ih =>
    rw [List.flatMap_cons, List.flatMap_append, ih, encodeAll_cons]
    simp [Message.sendMsg, SendCall.bytes]

/-- The last call of `send_msg` is that of `g_idle_add`. -/
theorem getLast?_sendMsg (ms : List Message) :
    ∀ call ∈ (ms.flatMap Message.sendMsg).getLast?, call = .idleAdd := by
  intro call hcall
  rcases ms.eq_nil_or_concat with rfl | ⟨ms, m, rfl⟩
  · cases hcall
  · have hlast : ((ms ++ [m]).flatMap Message.sendMsg).getLast? = some .idleAdd := by
      rw [List.flatMap_append]
      simp [Message.sendMsg]
    rw [List.concat_eq_append, hlast] at hcall
    exact (Option.some.inj hcall).symm

namespace MainLoop

theorem foldl_sendCall : ∀ (calls : List SendCall) (s : MainLoop σ),
    calls.foldl sendCall s = { s with
      socketToSend := s.socketToSend ++ calls.flatMap SendCall.bytes
      idles := s.idles + calls.count .idleAdd }
  | [], s => by simp
  | call :: calls, s => by
    rw [List.foldl_cons, foldl_sendCall calls]
    cases call <;> simp [sendCall, SendCall.bytes, Nat.add_assoc, Nat.add_comm 1]

theorem newCalls_eq {vsc : VscClient σ} {l : List Sent}
    (h : vsc.client.sent = s.vsc.client.sent ++ l) :
    s.newCalls vsc = (l.map Sent.message).flatMap Message.sendMsg := by
  rw [newCalls, h, List.drop_left]

theorem newCalls_self (s : MainLoop σ) : s.newCalls s.vsc = [] := by
  rw [newCalls_eq (List.append_nil _).symm]
  rfl

theorem goOn_eq (s : MainLoop σ) (vsc : VscClient σ) : s.goOn vsc = { s with
    vsc := vsc
    socketToSend := s.socketToSend ++ (s.newCalls vsc).flatMap SendCall.bytes
    idles := s.idles + (s.newCalls vsc).count .idleAdd } :=
  foldl_sendCall ..

theorem goOn_vsc (s : MainLoop σ) (vsc : VscClient σ) : (s.goOn vsc).vsc = vsc := by rw [goOn_eq]

theorem threadGoesOn_vsc (s : MainLoop σ) (i : ℕ) (vsc : VscClient σ) :
    (s.threadGoesOn i vsc).vsc = vsc := by
  unfold threadGoesOn
  split_ifs <;> rfl

end MainLoop

end Sending

/-- The socket has one watch at most, and `socket_tag` is its id. -/
structure MainLoop.OneWatch (s : MainLoop σ) : Prop where
  one : s.watches = [] ∨ ∃ out, s.watches = [⟨s.socketTag, out⟩]
  tag : s.watches ≠ [] → s.socketTag ≠ 0
  fresh : s.socketTag < s.nextTag

/-- What the socket is watched for when a watch may fire. `stopped` says that the client rejected a
message. -/
structure MainLoop.Awaits (s : MainLoop σ) (stopped : Prop) : Prop where
  /-- the socket is watched for writing only if there is something to write -/
  out : ∀ w ∈ s.watches, w.out = true → s.socketToSend ≠ []
  /-- what there is to write will be -/
  awaited : s.socketToSend ≠ [] → s.Due ∨ (∃ w ∈ s.watches, w.out = true) ∨ stopped
  /-- and the socket is watched, or will be -/
  listening : s.watches ≠ [] ∨ s.Due ∨ stopped

/-- And what holds within a callback. -/
def MainLoop.During (s : MainLoop σ) (stopped : Prop) : Callback → Prop
  | .none => s.Awaits stopped
  | .wrote w readable bw => w ∈ s.watches ∧ w.out = true ∧ bw ≤ s.socketToSend.length
    ∧ (readable = true → s.vsc.unread ≠ [])
  | .removed w readable => w ∈ s.watches ∧ w.out = true ∧ (readable = true → s.vsc.unread ≠ [])
  | .reads w => w ∈ s.watches ∧ s.vsc.unread ≠ [] ∧ s.Awaits stopped
  | .updates w => ∀ v ∈ w, v ∈ s.watches
  | .looked w out => (∀ v ∈ w, v ∈ s.watches) ∧ (out = true → s.socketToSend ≠ [])
    ∧ (s.socketToSend ≠ [] → s.Due ∨ out = true)

/-- What holds in every state. -/
structure MainLoop.Watching (s : MainLoop σ) (stopped : Prop) : Prop extends OneWatch s where
  /-- a `send_msg` that has begun will ask for the callback -/
  asks : ∀ call ∈ s.sending.getLast?, call = .idleAdd
  during : s.During stopped s.callback

/-- What others do between two calls of the main loop: they append to the bytes to send, and then
the callback is due. -/
structure MainLoop.Grows (s s' : MainLoop σ) : Prop where
  watches : s'.watches = s.watches
  socketTag : s'.socketTag = s.socketTag
  nextTag : s'.nextTag = s.nextTag
  more : ∃ b, s'.socketToSend = s.socketToSend ++ b ∧ (b = [] ∨ s'.Due)
  due : s.Due → s'.Due
  asks : ∀ call ∈ s'.sending.getLast?, call = .idleAdd

namespace MainLoop

variable {stopped stopped' : Prop} {s' : MainLoop σ}

section Others

theorem Watching.during_eq (h : s.Watching stopped) {c : Callback} (hcallback : s.callback = c) :
    s.During stopped c :=
  hcallback ▸ h.during

theorem Grows.ne_nil (hg : Grows s s') (hne : s.socketToSend ≠ []) : s'.socketToSend ≠ [] := by
  obtain ⟨b, hb, -⟩ := hg.more
  rw [hb]
  exact List.append_ne_nil_of_left_ne_nil hne b

theorem Grows.due_or (hg : Grows s s') (hne : s'.socketToSend ≠ []) :
    s'.Due ∨ s.socketToSend ≠ [] := by
  obtain ⟨b, hb, rfl | hdue⟩ := hg.more
  · exact .inr (by rwa [hb, List.append_nil] at hne)
  · exact .inl hdue

theorem Awaits.grows (h : s.Awaits stopped) (hg : Grows s s') (hstopped : stopped → stopped') :
    s'.Awaits stopped' := by
  refine ⟨fun w hw hout => ?_, fun hne => ?_, ?_⟩
  · exact hg.ne_nil (h.out w (hg.watches ▸ hw) hout)
  · rw [hg.watches]
    rcases hg.due_or hne with hdue | hne
    · exact .inl hdue
    · exact (h.awaited hne).imp hg.due (Or.imp_right hstopped)
  · rw [hg.watches]
    exact h.listening.imp_right (Or.imp hg.due hstopped)

theorem During.grows {c : Callback} (h : s.During stopped c) (hg : Grows s s')
    (hread : s.vsc.unread ≠ [] → s'.vsc.unread ≠ []) : s'.During stopped c := by
  obtain ⟨b, hb, -⟩ := hg.more
  cases c with
  | none => exact Awaits.grows h hg id
  | wrote w readable bw =>
    obtain ⟨hw, hout, hbw, hunread⟩ := h
    refine ⟨hg.watches ▸ hw, hout, ?_, fun hr => hread (hunread hr)⟩
    rw [hb, List.length_append]
    exact hbw.trans (Nat.le_add_right _ _)
  | removed w readable =>
    obtain ⟨hw, hout, hunread⟩ := h
    exact ⟨hg.watches ▸ hw, hout, fun hr => hread (hunread hr)⟩
  | reads w =>
    obtain ⟨hw, hunread, hawaits⟩ := h
    exact ⟨hg.watches ▸ hw, hread hunread, hawaits.grows hg id⟩
  | updates w => exact fun v hv => hg.watches ▸ h v hv
  | looked w out =>
    obtain ⟨hw, hout, hawaited⟩ := h
    refine ⟨fun v hv => hg.watches ▸ hw v hv, fun ho => hg.ne_nil (hout ho), fun hne => ?_⟩
    rcases hg.due_or hne with hdue | hne
    · exact .inl hdue
    · exact (hawaited hne).imp_left hg.due

theorem OneWatch.grows (h : s.OneWatch) (hg : Grows s s') : s'.OneWatch := by
  obtain ⟨hone, htag, hfresh⟩ := h
  refine ⟨?_, ?_, ?_⟩
  · rwa [hg.watches, hg.socketTag]
  · rwa [hg.watches, hg.socketTag]
  · rwa [hg.socketTag, hg.nextTag]

theorem Watching.grows (h : s.Watching stopped) (hg : Grows s s')
    (hcallback : s'.callback = s.callback) (hread : s.vsc.unread ≠ [] → s'.vsc.unread ≠ []) :
    s'.Watching stopped :=
  ⟨h.toOneWatch.grows hg, hg.asks, hcallback ▸ h.during.grows hg hread⟩

/-- What the client has and what the host takes makes no difference, if nothing is read. -/
theorem Watching.frame (h : s.Watching stopped) (vsc : VscClient σ) (toHost : Bytes)
    (hunread : s.vsc.unread ≠ [] → vsc.unread ≠ []) :
    ({ s with vsc := vsc, toHost := toHost } : MainLoop σ).Watching stopped :=
  h.grows ⟨rfl, rfl, rfl, ⟨[], (List.append_nil _).symm, .inl rfl⟩, id, h.asks⟩ rfl hunread

/-- An event thread goes on. -/
theorem Watching.threadGoesOn (h : s.Watching stopped) {i : ℕ} {vsc : VscClient σ}
    (hunread : vsc.unread = s.vsc.unread) : (s.threadGoesOn i vsc).Watching stopped := by
  have hkept : s.vsc.unread ≠ [] → vsc.unread ≠ [] := fun hne => hunread ▸ hne
  unfold MainLoop.threadGoesOn
  split_ifs with hnil
  · exact h.frame vsc s.toHost hkept
  · exact h.grows ⟨rfl, rfl, rfl, ⟨[], (List.append_nil _).symm, .inl rfl⟩, fun _ => .inr hnil,
      getLast?_sendMsg _⟩ rfl hkept

/-- A call of `send_msg` is made. -/
theorem Watching.sends (h : s.Watching stopped) {call : SendCall} {calls : List SendCall}
    (hsending : s.sending = call :: calls) :
    ({ s.sendCall call with sending := calls } : MainLoop σ).Watching stopped := by
  have hlast := h.asks
  rw [hsending] at hlast
  have hasks : ∀ c ∈ calls.getLast?, c = .idleAdd := by
    intro c hc
    exact hlast c (List.mem_getLast?_cons hc)
  have hdue : ({ s.sendCall call with sending := calls } : MainLoop σ).Due := by
    rcases calls with _ | ⟨c, calls⟩
    · rw [hlast call rfl]
      exact .inl (Nat.succ_pos _)
    · exact .inr (List.cons_ne_nil _ _)
  cases call with
  | append b => exact h.grows ⟨rfl, rfl, rfl, ⟨b, rfl, .inr hdue⟩, fun _ => hdue, hasks⟩ rfl id
  | idleAdd =>
    exact h.grows ⟨rfl, rfl, rfl, ⟨[], (List.append_nil _).symm, .inl rfl⟩, fun _ => hdue, hasks⟩
      rfl id

/-- What an event thread gives to `send_msg` is to be sent. -/
theorem threadGoesOn_unsent {i : ℕ} {vsc : VscClient σ} {l : List Sent}
    (hsent : vsc.client.sent = s.vsc.client.sent ++ l) (hmay : s.MayGoOn i vsc) :
    (s.threadGoesOn i vsc).toHost = s.toHost
      ∧ (s.threadGoesOn i vsc).unsent = s.unsent ++ encodeAll (l.map Sent.message) := by
  rw [← bytes_sendMsg, ← newCalls_eq hsent]
  unfold threadGoesOn
  split_ifs with hnil
  · rw [hnil, List.flatMap_nil, List.append_nil]
    exact ⟨rfl, rfl⟩
  · have hfree : s.sending = [] := hmay.2.resolve_right hnil
    simp only [unsent, hfree, List.flatMap_nil, List.append_nil]
    exact ⟨trivial, rfl⟩

theorem Watching.sends_unsent (h : s.Watching stopped) {call : SendCall} {calls : List SendCall}
    (hsending : s.sending = call :: calls) :
    ({ s.sendCall call with sending := calls } : MainLoop σ).unsent = s.unsent := by
  rw [unsent, unsent, hsending, List.flatMap_cons, ← List.append_assoc]
  congr 1
  cases call with
  | append b =>
    simp only [unwritten, sendCall, SendCall.bytes]
    rcases hcallback : s.callback with _ | ⟨w, readable, bw⟩ | _ | _ | _ | _
    · rfl
    · exact List.drop_append_of_le_length (h.during_eq hcallback).2.2.1
    all_goals rfl
  | idleAdd => exact (List.append_nil _).symm

end Others

section Main

theorem start_watching (world : σ) : (start world).Watching stopped := by
  refine ⟨⟨.inl rfl, fun h => absurd rfl h, Nat.zero_lt_one⟩, fun c hc => (by cases hc), ?_, ?_, ?_⟩
  · intro w hw
    cases hw
  · exact fun _ => .inl (.inl Nat.zero_lt_one)
  · exact .inr (.inl (.inl Nat.zero_lt_one))

theorem OneWatch.tag_lt (h : s.OneWatch) {w : Watch} (hw : w ∈ s.watches) : w.tag < s.nextTag := by
  rcases h.one with hnil | ⟨out, hone⟩
  · rw [hnil] at hw
    cases hw
  · rw [hone, List.mem_singleton] at hw
    rw [hw]
    exact h.fresh

/-- The old watch is gone when the socket is watched anew. -/
theorem OneWatch.updateSocketWatch_eq (h : s.OneWatch) {w : Option Watch}
    (hw : ∀ v ∈ w, v ∈ s.watches) (out : Bool) :
    s.updateSocketWatch w out = { s with
      socketTag := s.nextTag
      watches := [⟨s.nextTag, out⟩]
      nextTag := s.nextTag + 1
      callback := .none } := by
  have hremoved : (if s.socketTag ≠ 0 then s.sourceRemove s.socketTag else s)
      = { s with watches := [] } := by
    split_ifs with htag
    · rcases h.one with hnil | ⟨out, hone⟩
      · simp [sourceRemove, hnil]
      · simp [sourceRemove, hone]
    · have hnil : s.watches = [] := by
        by_contra hne
        exact htag (h.tag hne)
      rw [← hnil]
  unfold updateSocketWatch
  rw [hremoved]
  rcases w with _ | w
  · rfl
  · have hkept := (h.tag_lt (hw w rfl)).ne'
    simp only [sourceRemove, List.nil_append, List.filter_cons, List.filter_nil, ne_eq, hkept,
      not_false_eq_true, decide_true, if_true]

theorem updateSocketWatch_watches (s : MainLoop σ) (w : Option Watch) (out : Bool) :
    ∃ ws, s.updateSocketWatch w out = { s with
      socketTag := s.nextTag, watches := ws, nextTag := s.nextTag + 1, callback := .none } := by
  unfold updateSocketWatch
  rcases w with _ | w <;> split_ifs <;> exact ⟨_, rfl⟩

/-- The socket is watched for writing if there was something to write, or the callback is due. -/
theorem Watching.updateSocketWatch (h : s.Watching stopped) {w : Option Watch} {out : Bool}
    (hlooked : s.During stopped (.looked w out)) :
    (s.updateSocketWatch w out).Watching stopped := by
  obtain ⟨hw, hout, hawaited⟩ := hlooked
  have hfresh := h.fresh
  rw [h.updateSocketWatch_eq hw]
  refine ⟨⟨.inr ⟨_, rfl⟩, fun _ => (Nat.zero_lt_of_lt hfresh).ne', Nat.lt_succ_self _⟩, h.asks, ?_,
    fun hne => ?_, .inl (List.cons_ne_nil _ _)⟩
  · intro v hv ho
    rw [List.mem_singleton.1 hv] at ho
    exact hout ho
  · exact (hawaited hne).imp_right fun ho => .inl ⟨_, List.mem_singleton.2 rfl, ho⟩

/-- A watch that is removed without another in its place was the only one. -/
theorem OneWatch.remove (h : s.OneWatch) {w : Watch} (hw : w ∈ s.watches) :
    (s.sourceRemove w.tag).watches = [] := by
  rcases h.one with hnil | ⟨out, hone⟩
  · rw [hnil] at hw
    cases hw
  · rw [hone, List.mem_singleton] at hw
    simp [sourceRemove, hone, hw]

/-- What `do_socket_read` leaves. -/
def afterRead (s : MainLoop σ) (w : Watch) (r : SocketRead) (vsc : VscClient σ) : MainLoop σ :=
  if r.result then { s.goOn vsc with callback := .none }
  else sourceRemove { s.goOn vsc with callback := .none } w.tag

/-- What a call of the callback does: it reads, or leaves the client alone. -/
inductive Goes (readers : CardReaders σ) (s : MainLoop σ) : SocketRead → MainLoop σ → Prop
  | quiet {s' : MainLoop σ} (hvsc : s'.vsc = s.vsc)
    (hbytes : s'.toHost ++ s'.unsent = s.toHost ++ s.unsent)
    (hwatching : ∀ stopped, s.Watching stopped → s'.Watching stopped) :
    Goes readers s ⟨true, none⟩ s'
  | reads {w : Watch} {r : SocketRead} {vsc : VscClient σ} (hcallback : s.callback = .reads w)
    (hread : Libcacard.doSocketRead readers s.vsc = .ok (r, vsc)) :
    Goes readers s r (s.afterRead w r vsc)

/-- Unless the bytes that were written are still there, what there is to send is unwritten. -/
theorem unwritten_eq (h : ∀ w readable bw, s.callback ≠ .wrote w readable bw) :
    s.unwritten = s.socketToSend := by
  unfold unwritten
  split
  · next w readable bw hcallback => exact absurd hcallback (h w readable bw)
  · rfl

/-- The bytes that were written are removed. -/
theorem Watching.removes (h : s.Watching stopped) {w : Watch} {readable : Bool} {bw : ℕ}
    (hcallback : s.callback = .wrote w readable bw) : ({ s with
      socketToSend := s.socketToSend.drop bw, callback := .removed w readable } :
        MainLoop σ).Watching stopped := by
  obtain ⟨hw, hout, -, hunread⟩ := h.during_eq hcallback
  exact ⟨⟨h.one, h.tag, h.fresh⟩, h.asks, hw, hout, hunread⟩

/-- `do_socket` looks at what is left. -/
theorem Watching.removed (h : s.Watching stopped) {w : Watch} {readable : Bool}
    (hcallback : s.callback = .removed w readable) : ({ s with
      callback := if s.socketToSend.length = 0 then .updates (some w)
        else if readable then .reads w
        else .none } : MainLoop σ).Watching stopped := by
  obtain ⟨hw, hout, hunread⟩ := h.during_eq hcallback
  have hawaits : s.socketToSend.length ≠ 0 → s.Awaits stopped := fun hne =>
    ⟨fun _ _ _ => mt List.length_eq_zero_iff.2 hne, fun _ => .inr (.inl ⟨w, hw, hout⟩),
      .inl (List.ne_nil_of_mem hw)⟩
  refine ⟨⟨h.one, h.tag, h.fresh⟩, h.asks, ?_⟩
  dsimp only
  split_ifs with hnil hreadable
  · exact fun v hv => Option.some.inj hv ▸ hw
  · obtain ⟨hfor, hawaited, hlistening⟩ := hawaits hnil
    exact ⟨hw, hunread hreadable, hfor, hawaited, hlistening⟩
  · obtain ⟨hfor, hawaited, hlistening⟩ := hawaits hnil
    exact ⟨hfor, hawaited, hlistening⟩

/-- `update_socket_watch` looks whether there is something to send. -/
theorem Watching.looks (h : s.Watching stopped) {w : Option Watch}
    (hcallback : s.callback = .updates w) : ({ s with
      callback := .looked w (decide (0 < s.socketToSend.length)) } :
        MainLoop σ).Watching stopped := by
  refine ⟨⟨h.one, h.tag, h.fresh⟩, h.asks, h.during_eq hcallback, fun hout => ?_,
    fun hne => .inr ?_⟩
  · exact List.length_pos_iff.1 (of_decide_eq_true hout)
  · exact decide_eq_true (List.length_pos_iff.2 hne)

theorem goes (readers : CardReaders σ) (s : MainLoop σ) {r : SocketRead} {s' : MainLoop σ}
    (h : s.goesOn readers = .ok (r, s')) : Goes readers s r s' := by
  unfold goesOn at h
  rcases hcallback : s.callback with _ | ⟨w, readable, bw⟩ | ⟨w, readable⟩ | w | w | ⟨w, out⟩ <;>
    rw [hcallback] at h
  · cases h
    exact .quiet rfl rfl fun _ h => h
  · cases h
    exact .quiet rfl (by simp only [unsent, unwritten, hcallback]) fun _ h => h.removes hcallback
  · cases h
    refine .quiet rfl ?_ fun _ h => h.removed hcallback
    rw [unsent, unsent, unwritten_eq, unwritten_eq]
    · simp only [hcallback]
      exact fun _ _ _ heq => by cases heq
    · dsimp only
      split_ifs <;> exact fun _ _ _ heq => by cases heq
  · obtain ⟨⟨r', vsc⟩, hread, h⟩ := bind_eq_ok.1 h
    cases h
    exact .reads hcallback hread
  · cases h
    exact .quiet rfl (by simp only [unsent, unwritten, hcallback]) fun _ h => h.looks hcallback
  · cases h
    obtain ⟨ws, hws⟩ := s.updateSocketWatch_watches w out
    refine .quiet (by rw [hws]) ?_ fun _ h => h.updateSocketWatch (h.during_eq hcallback)
    rw [hws]
    simp only [unsent, unwritten, hcallback]

/-- A watch that fires writes or is going to read, and nothing is asserted in vain. -/
theorem Watching.doSocket_eq (h : s.Watching stopped) {w : Watch} (hw : w ∈ s.watches)
    {out readable : Bool} (hmay : s.MayFire w out readable) (bw : ℕ) :
    s.doSocket w out readable bw = if out then { s with
        toHost := s.toHost ++ s.socketToSend.take (min bw s.socketToSend.length)
        callback := .wrote w readable (min bw s.socketToSend.length) }
      else { s with callback := .reads w } := by
  obtain ⟨hcallback, hfor, hout, -⟩ := hmay
  have hduring := h.during_eq hcallback
  unfold doSocket
  rcases out with _ | _
  · rw [if_neg Bool.false_ne_true, if_neg Bool.false_ne_true,
      if_pos (hfor.resolve_left Bool.false_ne_true)]
  · have hne := hduring.out w hw (hout rfl)
    rw [if_pos rfl, if_pos rfl, doSocketSend, if_neg]
    rintro (hnil | hno)
    · exact hne (List.length_eq_zero_iff.1 hnil)
    · exact hno rfl

theorem Watching.doSocket (h : s.Watching stopped) {w : Watch} (hw : w ∈ s.watches)
    {out readable : Bool} (hmay : s.MayFire w out readable) (bw : ℕ) :
    (s.doSocket w out readable bw).Watching stopped
      ∧ (s.doSocket w out readable bw).toHost ++ (s.doSocket w out readable bw).unsent
        = s.toHost ++ s.unsent
      ∧ (s.doSocket w out readable bw).vsc = s.vsc := by
  rw [h.doSocket_eq hw hmay bw]
  obtain ⟨hcallback, hfor, hout, hreadable⟩ := hmay
  have hduring := h.during_eq hcallback
  split_ifs with hwrites
  · refine ⟨⟨⟨h.one, h.tag, h.fresh⟩, h.asks, hw, hout hwrites, Nat.min_le_right _ _, hreadable⟩,
      ?_, rfl⟩
    simp only [unsent, unwritten, hcallback]
    rw [List.append_assoc, ← List.append_assoc (List.take _ _), List.take_append_drop]
  · refine ⟨⟨⟨h.one, h.tag, h.fresh⟩, h.asks, hw, hreadable (hfor.resolve_left hwrites),
      hduring.out, hduring.awaited, hduring.listening⟩, ?_, rfl⟩
    simp only [unsent, unwritten, hcallback]

theorem Watching.socketPrepareSending (h : s.Watching stopped) (hcallback : s.callback = .none) :
    s.socketPrepareSending.Watching stopped ∧ s.socketPrepareSending.unsent = s.unsent :=
  ⟨⟨⟨h.one, h.tag, h.fresh⟩, h.asks, fun v hv => by cases hv⟩,
    by simp only [MainLoop.socketPrepareSending, unsent, unwritten, hcallback]⟩

theorem Watching.unread_of_reads (h : s.Watching stopped) {w : Watch}
    (hcallback : s.callback = .reads w) : s.vsc.unread ≠ [] :=
  (h.during_eq hcallback).2.1

theorem goOn_grows (h : s.Watching stopped) (vsc : VscClient σ) : Grows s (s.goOn vsc) := by
  rw [goOn_eq]
  refine ⟨rfl, rfl, rfl, ⟨_, rfl, ?_⟩, Or.imp_left (Nat.lt_add_right _), h.asks⟩
  rcases hlast : (s.newCalls vsc).getLast? with _ | call
  · rw [List.getLast?_eq_none_iff.1 hlast]
    exact .inl rfl
  · obtain rfl : call = .idleAdd := getLast?_sendMsg _ call hlast
    have hcount := List.count_pos_iff.2 (List.mem_of_getLast? hlast)
    exact .inr (.inl (Nat.lt_of_lt_of_le hcount (Nat.le_add_left _ _)))

theorem afterRead_vsc (s : MainLoop σ) (w : Watch) (r : SocketRead) (vsc : VscClient σ) :
    (s.afterRead w r vsc).vsc = vsc := by
  unfold afterRead
  split_ifs <;> exact s.goOn_vsc vsc

/-- The client reads, and has stopped if it rejected a message. -/
theorem Watching.reads (h : s.Watching stopped) {w : Watch} (hcallback : s.callback = .reads w)
    {r : SocketRead} (vsc : VscClient σ) (hstopped : stopped → stopped')
    (hrejected : r.result = false → stopped') : (s.afterRead w r vsc).Watching stopped' := by
  obtain ⟨hw, -, hawaits⟩ := h.during_eq hcallback
  have hgrows := goOn_grows h vsc
  have hone := h.toOneWatch.grows hgrows
  have hnext : ({ s.goOn vsc with callback := .none } : MainLoop σ).OneWatch :=
    ⟨hone.one, hone.tag, hone.fresh⟩
  have hawaits' := hawaits.grows hgrows hstopped
  unfold afterRead
  rcases hresult : r.result with _ | _
  · have hnil := hnext.remove (show w ∈ (s.goOn vsc).watches from hgrows.watches ▸ hw)
    have hstop := hrejected hresult
    rw [if_neg Bool.false_ne_true]
    refine ⟨⟨.inl hnil, fun hne => absurd hnil hne, hnext.fresh⟩, hgrows.asks, fun v hv => ?_,
      fun _ => .inr (.inr hstop), .inr (.inr hstop)⟩
    rw [hnil] at hv
    cases hv
  · rw [if_pos rfl]
    exact ⟨hnext, hgrows.asks, hawaits'.out, hawaits'.awaited, hawaits'.listening⟩

/-- What the client sends as it reads is behind what was there. -/
theorem afterRead_bytes {w : Watch} (hcallback : s.callback = .reads w) (r : SocketRead)
    {vsc : VscClient σ} {l : List Sent} (hsent : vsc.client.sent = s.vsc.client.sent ++ l)
    (hlock : s.HasLock vsc) : (s.afterRead w r vsc).toHost ++ (s.afterRead w r vsc).unsent
      = s.toHost ++ s.unsent ++ encodeAll (l.map Sent.message) := by
  have hunsent : s.socketToSend ++ (s.newCalls vsc).flatMap SendCall.bytes
        ++ s.sending.flatMap SendCall.bytes
      = s.unsent ++ encodeAll (l.map Sent.message) := by
    rw [← bytes_sendMsg, ← newCalls_eq hsent]
    simp only [unsent, unwritten, hcallback]
    rcases hlock with hfree | hnone
    · simp only [hfree, List.flatMap_nil, List.append_nil]
    · simp only [hnone, List.flatMap_nil, List.append_nil]
  rw [List.append_assoc s.toHost, ← hunsent, afterRead, goOn_eq]
  split_ifs <;> rfl

end Main

end MainLoop

end Libcacard
