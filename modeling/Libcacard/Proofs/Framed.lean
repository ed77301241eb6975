import Libcacard.Link
import Libcacard.Proofs.MainLoop

/-!
# A call in a stream that goes on

The reader's variables tell which of the messages to come it reads, whatever comes behind them. A
call reads on, takes the first message, or rejects it, and what the client makes of the message
depends on the payload and on nothing else in the buffer.
-/

namespace Libcacard

open Machine

variable {σ : Type} {readers : CardReaders σ}

section Handling

/-- The replies of the readers fit the buffer of `do_socket_read`. -/
def CardReaders.Bounded (readers : CardReaders σ) : Prop :=
  ∀ world ids id command, (readers.xfrBytes world ids id command).2.1.length ≤ apduBufSize

theorem sendMsg_sized (c : Client σ) {type : VSCMsgType} (id : UInt32) {msg : Bytes}
    {about : Option ℕ} (hlen : msg.length ≤ apduBufSize) :
    ∃ l, (c.sendMsg type id msg about).sent = c.sent ++ l ∧ ∀ q ∈ l, q.message.Sized := by
  refine ⟨_, rfl, fun q hq => ?_⟩
  rw [List.mem_singleton.1 hq]
  exact UInt32.toNat_ofNat_of_lt (Nat.lt_of_le_of_lt hlen (by decide))

/-- What the client sends when it handles a message. -/
theorem handle_sent (hb : readers.Bounded) {c c' : Client σ} {h : VSCMsgHeader} {b : Bytes}
    {goesOn : Bool} (hr : c.handle readers h b = .ok (goesOn, c')) :
    ∃ l, c'.sent = c.sent ++ l ∧ ∀ q ∈ l, q.message.Sized := by
  have hnone : ∃ l, c.sent = c.sent ++ l ∧ ∀ q ∈ l, q.message.Sized :=
    ⟨[], (List.append_nil _).symm, fun q hq => by cases hq⟩
  unfold Client.handle at hr
  split_ifs at hr
  · obtain ⟨command, -, hr⟩ := bind_eq_ok.1 hr
    cases hr
    unfold Client.onApdu
    dsimp only
    split_ifs
    · exact sendMsg_sized { c with world := _ } h.readerId (hb ..)
    · refine sendMsg_sized { c with world := _ } h.readerId ?_
      rcases (readers.xfrBytes c.world c.readerId h.readerId command).1 <;> decide
  · cases hr
    exact sendMsg_sized c h.readerId (Nat.zero_le _)
  · obtain ⟨code, -, hr⟩ := bind_eq_ok.1 hr
    cases hr
    unfold Client.onError
    split_ifs
    · rcases c.pendingReader <;> exact hnone
    · exact hnone
    · exact hnone
  · obtain ⟨init, -, hr⟩ := bind_eq_ok.1 hr
    obtain ⟨r, -, hr⟩ := bind_eq_ok.1 hr
    rcases r with _ | init'
    · cases hr
      exact hnone
    · cases hr
      exact sendMsg_sized c vscardMinimalReaderId (Nat.zero_le _)

theorem threadStep_sent {c c' : Client σ} {atr : Bytes} {t t' : EventThread}
    (hatr : atr.length ≤ maxAtrLen) (h : c.threadStep atr t = some (t', c')) :
    ∃ l, c'.sent = c.sent ++ l ∧ ∀ q ∈ l, q.message.Sized := by
  have hnone : ∃ l, c.sent = c.sent ++ l ∧ ∀ q ∈ l, q.message.Sized :=
    ⟨[], (List.append_nil _).symm, fun q hq => by cases hq⟩
  rcases t with _ | event | event | event | event | ⟨event, readerId⟩ | ⟨event, readerId⟩
  · unfold Client.threadStep at h
    rcases hev : c.events with _ | ⟨event, events⟩ <;> rw [hev] at h <;> cases h
    exact hnone
  · simp only [Client.threadStep] at h
    split_ifs at h <;> cases h <;> exact hnone
  · simp only [Client.threadStep] at h
    split_ifs at h <;> cases h <;> exact hnone
  · simp only [Client.threadStep] at h
    split_ifs at h
    cases h
    exact hnone
  · simp only [Client.threadStep] at h
    split_ifs at h <;> cases h <;> exact hnone
  · rcases event with ⟨type, reader⟩
    rcases type <;> simp only [Client.threadStep] at h
    · split_ifs at h
      cases h
      exact hnone
    · cases h
      exact sendMsg_sized c readerId (Nat.zero_le _)
    · cases h
      exact sendMsg_sized c readerId (hatr.trans (by decide))
    · cases h
      exact sendMsg_sized c readerId (Nat.zero_le _)
    · cases h
      exact hnone
  · cases h
    exact sendMsg_sized c readerId (Nat.zero_le _)

/-- The client reads no more of its buffer than the payload. -/
theorem handle_congr (readers : CardReaders σ) (c : Client σ) {m : Message}
    {b b' : ByteArr apduBufSize} (hm : m.Proper)
    (hb : b.1.take m.payload.length = m.payload) (hb' : b'.1.take m.payload.length = m.payload) :
    c.handle readers m.header b.1 = c.handle readers m.header b'.1 := by
  have hread : ∀ n ≤ m.payload.length, readBytes b.1 0 n = readBytes b'.1 0 n := by
    intro n hn
    have hroom := hm.wellFormed.length_le
    have htake : ∀ x : ByteArr apduBufSize, x.1.take m.payload.length = m.payload →
        readBytes x.1 0 n = .ok (m.payload.take n) := by
      intro x hx
      rw [readBytes_of_le (by rw [x.2]; omega), List.drop_zero, ← hx, List.take_take,
        Nat.min_eq_left hn]
    rw [htake b hb, htake b' hb']
  unfold Client.handle
  split_ifs with h₁ h₂ h₃ h₄
  · rw [hread _ hm.wellFormed.length.le]
  · rfl
  · rw [hread _ (hm.error h₃)]
  · rw [hread _ (hm.init h₄).ge]
  · rfl

end Handling

section Reads

/-- A call that hands on no message leaves the client alone, and one that does has the client
handle what is in the buffer. -/
theorem doSocketRead_handled {c c' : VscClient σ} {r : SocketRead}
    (h : doSocketRead readers c = .ok (r, c')) :
    (r.dispatched = none ∧ c'.client = c.client)
      ∨ ∃ (m : Message) (b : ByteArr apduBufSize), r.dispatched = some m
        ∧ b.1.take m.header.length.toNat = m.payload
        ∧ c.client.handle readers m.header b.1 = .ok (r.result, c'.client) := by
  obtain ⟨s', -, h⟩ := bind_eq_ok.1 h
  dsimp only at h
  split_ifs at h with hpart
  · cases h
    exact .inl ⟨rfl, rfl⟩
  · rcases hstate : s'.state <;> rw [hstate] at h
    · cases h
      exact .inl ⟨rfl, rfl⟩
    · obtain ⟨⟨goesOn, client⟩, hr, h⟩ := bind_eq_ok.1 h
      cases h
      exact .inr ⟨_, s'.pbSendBuffer, rfl, rfl, hr⟩

/-- The reader stands in a stream of these messages, and more messages may follow. -/
def Framed (s : SocketReader) (todo : List Message) (rest : Bytes) : Prop :=
  ∀ later, (∀ m ∈ later, m.WellFormed) → Reading s (todo ++ later) (rest ++ encodeAll later)

theorem framed_start : Framed .start [] [] := fun later _ => reading_start later

/-- A whole message follows. -/
theorem Framed.append {s : SocketReader} {todo : List Message} {rest : Bytes} {m : Message}
    (h : Framed s todo rest) (hm : m.WellFormed) : Framed s (todo ++ [m]) (rest ++ m.encode) := by
  intro later hlater
  have := h (m :: later) (List.forall_mem_cons.2 ⟨hm, hlater⟩)
  rwa [List.append_assoc, List.singleton_append, List.append_assoc, ← encodeAll_singleton,
    ← encodeAll_append, List.singleton_append]

/-- Nothing is there to read where no message is to come. -/
theorem Reading.ne_nil {s : SocketReader} {todo : List Message} {rest : Bytes}
    (h : Reading s todo rest) (hrest : rest ≠ []) : todo ≠ [] := by
  rintro rfl
  generalize hnil : ([] : List Message) = todo at h
  rcases h with ⟨-, -, -, -, -, heq⟩ | _ | _
  · subst hnil
    exact hrest (List.append_eq_nil_iff.1 heq).2
  · cases hnil
  · exact hrest rfl

/-- The header that is read now is that of a message to come. -/
theorem Reading.handled {c : VscClient σ} {todo : List Message} {later : Bytes}
    (hok : c.socket.Ok) (hwf : ∀ m ∈ todo, m.WellFormed)
    (h : Reading c.socket todo (c.unread ++ later)) : ∀ hd ∈ c.headerRead, hd.Handled := by
  intro hd hmem
  unfold VscClient.headerRead at hmem
  dsimp only at hmem
  split_ifs at hmem with hread
  · obtain ⟨hphase, hle⟩ := hread
    rw [c.socket.enter_state] at hphase
    generalize hrest : c.unread ++ later = rest at h
    rcases h with ⟨-, hbuf, htoRead, -, hbytes, heq⟩ | ⟨hstate, -, -, -, -, -, -⟩ | _
    · subst hrest
      obtain ⟨m, todo, rfl, hm, -⟩ := header_of_complete hbuf htoRead hbytes heq hle
      rw [hm, VSCMsgHeader.decode_encode, Option.mem_some_iff] at hmem
      exact hmem ▸ (hwf m (by simp)).handled
    · rw [hphase] at hstate
      cases hstate
    · have := (hok.enter_header hphase).2
      rw [(List.append_eq_nil_iff.1 hrest).1, List.length_nil] at hle
      omega
  · cases hmem

/-- What a call returns, and where it leaves the reader. -/
inductive Returned (c : VscClient σ) (r : SocketRead) (c' : VscClient σ) : Prop
  | reads (hr : r.dispatched = none) (hgoes : r.result = true)
  | unknown (hr : r.dispatched = none) (hd : VSCMsgHeader) (hmem : hd ∈ c.headerRead)
    (hunknown : ¬ hd.Handled)
  | took {m : Message} (hr : r.dispatched = some m) (hgoes : r.result = true)
    (hstate : c'.socket.state = .header)
  | rejects {m : Message} (hr : r.dispatched = some m) (hgoes : r.result = false)
    (hstate : c'.socket.state = .message) (htoRead : c'.socket.toRead = 0)
    (htype : c'.socket.mhHeader.type = VSCMsgType.init.value)
    (hmagic : c'.socket.pbSendBuffer.1.take 4 ≠ vscardMagic)

theorem doSocketRead_returned {c c' : VscClient σ} {r : SocketRead} (hok : c.socket.Ok)
    (hcall : doSocketRead readers c = .ok (r, c')) : Returned c r c' := by
  obtain ⟨s', hreads, hcalled⟩ := doSocketRead_called readers hok
  have hstate := c.socket.enter_state
  rw [hcall] at hcalled
  generalize hx : (Except.ok (r, c') : Except Fault (SocketRead × VscClient σ)) = x at hcalled
  rcases hcalled with hlt | ⟨hle, hphase⟩ | ⟨hle, hphase⟩
  · cases hx
    exact .reads rfl rfl
  · cases hx
    unfold SocketReader.onHeader
    dsimp only
    split_ifs with hh
    · exact .reads rfl rfl
    · refine .unknown rfl _ ?_ hh
      rw [VscClient.headerRead, if_pos ⟨hstate.trans hphase, hle⟩,
        ← hreads.headerBytes (hok.enter_header hphase).1]
      rfl
  · obtain ⟨⟨goesOn, client⟩, hr, hx⟩ := bind_eq_ok.1 hx.symm
    cases hx
    rcases goesOn
    · obtain ⟨-, htype, hmagic⟩ := handle_eq_false hr
      refine .rejects rfl rfl (hreads.state.trans (hstate.trans hphase)) ?_ htype hmagic
      rw [if_neg Bool.false_ne_true, hreads.toRead, List.length_take, Nat.min_eq_left hle,
        Nat.sub_self]
    · exact .took rfl rfl rfl

/-- What a call does where messages are to come and more may follow. -/
inductive FramedCall (c' : VscClient σ) (r : SocketRead) (later : Bytes) : List Message → Prop
  | reads {todo : List Message} (hr : r.dispatched = none) (hgoes : r.result = true)
    (h : Framed c'.socket todo (c'.unread ++ later)) : FramedCall c' r later todo
  | took {m : Message} {todo : List Message} (hr : r.dispatched = some m)
    (hgoes : r.result = true) (h : Framed c'.socket todo (c'.unread ++ later)) :
    FramedCall c' r later (m :: todo)
  | rejects {m : Message} {todo : List Message} (hr : r.dispatched = some m)
    (hgoes : r.result = false) (h : Stuck c'.socket) : FramedCall c' r later (m :: todo)

/-- The message that is handed on is the first to come. -/
theorem first_dispatched {c' : VscClient σ} {r : SocketRead} {todo : List Message} {later : Bytes}
    (hcalls : ∀ more, (∀ m ∈ more, m.WellFormed) →
      CallReads c' r (later ++ encodeAll more) (todo ++ more))
    (htodo : todo ≠ []) (hr : r.dispatched ≠ none) :
    ∃ m todo', todo = m :: todo' ∧ r.dispatched = some m := by
  obtain ⟨m, todo, rfl⟩ := List.exists_cons_of_ne_nil htodo
  have hcallReads := hcalls [] (fun m hm => by cases hm)
  rw [List.append_nil] at hcallReads
  rcases hcallReads with ⟨hr', -⟩ | ⟨hr', -, -⟩
  · exact absurd hr' hr
  · exact ⟨m, todo, rfl, hr'⟩

/-- A call of the reader in a stream of messages. -/
theorem Framed.call {c c' : VscClient σ} {r : SocketRead} {todo : List Message} {later : Bytes}
    (hok : c.socket.Ok) (hwf : ∀ m ∈ todo, m.WellFormed) (hunread : c.unread ≠ [])
    (h : Framed c.socket todo (c.unread ++ later)) (hcall : doSocketRead readers c = .ok (r, c')) :
    c'.socket.Ok ∧ FramedCall c' r later todo := by
  have hread : ∀ more, (∀ m ∈ more, m.WellFormed) →
      Reading c.socket (todo ++ more) (c.unread ++ (later ++ encodeAll more)) :=
    fun more hmore => List.append_assoc c.unread _ _ ▸ h more hmore
  have hnow := hread [] (fun m hm => by cases hm)
  rw [List.append_nil] at hnow
  have hne := hnow.ne_nil (List.append_ne_nil_of_left_ne_nil hunread _)
  have hok' := hok.of_doSocketRead (hnow.headerRead hok hwf) hcall
  have hcalls : ∀ more, (∀ m ∈ more, m.WellFormed) →
      CallReads c' r (later ++ encodeAll more) (todo ++ more) := fun more hmore =>
    (hread more hmore).call hok hok' (List.forall_mem_append.2 ⟨hwf, hmore⟩) hunread hcall
  refine ⟨hok', ?_⟩
  rcases doSocketRead_returned hok hcall with ⟨hr, hgoes⟩ | ⟨-, hd, hmem, hunknown⟩
    | ⟨hr, hgoes, hstate⟩ | ⟨hr, hgoes, hstate, htoRead, htype, hmagic⟩
  · refine .reads hr hgoes fun more hmore => ?_
    rw [List.append_assoc]
    have hcallReads := hcalls more hmore
    generalize todo ++ more = todo' at hcallReads ⊢
    rcases hcallReads with ⟨-, hreading⟩ | ⟨hr', -, -⟩
    · exact hreading
    · rw [hr] at hr'
      cases hr'
  · exact absurd (hnow.handled hok hwf hd hmem) hunknown
  · obtain ⟨m, todo, rfl, hm⟩ :=
      first_dispatched hcalls hne (by rw [hr]; exact Option.some_ne_none _)
    refine .took hm hgoes fun more hmore => ?_
    rw [List.append_assoc]
    have hcallReads := hcalls more hmore
    rw [List.cons_append] at hcallReads
    rcases hcallReads with ⟨hr', -⟩ | ⟨-, -, hreading | ⟨hstuck, -⟩⟩
    · rw [hr] at hr'
      cases hr'
    · exact hreading
    · have := hstuck.state
      rw [hstate] at this
      cases this
  · obtain ⟨m, todo, rfl, hm⟩ :=
      first_dispatched hcalls hne (by rw [hr]; exact Option.some_ne_none _)
    exact .rejects hm hgoes ⟨hok', hstate, htoRead, htype, hmagic⟩

end Reads

end Libcacard
