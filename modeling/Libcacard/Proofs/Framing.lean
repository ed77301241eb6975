import Libcacard.Proofs.SocketRead

/-!
# Messages out of a stream

The reader's variables tell how much of which message has been read, however the stream came in.
A message is handed on by the call that reads its last byte; one without a payload has to wait for
the next call.
-/

namespace Libcacard

open Machine

variable {σ : Type} {readers : CardReaders σ}

theorem take_splice_append {α : Type*} {b : List α} (xs : List α) {i : ℕ} (h : i ≤ b.length) :
    (splice b i xs).take (i + xs.length) = b.take i ++ xs :=
  List.take_left' (by rw [List.length_append, List.length_take, Nat.min_eq_left h])

@[simp] theorem encodeAll_nil : encodeAll [] = [] := rfl

theorem encodeAll_cons (m : Message) (ms : List Message) :
    encodeAll (m :: ms) = m.header.encode ++ (m.payload ++ encodeAll ms) := by
  rw [encodeAll, List.map_cons, List.flatten_cons, Message.encode, List.append_assoc]
  rfl

/-- Messages start with a header. -/
theorem exists_of_length_encodeAll : ∀ {ms : List Message}, 0 < (encodeAll ms).length →
    ∃ m ms', ms = m :: ms'
  | [], h => absurd h (by simp)
  | m :: ms, _ => ⟨m, ms, rfl⟩

theorem eq_nil_of_length_encodeAll : ∀ {ms : List Message},
    (encodeAll ms).length < sizeofVSCMsgHeader → ms = []
  | [], _ => rfl
  | m :: ms, h => by
    rw [encodeAll_cons, List.length_append, m.header.length_encode] at h
    omega

/-- What the reader has read of the messages to come, and the bytes of them that follow. -/
inductive Reading (s : SocketReader) : List Message → Bytes → Prop
  | header {todo : List Message} {p rest : Bytes} (hstate : s.state = .header)
    (hbuf : s.enter.buf = p.length) (htoRead : s.enter.toRead + p.length = sizeofVSCMsgHeader)
    (hlt : p.length < sizeofVSCMsgHeader) (hbytes : s.headerBytes.1.take p.length = p)
    (heq : p ++ rest = encodeAll todo) : Reading s todo rest
  | message {m : Message} {todo : List Message} {p rest : Bytes} (hstate : s.state = .message)
    (hheader : s.mhHeader = m.header) (hbuf : s.buf = p.length)
    (htoRead : s.toRead + p.length = m.payload.length)
    (hbytes : s.pbSendBuffer.1.take p.length = p)
    (hopen : m.payload = [] ∨ p.length < m.payload.length)
    (heq : p ++ rest = m.payload ++ encodeAll todo) : Reading s (m :: todo) rest
  | finished : Reading s [] []

/-- The reader stands before a message it has rejected. -/
structure Stuck (s : SocketReader) : Prop where
  ok : s.Ok
  state : s.state = .message
  toRead : s.toRead = 0
  type : s.mhHeader.type = VSCMsgType.init.value
  magic : s.pbSendBuffer.1.take 4 ≠ vscardMagic

theorem reading_start (ms : List Message) : Reading .start ms (encodeAll ms) :=
  .header (p := []) rfl rfl rfl (by decide) rfl rfl

/-- What a call does with messages to come: it reads on, or hands on the first of them. -/
inductive CallReads (c' : VscClient σ) (r : SocketRead) (later : Bytes) : List Message → Prop
  | reads {todo : List Message} (hr : r.dispatched = none)
    (h : Reading c'.socket todo (c'.unread ++ later)) : CallReads c' r later todo
  | hands {m : Message} {todo : List Message} (hr : r.dispatched = some m)
    (hlast : todo = [] → m.payload ≠ [])
    (h : Reading c'.socket todo (c'.unread ++ later)
      ∨ Stuck c'.socket ∧ c'.unread ++ later ≠ []) : CallReads c' r later (m :: todo)

theorem SocketReader.enter_pending {s : SocketReader} (h : 0 < s.toRead) : s.enter = s := by
  unfold enter
  rw [if_neg fun h' => h.ne' h'.2]

theorem SocketReader.enter_headerBytes (s : SocketReader) :
    s.enter.headerBytes = s.headerBytes := by
  unfold enter
  split_ifs <;> rfl

theorem take_append_drop_later (pre unread later : Bytes) (n : ℕ) :
    pre ++ unread.take n ++ (unread.drop n ++ later) = pre ++ (unread ++ later) := by
  rw [List.append_assoc, ← List.append_assoc (unread.take n), List.take_append_drop]

/-- The header that is completed is that of the first message to come. -/
theorem header_of_complete {s : SocketReader} {todo : List Message} {pre unread later : Bytes}
    (hbuf : s.enter.buf = pre.length)
    (htoRead : s.enter.toRead + pre.length = sizeofVSCMsgHeader)
    (hbytes : s.headerBytes.1.take pre.length = pre)
    (heq : pre ++ (unread ++ later) = encodeAll todo) (hle : s.enter.toRead ≤ unread.length) :
    ∃ m todo', todo = m :: todo'
      ∧ splice s.enter.headerBytes.1 s.enter.buf (unread.take s.enter.toRead) = m.header.encode
      ∧ unread.drop s.enter.toRead ++ later = m.payload ++ encodeAll todo' := by
  have hroom := s.headerBytes.2
  have hlen : (unread.take s.enter.toRead).length = s.enter.toRead := by
    rw [List.length_take, Nat.min_eq_left hle]
  have hwhole : splice s.enter.headerBytes.1 s.enter.buf (unread.take s.enter.toRead)
      = pre ++ unread.take s.enter.toRead := by
    rw [s.enter_headerBytes, hbuf, ← List.take_of_length_le (i := pre.length + s.enter.toRead)
      (l := splice _ _ _) (by rw [length_splice (by omega)]; omega)]
    have := take_splice_append (unread.take s.enter.toRead)
      (show pre.length ≤ s.headerBytes.1.length by omega)
    rw [hlen] at this
    rw [this, hbytes]
  have hsplit : pre ++ unread.take s.enter.toRead ++ (unread.drop s.enter.toRead ++ later)
      = encodeAll todo := (take_append_drop_later ..).trans heq
  have htwelve : (pre ++ unread.take s.enter.toRead).length = sizeofVSCMsgHeader := by
    rw [List.length_append]
    omega
  obtain ⟨m, todo, rfl⟩ := exists_of_length_encodeAll
    (show 0 < (encodeAll todo).length by
      rw [← hsplit, List.length_append, htwelve]
      exact Nat.lt_of_lt_of_le (by decide) (Nat.le_add_right _ _))
  rw [encodeAll_cons] at hsplit
  obtain ⟨hm, hrest⟩ := List.append_inj hsplit (htwelve.trans m.header.length_encode.symm)
  exact ⟨m, todo, rfl, hwhole.trans hm, hrest⟩

/-- The payload that is completed is that of the message. -/
theorem payload_of_complete {m : Message} {todo : List Message} {pre unread later : Bytes} {n : ℕ}
    (hn : n + pre.length = m.payload.length)
    (heq : pre ++ (unread ++ later) = m.payload ++ encodeAll todo) (hle : n ≤ unread.length) :
    pre ++ unread.take n = m.payload ∧ unread.drop n ++ later = encodeAll todo := by
  have hsplit := (take_append_drop_later pre unread later n).trans heq
  refine List.append_inj hsplit ?_
  rw [List.length_append, List.length_take, Nat.min_eq_left hle]
  omega

/-- Where the reader is when it has handed on a message. -/
theorem reading_handed {c c' : Client σ} {s : SocketReader} {todo : List Message} {rest : Bytes}
    {goesOn : Bool} (hr : c.handle readers s.mhHeader s.pbSendBuffer.1 = .ok (goesOn, c'))
    (hok : (if goesOn then { s with state := .header } else s : SocketReader).Ok)
    (hstate : s.state = .message) (hdone : s.toRead = 0) (hrest : rest = encodeAll todo) :
    Reading (if goesOn then { s with state := .header } else s) todo rest
      ∨ Stuck (if goesOn then { s with state := .header } else s) ∧ rest ≠ [] := by
  rcases goesOn
  · obtain ⟨-, htype, hmagic⟩ := handle_eq_false hr
    rcases eq_or_ne rest [] with hnil | hmore
    · have : todo = [] := eq_nil_of_length_encodeAll (by rw [← hrest, hnil]; decide)
      rw [hnil, this]
      exact .inl .finished
    · exact .inr ⟨⟨hok, hstate, hdone, htype, hmagic⟩, hmore⟩
  · left
    have henter : ({ s with state := .header } : SocketReader).enter
        = { s with
          state := .header, inMessage := false, buf := 0, toRead := sizeofVSCMsgHeader } := by
      simp [SocketReader.enter, hdone]
    exact .header (p := []) rfl (by rw [if_pos rfl, henter]; rfl)
      (by rw [if_pos rfl, henter]; rfl) (by decide) rfl hrest

/-- Part of a header, or all of it, is read. -/
theorem Reading.callHeader {c c' : VscClient σ} {r : SocketRead} {s' : SocketReader}
    {todo : List Message} {pre later : Bytes} (hok : c.socket.Ok)
    (hwf : ∀ m ∈ todo, m.WellFormed) (hstate : c.socket.state = .header)
    (hbuf : c.socket.enter.buf = pre.length)
    (htoRead : c.socket.enter.toRead + pre.length = sizeofVSCMsgHeader)
    (hbytes : c.socket.headerBytes.1.take pre.length = pre)
    (heq : pre ++ (c.unread ++ later) = encodeAll todo)
    (hreads : c.socket.enter.Reads (c.unread.take c.socket.enter.toRead) s')
    (hcalled : Called readers c s' (.ok (r, c'))) : CallReads c' r later todo := by
  have hs'state : s'.state = .header := hreads.state.trans (c.socket.enter_state.trans hstate)
  have hgot := hreads.headerBytes (hok.enter_header hstate).1
  rw [c.socket.enter_headerBytes, hbuf] at hgot
  have htake : s'.headerBytes.1.take (pre.length + (c.unread.take c.socket.enter.toRead).length)
      = pre ++ c.unread.take c.socket.enter.toRead := by
    have hroom := c.socket.headerBytes.2
    rw [hgot, take_splice_append _ (by omega), hbytes]
  generalize hx : (Except.ok (r, c') : Except Fault (SocketRead × VscClient σ)) = x at hcalled
  rcases hcalled with hlt | ⟨hle, -⟩ | ⟨-, hphase⟩
  · cases hx
    have hall : c.unread.take c.socket.enter.toRead = c.unread := List.take_of_length_le hlt.le
    rw [hall] at htake hreads
    have hleft : 0 < s'.toRead := by
      rw [hreads.toRead]
      omega
    refine .reads rfl (.header (p := pre ++ c.unread) hs'state ?_ ?_ ?_ ?_ ?_)
    · rw [SocketReader.enter_pending hleft, hreads.buf, hbuf, List.length_append]
    · rw [SocketReader.enter_pending hleft, hreads.toRead, List.length_append]
      omega
    · rw [List.length_append]
      omega
    · rw [List.length_append, htake]
    · rw [← heq, List.nil_append, List.append_assoc]
  · cases hx
    obtain ⟨m, todo, rfl, hm, hrest⟩ := header_of_complete hbuf htoRead hbytes heq hle
    rw [← hreads.headerBytes (hok.enter_header hstate).1] at hm
    have hmwf := hwf m (by simp)
    have hon : s'.onHeader = (true, { s' with
        mhHeader := m.header, inMessage := true, buf := 0, toRead := m.header.length.toNat
        state := .message }) := by
      simp [SocketReader.onHeader, hm, hmwf.handled]
    refine .reads rfl ?_
    rw [hon]
    refine .message (p := []) rfl rfl rfl hmwf.length rfl ?_ hrest
    rcases hp : m.payload with _ | ⟨x, xs⟩
    · exact .inl rfl
    · exact .inr (by simp)
  · rw [hstate] at hphase
    cases hphase

/-- Part of a payload, or all of it, is read. -/
theorem Reading.callMessage {c c' : VscClient σ} {r : SocketRead} {s' : SocketReader}
    {m : Message} {todo : List Message} {pre later : Bytes} (hok : c.socket.Ok)
    (hok' : c'.socket.Ok) (hm : m.WellFormed) (hunread : c.unread ≠ [])
    (hstate : c.socket.state = .message) (hheader : c.socket.mhHeader = m.header)
    (hbuf : c.socket.buf = pre.length) (htoRead : c.socket.toRead + pre.length = m.payload.length)
    (hbytes : c.socket.pbSendBuffer.1.take pre.length = pre)
    (heq : pre ++ (c.unread ++ later) = m.payload ++ encodeAll todo)
    (hreads : c.socket.enter.Reads (c.unread.take c.socket.enter.toRead) s')
    (hcalled : Called readers c s' (.ok (r, c'))) : CallReads c' r later (m :: todo) := by
  have henter := SocketReader.enter_message hstate
  rw [henter] at hreads
  have hs'state : s'.state = .message := hreads.state.trans hstate
  have hs'header : s'.mhHeader = m.header := hreads.mhHeader.trans hheader
  have hgot := hreads.pbSendBuffer (hok.inMessage hstate)
  rw [hbuf] at hgot
  have hroom := c.socket.pbSendBuffer.2
  have hfits := hm.length_le
  have htake : s'.pbSendBuffer.1.take (pre.length + (c.unread.take c.socket.toRead).length)
      = pre ++ c.unread.take c.socket.toRead := by
    rw [hgot, take_splice_append _ (by omega), hbytes]
  generalize hx : (Except.ok (r, c') : Except Fault (SocketRead × VscClient σ)) = x at hcalled
  rcases hcalled with hlt | ⟨-, hphase⟩ | ⟨hle, -⟩
  · cases hx
    rw [henter] at hlt
    have hall : c.unread.take c.socket.toRead = c.unread := List.take_of_length_le hlt.le
    rw [hall] at htake hreads
    refine .reads rfl (.message (p := pre ++ c.unread) hs'state hs'header ?_ ?_ ?_ ?_ ?_)
    · rw [hreads.buf, hbuf, List.length_append]
    · rw [hreads.toRead, List.length_append]
      omega
    · rw [List.length_append, htake]
    · right
      rw [List.length_append]
      omega
    · rw [← heq, List.nil_append, List.append_assoc]
  · rw [hstate] at hphase
    cases hphase
  · obtain ⟨⟨goesOn, client⟩, hr, hx⟩ := bind_eq_ok.1 hx.symm
    cases hx
    rw [henter] at hle ⊢
    have hlen : (c.unread.take c.socket.toRead).length = c.socket.toRead := by
      rw [List.length_take, Nat.min_eq_left hle]
    have hdone : s'.toRead = 0 := by
      rw [hreads.toRead, hlen, Nat.sub_self]
    obtain ⟨hpayload, hrest⟩ := payload_of_complete htoRead heq hle
    have hdispatched : (⟨s'.mhHeader, s'.pbSendBuffer.1.take s'.mhHeader.length.toNat⟩ : Message)
        = m := by
      rw [hs'header, hm.length, ← hpayload, List.length_append, htake, hpayload]
    rw [hdispatched]
    refine .hands rfl ?_ (reading_handed hr hok' hs'state hdone hrest)
    -- an empty payload at the end of the stream would leave nothing to be called for
    rintro rfl hnil
    rw [hnil, List.nil_append, encodeAll_nil, List.append_eq_nil_iff, List.append_eq_nil_iff] at heq
    exact hunread heq.2.1

/-- A call with something to read, of messages to come. -/
theorem Reading.call {c c' : VscClient σ} {r : SocketRead} {todo : List Message} {later : Bytes}
    (hok : c.socket.Ok) (hok' : c'.socket.Ok) (hwf : ∀ m ∈ todo, m.WellFormed)
    (hunread : c.unread ≠ []) (h : Reading c.socket todo (c.unread ++ later))
    (hcall : doSocketRead readers c = .ok (r, c')) : CallReads c' r later todo := by
  obtain ⟨s', hreads, hcalled⟩ := doSocketRead_called readers hok
  rw [hcall] at hcalled
  generalize hrest : c.unread ++ later = rest at h
  rcases h with ⟨hstate, hbuf, htoRead, hlt, hbytes, heq⟩
    | ⟨hstate, hheader, hbuf, htoRead, hbytes, hopen, heq⟩ | _
  · subst hrest
    exact Reading.callHeader hok hwf hstate hbuf htoRead hbytes heq hreads hcalled
  · subst hrest
    exact Reading.callMessage hok hok' (hwf _ (by simp)) hunread hstate hheader hbuf htoRead hbytes
      heq hreads hcalled
  · exact absurd (List.append_eq_nil_iff.1 hrest).1 hunread

/-- The header that is read now is one of a message to come. -/
theorem Reading.headerRead {c : VscClient σ} {todo : List Message} {later : Bytes}
    (hok : c.socket.Ok) (hwf : ∀ m ∈ todo, m.WellFormed)
    (h : Reading c.socket todo (c.unread ++ later)) :
    ∀ hd ∈ c.headerRead, hd.Handled → hd.length.toNat ≤ apduBufSize := by
  intro hd hmem _
  unfold VscClient.headerRead at hmem
  dsimp only at hmem
  split_ifs at hmem with hread
  · obtain ⟨hphase, hle⟩ := hread
    rw [c.socket.enter_state] at hphase
    generalize hrest : c.unread ++ later = rest at h
    rcases h with ⟨-, hbuf, htoRead, -, hbytes, heq⟩ | ⟨hstate, -, -, -, -, -, -⟩ | _
    · subst hrest
      obtain ⟨m, todo, rfl, hm, -⟩ := header_of_complete hbuf htoRead hbytes heq hle
      rw [hm, VSCMsgHeader.decode_encode, Option.mem_some_iff] at hmem
      have := hwf m (by simp)
      rw [← hmem, this.length]
      exact this.length_le
    · rw [hphase] at hstate
      cases hstate
    · have := (hok.enter_header hphase).2
      rw [(List.append_eq_nil_iff.1 hrest).1, List.length_nil] at hle
      omega
  · cases hmem

/-- The payload that is completed is that of the first message to come. -/
theorem Reading.messageRead {c : VscClient σ} {todo : List Message} {later : Bytes}
    (hwf : ∀ m ∈ todo, m.WellFormed) (hne : c.unread ++ later ≠ [])
    (h : Reading c.socket todo (c.unread ++ later)) :
    ∀ x ∈ c.messageRead, ∃ m ∈ todo, x.1 = m.header ∧ x.2.take m.payload.length = m.payload := by
  intro x hmem
  unfold VscClient.messageRead at hmem
  dsimp only at hmem
  split_ifs at hmem with hread
  · obtain ⟨hphase, hle⟩ := hread
    rw [c.socket.enter_state] at hphase
    rw [SocketReader.enter_message hphase] at hmem hle
    cases hmem
    generalize hrest : c.unread ++ later = rest at h hne
    rcases h with ⟨hstate, -, -, -, -, -⟩ | ⟨-, hheader, hbuf, htoRead, hbytes, -, heq⟩ | _
    · rw [hphase] at hstate
      cases hstate
    · rename_i m todo pre
      subst hrest
      have hroom := c.socket.pbSendBuffer.2
      have hfits := (hwf m (by simp)).length_le
      have hlen : (c.unread.take c.socket.toRead).length = c.socket.toRead := by
        rw [List.length_take, Nat.min_eq_left hle]
      have hpayload : pre.length + (c.unread.take c.socket.toRead).length = m.payload.length := by
        rw [hlen, Nat.add_comm, htoRead]
      refine ⟨m, by simp, hheader, ?_⟩
      rw [hbuf, ← hpayload, take_splice_append _ (by omega), hbytes]
      exact (payload_of_complete htoRead heq hle).1
    · exact absurd rfl hne
  · cases hmem

/-- What comes fits the buffers if each `VSC_Init` announces one capability. -/
theorem Reading.fits {c : VscClient σ} {todo : List Message} {later : Bytes}
    (hok : c.socket.Ok) (hwf : ∀ m ∈ todo, m.WellFormed) (hone : ∀ m ∈ todo, m.OneCapability)
    (hunread : c.unread ≠ []) (h : Reading c.socket todo (c.unread ++ later)) : c.Fits := by
  refine ⟨h.headerRead hok hwf, fun x hx htype hmagic => ?_⟩
  obtain ⟨m, hm, hheader, hpayload⟩ :=
    h.messageRead hwf (List.append_ne_nil_of_left_ne_nil hunread _) x hx
  by_contra hlen
  rw [hheader, (hwf m hm).length] at hlen
  have hstart : m.payload.take 4 = vscardMagic := by
    rw [← hpayload, List.take_take, Nat.min_eq_left (by omega), hmagic]
  exact hlen (hone m hm (hheader ▸ htype) hstart)

theorem handle_rejects {c c' : Client σ} {h : VSCMsgHeader} {b : Bytes} {goesOn : Bool}
    (hr : c.handle readers h b = .ok (goesOn, c')) (htype : h.type = VSCMsgType.init.value)
    (hmagic : b.take 4 ≠ vscardMagic) : goesOn = false := by
  unfold Client.handle at hr
  rw [htype, if_neg (by decide), if_neg (by decide), if_neg (by decide), if_pos rfl] at hr
  obtain ⟨init, hinit, hr⟩ := bind_eq_ok.1 hr
  unfold readBytes at hinit
  split_ifs at hinit
  cases hinit
  have : ¬ (b.drop 0 |>.take sizeofVSCMsgInit).take 4 = vscardMagic := by
    rwa [List.drop_zero, List.take_take, Nat.min_eq_left (by decide)]
  simp only [onHostInit, VSCMsgInit.ofBytes, ne_eq, this, not_false_eq_true, if_true, ok_bind] at hr
  cases hr
  rfl

/-- Before a rejected message, nothing more is ever read. -/
theorem Stuck.call {c c' : VscClient σ} {r : SocketRead} (h : Stuck c.socket)
    (hcall : doSocketRead readers c = .ok (r, c')) :
    Stuck c'.socket ∧ c'.unread = c.unread := by
  obtain ⟨s', hreads, hcalled⟩ := doSocketRead_called readers h.ok
  rw [hcall, SocketReader.enter_message h.state, h.toRead, List.take_zero] at *
  generalize hx : (Except.ok (r, c') : Except Fault (SocketRead × VscClient σ)) = x at hcalled
  rcases hcalled with hlt | ⟨-, hphase⟩ | ⟨-, -⟩
  · rw [SocketReader.enter_message h.state, h.toRead] at hlt
    omega
  · rw [h.state] at hphase
    cases hphase
  · obtain ⟨⟨goesOn, client⟩, hr, hx⟩ := bind_eq_ok.1 hx.symm
    have hbuffer := hreads.pbSendBuffer (h.ok.inMessage h.state)
    rw [splice_nil] at hbuffer
    rw [hreads.mhHeader, hbuffer] at hr
    have := handle_rejects hr h.type h.magic
    subst this
    cases hx
    rw [SocketReader.enter_message h.state, h.toRead, List.drop_zero]
    refine ⟨⟨hreads.ok h.ok (Nat.zero_le _), hreads.state.trans h.state, ?_, ?_, ?_⟩, rfl⟩
    · exact hreads.toRead.trans h.toRead
    · exact (congrArg VSCMsgHeader.type hreads.mhHeader).trans h.type
    · exact hbuffer ▸ h.magic

theorem Stuck.fits {c : VscClient σ} (h : Stuck c.socket) : c.Fits := by
  constructor
  · intro hd hmem
    rw [VscClient.headerRead, if_neg] at hmem
    · cases hmem
    · rintro ⟨hphase, -⟩
      rw [c.socket.enter_state, h.state] at hphase
      cases hphase
  · intro x hx _ hmagic
    rw [VscClient.messageRead, SocketReader.enter_message h.state, h.toRead, List.take_zero,
      splice_nil] at hx
    split_ifs at hx
    · cases hx
      exact absurd hmagic h.magic
    · cases hx

theorem arrived_cons (ev : SocketEvent) (events : List SocketEvent) :
    arrived (ev :: events) = arrived [ev] ++ arrived events := by
  rcases ev with piece | _ <;> simp [arrived]

theorem Stuck.run : ∀ {events : List SocketEvent} {c c' : VscClient σ}
    {os : List (Option SocketRead)}, Stuck c.socket → c.unread ++ arrived events ≠ [] →
      run (socketStep readers) c events = .ok (os, c') → c'.unread ≠ []
  | [], c, c', os, _, hne, hrun => by
    cases hrun
    simpa [arrived] using hne
  | .arrive piece :: events, c, c', os, h, hne, hrun => by
    obtain ⟨o, c₁, os', hstep, hrun', rfl⟩ := run_cons_eq_ok.1 hrun
    cases hstep
    refine Stuck.run (c := ⟨c.socket, c.client, c.unread ++ piece⟩) h ?_ hrun'
    rw [arrived_cons] at hne
    simpa [arrived] using hne
  | .call :: events, c, c', os, h, hne, hrun => by
    obtain ⟨o, c₁, os', hstep, hrun', rfl⟩ := run_cons_eq_ok.1 hrun
    obtain ⟨⟨r, c₂⟩, hcall, hstep⟩ := bind_eq_ok.1 hstep
    cases hstep
    obtain ⟨h₁, hunread⟩ := h.call hcall
    refine h₁.run ?_ hrun'
    rw [hunread]
    simpa [arrived] using hne

/-- When everything has been read, only a message without a payload is left over. -/
theorem Reading.left_over {s : SocketReader} {todo : List Message} (h : Reading s todo []) :
    todo = [] ∨ ∃ m, todo = [m] ∧ m.payload = [] := by
  generalize hrest : ([] : Bytes) = rest at h
  rcases h with ⟨-, -, -, hlt, -, heq⟩ | ⟨-, -, -, htoRead, -, hopen, heq⟩ | _
  · left
    subst hrest
    rw [List.append_nil] at heq
    exact eq_nil_of_length_encodeAll (heq ▸ hlt)
  · right
    subst hrest
    rw [List.append_nil] at heq
    rename_i m todo pre
    have hlen := congrArg List.length heq
    rw [List.length_append] at hlen
    rcases hopen with hnil | hlt
    · rw [hnil, List.length_nil] at htoRead hlen
      have : todo = [] := eq_nil_of_length_encodeAll (by
        rw [sizeofVSCMsgHeader]
        omega)
      exact ⟨m, by rw [this], hnil⟩
    · omega
  · exact .inl rfl

/-- A run that reads everything hands on what there was to come, unless the last message has no
payload. -/
theorem Reading.run : ∀ {events : List SocketEvent} {c c' : VscClient σ}
    {os : List (Option SocketRead)} {d todo : List Message}, c.socket.Ok →
      (∀ m ∈ todo, m.WellFormed) → Reading c.socket todo (c.unread ++ arrived events) →
      (todo = [] → ∀ m ∈ d.getLast?, m.payload ≠ []) →
      Along (socketStep readers) Prompt c events →
      run (socketStep readers) c events = .ok (os, c') → c'.unread = [] →
      (d ++ dispatchedIn os = d ++ todo ↔
        ∀ m ∈ (d ++ todo).getLast?, m.payload ≠ [])
  | [], c, c', os, d, todo, _, _, h, hlast, _, hrun, hunread => by
    cases hrun
    rw [hunread, List.nil_append] at h
    rcases h.left_over with rfl | ⟨m, rfl, hnil⟩
    · rw [List.append_nil]
      exact iff_of_true (List.append_nil _) (hlast rfl)
    · refine iff_of_false (fun heq => ?_) fun hne => ?_
      · exact absurd (congrArg List.length (List.append_cancel_left heq)) (by simp [dispatchedIn])
      · exact hne m (by simp) hnil
  | .arrive piece :: events, c, c', os, d, todo, hok, hwf, h, hlast, hprompt, hrun, hunread => by
    obtain ⟨o, c₁, os', hstep, hrun', rfl⟩ := run_cons_eq_ok.1 hrun
    have hnext := hprompt.2 o c₁ hstep
    cases hstep
    have hnone : dispatchedIn (none :: os') = dispatchedIn os' := rfl
    rw [hnone]
    refine Reading.run (c := ⟨c.socket, c.client, c.unread ++ piece⟩) hok hwf ?_ hlast hnext hrun'
      hunread
    rw [arrived_cons] at h
    simpa [arrived] using h
  | .call :: events, c, c', os, d, todo, hok, hwf, h, hlast, hprompt, hrun, hunread => by
    obtain ⟨o, c₁, os', hstep, hrun', rfl⟩ := run_cons_eq_ok.1 hrun
    have hnext := hprompt.2 o c₁ hstep
    obtain ⟨⟨r, c₂⟩, hcall, hstep⟩ := bind_eq_ok.1 hstep
    cases hstep
    rw [arrived_cons] at h
    have hok₁ := hok.of_doSocketRead (h.headerRead hok hwf) hcall
    rcases h.call hok hok₁ hwf hprompt.1 hcall with ⟨hr, h₁⟩ | ⟨hr, hlast₁, h₁⟩
    · have hnone : dispatchedIn (some r :: os') = dispatchedIn os' := by simp [dispatchedIn, hr]
      rw [hnone]
      exact Reading.run hok₁ hwf h₁ hlast hnext hrun' hunread
    · rename_i m todo
      rcases h₁ with h₁ | ⟨hstuck, hne⟩
      · have hsome : dispatchedIn (some r :: os') = m :: dispatchedIn os' := by
          simp [dispatchedIn, hr]
        have := Reading.run (d := d ++ [m]) hok₁ (fun m' hm' => hwf m' (by simp [hm'])) h₁
          (fun htodo m' hm' => by
            rw [List.getLast?_concat, Option.mem_some_iff] at hm'
            exact hm' ▸ hlast₁ htodo) hnext hrun' hunread
        rwa [List.append_assoc, List.append_assoc, List.singleton_append, List.singleton_append,
          ← hsome] at this
      · exact absurd hunread (hstuck.run hne hrun')

/-- Messages are to come, or the reader stands before one it has rejected. -/
def Follows (c : VscClient σ) (todo : List Message) (later : Bytes) : Prop :=
  Reading c.socket todo (c.unread ++ later) ∨ Stuck c.socket

namespace Follows

variable {c c' : VscClient σ} {todo : List Message} {later : Bytes}

theorem fits (hok : c.socket.Ok) (hwf : ∀ m ∈ todo, m.WellFormed)
    (hone : ∀ m ∈ todo, m.OneCapability) (hunread : c.unread ≠ []) (h : Follows c todo later) :
    c.Fits := by
  rcases h with h | hstuck
  · exact h.fits hok hwf hone hunread
  · exact hstuck.fits

theorem call {r : SocketRead} (hok : c.socket.Ok) (hwf : ∀ m ∈ todo, m.WellFormed)
    (hunread : c.unread ≠ []) (h : Follows c todo later)
    (hcall : doSocketRead readers c = .ok (r, c')) :
    c'.socket.Ok ∧ ∃ todo' ⊆ todo, Follows c' todo' later := by
  rcases h with h | hstuck
  · have hok' := hok.of_doSocketRead (h.headerRead hok hwf) hcall
    rcases h.call hok hok' hwf hunread hcall with ⟨-, h'⟩ | ⟨-, -, h' | ⟨hstuck, -⟩⟩
    · exact ⟨hok', _, List.Subset.refl _, .inl h'⟩
    · exact ⟨hok', _, List.subset_cons_self .., .inl h'⟩
    · exact ⟨hok', _, List.Subset.refl _, .inr hstuck⟩
  · have hstuck' := (hstuck.call hcall).1
    exact ⟨hstuck'.ok, todo, List.Subset.refl _, .inr hstuck'⟩

theorem arrive {piece : Bytes} {events : List SocketEvent}
    (h : Follows c todo (arrived (.arrive piece :: events))) :
    Follows { c with unread := c.unread ++ piece } todo (arrived events) := by
  rw [arrived_cons] at h
  exact h.imp (fun h => by simpa [arrived] using h) id

end Follows

end Libcacard
