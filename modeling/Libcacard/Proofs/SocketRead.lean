import Libcacard.SocketRead

/-!
# What a call of the reader does

A call reads part of what it waits for, or completes a header, or completes a message and hands
it on. It stays inside its buffers just if the lengths in the headers let it.
-/

namespace Libcacard

open Machine

variable {σ : Type} {readers : CardReaders σ}

section Capabilities

theorem numCapabilities_le_one {length : UInt32} (h : length.toNat < 16) :
    (numCapabilities length).toNat ≤ 1 := by
  simp only [numCapabilities, toSize, toInt32, sizeofVSCMsgInit, Int.bmod_def]
  split <;> omega

theorem two_le_numCapabilities {length : UInt32} (h : 16 ≤ length.toNat) :
    2 ≤ (numCapabilities length).toNat := by
  have := length.toNat_lt
  simp only [numCapabilities, toSize, toInt32, sizeofVSCMsgInit, Int.bmod_def]
  split <;> omega

theorem ntohlCapabilities_eq_ok {caps : List UInt32} : ∀ {n i : ℕ}, i + n ≤ caps.length →
    ∃ caps', ntohlCapabilities n i caps = .ok caps'
  | 0, _, _ => ⟨caps, rfl⟩
  | n + 1, i, h => by
    have hi : i < caps.length := by omega
    simp only [ntohlCapabilities, List.getElem?_eq_getElem hi]
    exact ntohlCapabilities_eq_ok (by rw [List.length_set]; omega)

/-- The local copy has room for one capability. -/
theorem onHostInit_eq_ok {length : UInt32} {b : Bytes}
    (h : b.take 4 = vscardMagic → length.toNat < 16) :
    ∃ r, onHostInit length (.ofBytes b) = .ok r := by
  rcases eq_or_ne (b.take 4) vscardMagic with hmagic | hmagic
  · have := numCapabilities_le_one (h hmagic)
    obtain ⟨caps, hcaps⟩ := ntohlCapabilities_eq_ok
      (show 0 + (numCapabilities length).toNat ≤ [leUInt32 ((b.drop 8).take 4)].length by
        rw [List.length_singleton]; omega)
    exact ⟨_, by simp only [onHostInit, VSCMsgInit.ofBytes, hmagic, ne_eq, not_true_eq_false,
      if_false, hcaps, ok_bind, pure_eq]; rfl⟩
  · exact ⟨none, by simp [onHostInit, VSCMsgInit.ofBytes, hmagic]⟩

theorem length_lt_of_onHostInit {length : UInt32} {b : Bytes} {r : Option VSCMsgInit}
    (h : onHostInit length (.ofBytes b) = .ok r) (hmagic : b.take 4 = vscardMagic) :
    length.toNat < 16 := by
  by_contra hlen
  obtain ⟨n, hn⟩ := Nat.exists_eq_add_of_le' (two_le_numCapabilities (Nat.le_of_not_lt hlen))
  simp [onHostInit, VSCMsgInit.ofBytes, hmagic, hn, ntohlCapabilities] at h

end Capabilities

namespace SocketReader

variable {s : SocketReader} {bytes : Bytes}

theorem room_header (h : s.inMessage = false) : s.room = sizeofVSCMsgHeader := by simp [room, h]

theorem room_message (h : s.inMessage = true) : s.room = apduBufSize := by simp [room, h]

/-- What is read comes behind what was read before. -/
structure Reads (s : SocketReader) (bytes : Bytes) (s' : SocketReader) : Prop where
  state : s'.state = s.state
  inMessage : s'.inMessage = s.inMessage
  mhHeader : s'.mhHeader = s.mhHeader
  buf : s'.buf = s.buf + bytes.length
  toRead : s'.toRead = s.toRead - bytes.length
  headerBytes : s.inMessage = false → s'.headerBytes.1 = splice s.headerBytes.1 s.buf bytes
  pbSendBuffer : s.inMessage = true → s'.pbSendBuffer.1 = splice s.pbSendBuffer.1 s.buf bytes

theorem readChars_eq_ok (h : s.buf + bytes.length ≤ s.room) :
    ∃ s', s.readChars bytes = .ok s' ∧ s.Reads bytes s' := by
  unfold readChars
  rcases hin : s.inMessage
  · rw [room_header hin] at h
    simp only [h, dif_pos, Bool.false_eq_true, if_false]
    exact ⟨_, rfl, rfl, hin.symm, rfl, rfl, rfl, fun _ => rfl, fun h' => by simp [hin] at h'⟩
  · rw [room_message hin] at h
    simp only [h, dif_pos, if_true]
    exact ⟨_, rfl, rfl, hin.symm, rfl, rfl, rfl, fun h' => by simp [hin] at h', fun _ => rfl⟩

theorem Reads.nil (s : SocketReader) : s.Reads [] s :=
  ⟨rfl, rfl, rfl, rfl, rfl, fun _ => splice_nil.symm, fun _ => splice_nil.symm⟩

/-- What the reader's variables are between two calls. -/
structure Ok (s : SocketReader) : Prop where
  inBounds : s.buf + s.toRead ≤ s.room
  inMessage : s.state = .message → s.inMessage = true
  inHeader : s.state = .header → 0 < s.toRead → s.inMessage = false
  handled : s.state = .message → s.mhHeader.Handled
  length_le : s.state = .message → s.mhHeader.length.toNat ≤ apduBufSize

theorem start_ok : SocketReader.start.Ok :=
  ⟨by decide, by decide, by decide, by decide, by decide⟩

theorem enter_state (s : SocketReader) : s.enter.state = s.state := by
  unfold enter
  split_ifs <;> rfl

theorem enter_message (h : s.state = .message) : s.enter = s := by
  unfold enter
  rw [if_neg]
  rintro ⟨hs, -⟩
  rw [h] at hs
  cases hs

theorem Ok.enter (h : s.Ok) : s.enter.Ok := by
  unfold SocketReader.enter
  split_ifs with hs
  · rcases hs with ⟨hstate, -⟩
    refine ⟨by simp [room], ?_, fun _ _ => rfl, ?_, ?_⟩ <;> rw [hstate] <;> rintro ⟨⟩
  · exact h

/-- A header is read into its own bytes. -/
theorem Ok.enter_header (h : s.Ok) (hs : s.state = .header) :
    s.enter.inMessage = false ∧ 0 < s.enter.toRead := by
  unfold SocketReader.enter
  split_ifs with h₀
  · exact ⟨rfl, show 0 < 12 by decide⟩
  · have : 0 < s.toRead := Nat.pos_of_ne_zero fun h' => h₀ ⟨hs, h'⟩
    exact ⟨h.inHeader hs this, this⟩

theorem Reads.ok {s' : SocketReader} (h : s.Ok) (hle : bytes.length ≤ s.toRead)
    (hr : s.Reads bytes s') : s'.Ok := by
  have hroom : s'.room = s.room := by rw [room, room, hr.inMessage]
  have := h.inBounds
  refine ⟨?_, ?_, ?_, ?_, ?_⟩
  · rw [hroom, hr.buf, hr.toRead]
    omega
  · rw [hr.state, hr.inMessage]
    exact h.inMessage
  · rw [hr.state, hr.inMessage, hr.toRead]
    exact fun hs h₀ => h.inHeader hs (by omega)
  · rw [hr.state, hr.mhHeader]
    exact h.handled
  · rw [hr.state, hr.mhHeader]
    exact h.length_le

theorem read_eq_ok (h : s.buf + s.toRead ≤ s.room) (unread : Bytes) :
    ∃ s', s.read (unread.take s.toRead) = .ok s' ∧ s.Reads (unread.take s.toRead) s' := by
  unfold read
  split_ifs with h₀
  · refine readChars_eq_ok (Nat.le_trans ?_ h)
    exact Nat.add_le_add_left (List.length_take_le _ _) _
  · rw [Nat.eq_zero_of_not_pos h₀, List.take_zero]
    exact ⟨s, rfl, .nil s⟩

end SocketReader

/-- What a call does with what it read. -/
inductive Called (readers : CardReaders σ) (c : VscClient σ) (s : SocketReader) :
    Except Fault (SocketRead × VscClient σ) → Prop
  | part (hlt : c.unread.length < c.socket.enter.toRead) :
    Called readers c s (.ok (⟨true, none⟩, ⟨s, c.client, []⟩))
  | header (hle : c.socket.enter.toRead ≤ c.unread.length) (hstate : c.socket.state = .header) :
    Called readers c s (.ok (⟨s.onHeader.1, none⟩,
      ⟨s.onHeader.2, c.client, c.unread.drop c.socket.enter.toRead⟩))
  | message (hle : c.socket.enter.toRead ≤ c.unread.length) (hstate : c.socket.state = .message) :
    Called readers c s (do
      let r ← c.client.handle readers s.mhHeader s.pbSendBuffer.1
      return (⟨r.1, some ⟨s.mhHeader, s.pbSendBuffer.1.take s.mhHeader.length.toNat⟩⟩,
        ⟨if r.1 then { s with state := .header } else s, r.2,
          c.unread.drop c.socket.enter.toRead⟩))

theorem doSocketRead_called (readers : CardReaders σ) {c : VscClient σ} (h : c.socket.Ok) :
    ∃ s', c.socket.enter.Reads (c.unread.take c.socket.enter.toRead) s'
      ∧ Called readers c s' (doSocketRead readers c) := by
  have hbounds := h.enter.inBounds
  have hstate := c.socket.enter_state
  generalize hs : c.socket.enter = s at hbounds hstate
  obtain ⟨s', hok, hreads⟩ := SocketReader.read_eq_ok hbounds c.unread
  have htake : c.unread.take (min s.toRead c.unread.length) = c.unread.take s.toRead := by
    rcases Nat.le_total s.toRead c.unread.length with hle | hle
    · rw [Nat.min_eq_left hle]
    · rw [Nat.min_eq_right hle, List.take_of_length_le le_rfl, List.take_of_length_le hle]
  refine ⟨s', hreads, ?_⟩
  have hleft := hreads.toRead
  rw [List.length_take] at hleft
  unfold doSocketRead
  simp only [hs, htake, hok, ok_bind, pure_eq]
  rcases Nat.lt_or_ge c.unread.length s.toRead with hlt | hle
  · rw [if_pos (by omega), Nat.min_eq_right hlt.le, List.drop_length]
    exact .part (hs ▸ hlt)
  · rw [if_neg (by omega), Nat.min_eq_left hle, hreads.state, hstate]
    subst hs
    rcases hphase : c.socket.state
    · exact .header hle hphase
    · exact .message hle hphase

section HandedOn

/-- A message whose payload was read goes through, but for what `on_host_init` does. -/
theorem handle_eq_ok (readers : CardReaders σ) (c : Client σ) {h : VSCMsgHeader}
    {b : ByteArr apduBufSize} (hh : h.Handled) (hlen : h.length.toNat ≤ apduBufSize)
    (hinit : h.type = VSCMsgType.init.value → b.1.take 4 = vscardMagic → h.length.toNat < 16) :
    ∃ r, c.handle readers h b.1 = .ok r := by
  have hb := b.2
  have hread : ∀ {n}, n ≤ apduBufSize → readBytes b.1 0 n = .ok ((b.1.drop 0).take n) :=
    fun hn => readBytes_of_le (by omega)
  unfold Client.handle
  split_ifs with h₁ h₂ h₃ h₄
  · rw [hread hlen]
    exact ⟨_, rfl⟩
  · exact ⟨_, rfl⟩
  · rw [hread (by decide)]
    exact ⟨_, rfl⟩
  · rw [hread (by decide), ok_bind, List.drop_zero]
    obtain ⟨r, hr⟩ := onHostInit_eq_ok (b := b.1.take sizeofVSCMsgInit) fun hmagic =>
      hinit h₄ (by rwa [List.take_take, Nat.min_eq_left (by decide)] at hmagic)
    rw [hr]
    rcases r with _ | init
    · exact ⟨_, rfl⟩
    · exact ⟨_, rfl⟩
  · simp only [VSCMsgHeader.Handled, List.mem_cons, List.not_mem_nil, or_false] at hh
    tauto

/-- Only a rejected `VSC_Init` ends the reading. -/
theorem handle_eq_false {readers : CardReaders σ} {c c' : Client σ} {h : VSCMsgHeader} {b : Bytes}
    (hr : c.handle readers h b = .ok (false, c')) :
    c' = c ∧ h.type = VSCMsgType.init.value ∧ b.take 4 ≠ vscardMagic := by
  unfold Client.handle at hr
  split_ifs at hr with h₁ h₂ h₃ h₄
  · obtain ⟨_, -, hr⟩ := bind_eq_ok.1 hr
    cases hr
  · cases hr
  · obtain ⟨_, -, hr⟩ := bind_eq_ok.1 hr
    cases hr
  · obtain ⟨init, hinit, hr⟩ := bind_eq_ok.1 hr
    obtain ⟨r, hr', hr⟩ := bind_eq_ok.1 hr
    rcases r with _ | i
    · cases hr
      refine ⟨rfl, h₄, fun hmagic => ?_⟩
      unfold readBytes at hinit
      split_ifs at hinit
      cases hinit
      rw [onHostInit, VSCMsgInit.ofBytes] at hr'
      dsimp only at hr'
      rw [List.drop_zero, List.take_take, Nat.min_eq_left (by decide), hmagic] at hr'
      obtain ⟨_, -, hr'⟩ := bind_eq_ok.1 hr'
      cases hr'
    · cases hr

theorem length_lt_of_handle {readers : CardReaders σ} {c : Client σ} {h : VSCMsgHeader} {b : Bytes}
    {r : Bool × Client σ} (hr : c.handle readers h b = .ok r)
    (htype : h.type = VSCMsgType.init.value) (hmagic : b.take 4 = vscardMagic) :
    h.length.toNat < 16 := by
  unfold Client.handle at hr
  rw [htype, if_neg (by decide), if_neg (by decide), if_neg (by decide), if_pos rfl] at hr
  obtain ⟨init, hinit, hr⟩ := bind_eq_ok.1 hr
  obtain ⟨r', hr', -⟩ := bind_eq_ok.1 hr
  unfold readBytes at hinit
  split_ifs at hinit
  cases hinit
  refine length_lt_of_onHostInit hr' ?_
  rw [List.drop_zero, List.take_take, Nat.min_eq_left (by decide), hmagic]

end HandedOn

section Runs

theorem SocketReader.onHeader_ok {s : SocketReader} (h : s.Ok) (hstate : s.state = .header)
    (hlen : (VSCMsgHeader.decode s.headerBytes.1).Handled →
      (VSCMsgHeader.decode s.headerBytes.1).length.toNat ≤ apduBufSize) : s.onHeader.2.Ok := by
  unfold onHeader
  dsimp only
  split_ifs with hh
  · refine ⟨?_, fun _ => rfl, fun h' => ?_, fun _ => hh, fun _ => hlen hh⟩
    · simpa [room] using hlen hh
    · cases h'
  · refine ⟨h.inBounds, h.inMessage, h.inHeader, fun h' => ?_, fun h' => ?_⟩ <;>
      exact absurd (hstate.symm.trans h') (by decide)

/-- A call that returns keeps what holds of the variables, if the header it reads fits. -/
theorem SocketReader.Ok.of_doSocketRead {c c' : VscClient σ} {r : SocketRead} (h : c.socket.Ok)
    (hlen : ∀ hd ∈ c.headerRead, hd.Handled → hd.length.toNat ≤ apduBufSize)
    (hr : doSocketRead readers c = .ok (r, c')) : c'.socket.Ok := by
  obtain ⟨s', hreads, hcalled⟩ := doSocketRead_called readers h
  have hs' : s'.Ok := hreads.ok h.enter (List.length_take_le _ _)
  have hstate := c.socket.enter_state
  rw [hr] at hcalled
  generalize hx : (Except.ok (r, c') : Except Fault (SocketRead × VscClient σ)) = x at hcalled
  rcases hcalled with hlt | ⟨hle, hphase⟩ | ⟨hle, hphase⟩
  · cases hx
    exact hs'
  · cases hx
    refine onHeader_ok hs' (by rw [hreads.state, hstate, hphase]) ?_
    rw [hreads.headerBytes (h.enter_header hphase).1]
    refine hlen _ ?_
    rw [VscClient.headerRead, if_pos ⟨hstate.trans hphase, hle⟩]
    rfl
  · obtain ⟨⟨goesOn, client⟩, -, hx⟩ := bind_eq_ok.1 hx.symm
    cases hx
    have hdone : s'.toRead = 0 := by
      rw [hreads.toRead, List.length_take, Nat.min_eq_left hle, Nat.sub_self]
    rcases goesOn
    · exact hs'
    · exact ⟨hs'.inBounds, fun h' => (by cases h'), fun _ h₀ => absurd hdone h₀.ne',
        fun h' => (by cases h'), fun h' => (by cases h')⟩

/-- A call that reads a message that fits returns. -/
theorem doSocketRead_eq_ok (readers : CardReaders σ) {c : VscClient σ} (h : c.socket.Ok)
    (hfits : c.Fits) : ∃ r, doSocketRead readers c = .ok r := by
  obtain ⟨s', hreads, hcalled⟩ := doSocketRead_called readers h
  have hs' : s'.Ok := hreads.ok h.enter (List.length_take_le _ _)
  have hstate := c.socket.enter_state
  generalize doSocketRead readers c = r at hcalled
  rcases hcalled with hlt | ⟨hle, hphase⟩ | ⟨hle, hphase⟩
  · exact ⟨_, rfl⟩
  · exact ⟨_, rfl⟩
  · have hs'phase : s'.state = .message := hreads.state.trans (hstate.trans hphase)
    obtain ⟨r, hr⟩ := handle_eq_ok readers c.client (b := s'.pbSendBuffer)
      (hs'.handled hs'phase) (hs'.length_le hs'phase) (by
        rw [hreads.mhHeader, hreads.pbSendBuffer (h.enter.inMessage (hstate.trans hphase))]
        refine hfits.capabilities (_, _) ?_
        rw [VscClient.messageRead, if_pos ⟨hstate.trans hphase, hle⟩]
        rfl)
    rw [hr]
    exact ⟨_, rfl⟩

/-- A step that starts well and reads a message that fits ends well. -/
theorem socketStep_ok (readers : CardReaders σ) {c : VscClient σ} (h : c.socket.Ok)
    (ev : SocketEvent) (hfits : ev = .call → c.Fits) :
    ∃ o c', socketStep readers c ev = .ok (o, c') ∧ c'.socket.Ok := by
  rcases ev with piece | _
  · exact ⟨none, _, rfl, h⟩
  obtain ⟨⟨r, c'⟩, hr⟩ := doSocketRead_eq_ok readers h (hfits rfl)
  refine ⟨some r, c', ?_, h.of_doSocketRead (hfits rfl).length hr⟩
  rw [socketStep, hr]
  rfl

/-- A step that ends inside the buffers read a message that fits. -/
theorem fits_of_socketStep {readers : CardReaders σ} {c c' : VscClient σ} {o : Option SocketRead}
    (h : c.socket.Ok) (hstep : socketStep readers c .call = .ok (o, c')) (hin : c'.InBounds) :
    c.Fits := by
  obtain ⟨s', hreads, hcalled⟩ := doSocketRead_called readers h
  have hstate := c.socket.enter_state
  unfold socketStep at hstep
  generalize doSocketRead readers c = r at hcalled hstep
  rcases hcalled with hlt | ⟨hle, hphase⟩ | ⟨hle, hphase⟩
  · constructor
    · intro hd hmem
      rw [VscClient.headerRead, if_neg fun h' => Nat.not_le_of_lt hlt h'.2] at hmem
      cases hmem
    · intro m hmem
      rw [VscClient.messageRead, if_neg fun h' => Nat.not_le_of_lt hlt h'.2] at hmem
      cases hmem
  · constructor
    · intro hd hmem hh
      rw [VscClient.headerRead, if_pos ⟨hstate.trans hphase, hle⟩, Option.mem_some_iff,
        ← hreads.headerBytes (h.enter_header hphase).1] at hmem
      cases hstep
      subst hmem
      simpa [VscClient.InBounds, SocketReader.onHeader, hh, SocketReader.room] using hin
    · intro m hmem
      rw [VscClient.messageRead, if_neg fun h' => by rw [hstate, hphase] at h'; cases h'.1] at hmem
      cases hmem
  · constructor
    · intro hd hmem
      rw [VscClient.headerRead, if_neg fun h' => by rw [hstate, hphase] at h'; cases h'.1] at hmem
      cases hmem
    · intro m hmem htype hmagic
      rw [VscClient.messageRead, if_pos ⟨hstate.trans hphase, hle⟩, Option.mem_some_iff,
        ← hreads.pbSendBuffer (h.enter.inMessage (hstate.trans hphase)), ← hreads.mhHeader]
        at hmem
      subst hmem
      obtain ⟨r', hr', -⟩ := bind_eq_ok.1 hstep
      obtain ⟨r, hr, -⟩ := bind_eq_ok.1 hr'
      exact length_lt_of_handle hr htype hmagic

/-- The reader stays inside its buffers, and on_host_init inside the capabilities it was given,
just as long as every message fits. -/
theorem inBounds_iff_fits (readers : CardReaders σ) (world : σ) (events : List SocketEvent) :
    Safe (socketStep readers) VscClient.InBounds (.start world) events ↔
      Along (socketStep readers) (fun c ev => ev = .call → c.Fits) (.start world) events :=
  safe_iff (I := fun c : VscClient σ => c.socket.Ok) (fun _ h => h.inBounds)
    (fun _ ev h hP => socketStep_ok readers h ev hP)
    (fun _ _ _ _ h hstep hin hev => fits_of_socketStep h (hev ▸ hstep) hin) events
    SocketReader.start_ok

/-- CardReaders that have no card. -/
def CardReaders.empty : CardReaders Unit := ⟨fun _ _ _ _ => (.noCard, [], ())⟩

/-- A header that announces 271 bytes, and a VSC_Init with two capabilities. -/
theorem longMessages_not_inBounds :
    ¬ Safe (socketStep .empty) VscClient.InBounds (.start ())
        [.arrive (VSCMsgHeader.encode ⟨7, 0, 271⟩), .call]
      ∧ ¬ Safe (socketStep .empty) VscClient.InBounds (.start ())
        [.arrive (VSCMsgHeader.encode ⟨1, 0, 16⟩ ++ (vscardMagic ++ List.replicate 12 0)), .call,
          .call] := by
  constructor
  · intro h
    obtain ⟨os, c, hrun, hin⟩ := h.run
    have : ((run (socketStep .empty) (.start ())
        [.arrive (VSCMsgHeader.encode ⟨7, 0, 271⟩), .call]).toOption.map
          fun r => decide (r.2.socket.buf + r.2.socket.toRead ≤ r.2.socket.room)) = some false := by
      decide +kernel
    rw [hrun] at this
    simp [Except.toOption] at this
    exact absurd hin (Nat.not_le_of_lt this)
  · intro h
    obtain ⟨os, c, hrun, -⟩ := h.run
    have : (run (socketStep .empty) (.start ())
        [.arrive (VSCMsgHeader.encode ⟨1, 0, 16⟩ ++ (vscardMagic ++ List.replicate 12 0)), .call,
          .call]).toBool = false := by
      decide +kernel
    rw [hrun] at this
    cases this

end Runs

end Libcacard
