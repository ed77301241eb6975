import Libcacard.ApduReplies
import Libcacard.Proofs.SocketRead
import Libcacard.Proofs.Transfer
import Libcacard.Proofs.VReaderList

/-!
# When a command gets its reply

A reply has the number 0 for its reader, and the lock of a reader that was not found is taken all
the same. So it is the commands to a reader with the number 0 that get theirs.
-/

namespace Libcacard

open Machine

variable {τ σ : Type} {emul : Emul τ}

section Switch

/-- A command that gets through is handled as by the client that knows of no faults. -/
theorem onApdu_of_onApduMessage {c c' : Client (ReaderWorld τ)} {h : VSCMsgHeader} {command : Bytes}
    (hc : c.onApduMessage emul h command = .ok c') : c.onApdu (.ofWorld emul) h command = c' := by
  obtain ⟨reader, hreader, hc⟩ := bind_eq_ok.1 hc
  obtain ⟨⟨status, reply, world⟩, hxfr, hc⟩ := bind_eq_ok.1 hc
  have hreaders : (CardReaders.ofWorld emul).xfrBytes c.world c.readerId h.readerId command
      = (status, reply, world) := by
    simp only [CardReaders.ofWorld, hreader, ok_bind, hxfr]
  rw [Client.onApdu, hreaders]
  dsimp only at hc ⊢
  split_ifs at hc ⊢
  · exact Except.ok.inj hc
  · exact Except.ok.inj hc

theorem handle_of_dispatch {c : Client (ReaderWorld τ)} {h : VSCMsgHeader} {b : Bytes}
    {r : Bool × Client (ReaderWorld τ)} (hr : c.dispatch emul h b = .ok r) :
    c.handle (.ofWorld emul) h b = .ok r := by
  unfold Client.dispatch at hr
  split_ifs at hr with htype
  · obtain ⟨command, hcommand, hr⟩ := bind_eq_ok.1 hr
    obtain ⟨c', hc', hr⟩ := bind_eq_ok.1 hr
    rw [Client.handle, if_pos htype, hcommand, ok_bind, onApdu_of_onApduMessage hc']
    exact hr
  · exact hr

/-- A call that completes a message hands it to the switch. -/
theorem doSocketReadBy_message
    (dispatch : Client σ → VSCMsgHeader → Bytes → Except Fault (Bool × Client σ)) {c : VscClient σ}
    {h : VSCMsgHeader} {b : Bytes} (hok : c.socket.Ok) (hread : c.messageRead = some (h, b)) :
    h.length.toNat ≤ b.length ∧ ∃ s' : SocketReader, doSocketReadBy dispatch c = do
      let r ← dispatch c.client h b
      return (⟨r.1, some ⟨h, b.take h.length.toNat⟩⟩,
        ⟨if r.1 then { s' with state := .header } else s', r.2,
          c.unread.drop c.socket.enter.toRead⟩) := by
  have hbounds := hok.enter
  have hstate := c.socket.enter_state
  unfold VscClient.messageRead at hread
  generalize hs : c.socket.enter = s at hbounds hstate hread
  dsimp only at hread
  split_ifs at hread with hphase
  obtain ⟨rfl, rfl⟩ := Prod.mk.inj (Option.some.inj hread)
  obtain ⟨hmessage, hle⟩ := hphase
  obtain ⟨s', hreads, hgot⟩ := SocketReader.read_eq_ok hbounds.inBounds c.unread
  have hlen : (c.unread.take s.toRead).length = s.toRead := by
    rw [List.length_take, Nat.min_eq_left hle]
  have hroom := hbounds.inBounds
  rw [SocketReader.room_message (hbounds.inMessage hmessage)] at hroom
  refine ⟨?_, s', ?_⟩
  · rw [length_splice (by rw [hlen, s.pbSendBuffer.2]; exact hroom), s.pbSendBuffer.2]
    exact hbounds.length_le hmessage
  · have hdone : s'.toRead = 0 := by
      rw [hgot.toRead, hlen, Nat.sub_self]
    unfold doSocketReadBy
    simp only [hs, Nat.min_eq_left hle, hreads, ok_bind, pure_eq]
    rw [if_neg (not_not.2 hdone), hgot.state, hmessage]
    dsimp only
    rw [hgot.mhHeader, hgot.pbSendBuffer (hbounds.inMessage hmessage)]

end Switch

section Reply

variable {c : Client (ReaderWorld τ)} {registered : Registry ℕ} {m : Message}

theorem getReaderById_eq (hlist : ListExact c.world.readers registered) (id : UInt32) :
    vreaderGetReaderById c.world.readers c.readerId id
      = .ok (c.readerWithId (registered.entries.map Prod.snd) id) :=
  hlist.lookups.byId c.readerId id

/-- A reader that is not there is not there for the transfer either. -/
theorem onApduMessage_missing {command : Bytes} {h : VSCMsgHeader}
    (hlist : ListExact c.world.readers registered)
    (hnone : c.readerWithId (registered.entries.map Prod.snd) h.readerId = none) :
    c.onApduMessage emul h command = .error .nullPointer := by
  rw [Client.onApduMessage, getReaderById_eq hlist, hnone]
  rfl

/-- What is sent for a command to a reader without a card. -/
theorem onApduMessage_empty {command : Bytes} {h : VSCMsgHeader} {reader : ℕ}
    (hlist : ListExact c.world.readers registered)
    (hreader : c.readerWithId (registered.entries.map Prod.snd) h.readerId = some reader)
    (hcard : c.world.card reader = none) :
    ∃ c', c.onApduMessage emul h command = .ok c' ∧ c'.sent = c.sent
      ++ [⟨⟨VSCMsgType.error.value, 0, 4⟩, VReaderStatus.noCard.bytes, none⟩] := by
  have hxfr : c.world.xfrBytes emul (some reader) command = .ok (.noCard, [],
      { c.world with card := Function.update c.world.card reader none }) := by
    rw [ReaderWorld.xfrBytes, hcard]
    rfl
  rw [Client.onApduMessage, getReaderById_eq hlist, hreader, ok_bind, hxfr, ok_bind]
  exact ⟨_, rfl, rfl⟩

/-- What is sent for the bytes of a card. -/
theorem onApduMessage_card {command : Bytes} {h : VSCMsgHeader} {reader : ℕ} {card : VCard τ}
    {x : Xfr τ} (hlist : ListExact c.world.readers registered)
    (hreader : c.readerWithId (registered.entries.map Prod.snd) h.readerId = some reader)
    (hcard : c.world.card reader = some card)
    (hx : vreaderXfrBytes emul (some card) command apduBufSize = .ok x) (hstatus : x.status = .ok)
    (hlen : x.receiveBufLen = x.receiveBuf.length) :
    ∃ c', c.onApduMessage emul h command = .ok c' ∧ c'.sent = c.sent
      ++ [⟨⟨VSCMsgType.apdu.value, 0, UInt32.ofNat x.receiveBuf.length⟩, x.receiveBuf, none⟩] := by
  have hxfr : c.world.xfrBytes emul (some reader) command = .ok (.ok, x.receiveBuf,
      { c.world with card := Function.update c.world.card reader x.card }) := by
    rw [ReaderWorld.xfrBytes, hcard, hx]
    simp only [ok_bind, pure_eq, hstatus, hlen, List.take_length]
  rw [Client.onApduMessage, getReaderById_eq hlist, hreader, ok_bind, hxfr, ok_bind]
  exact ⟨_, rfl, rfl⟩

/-- Whatever is sent has the number 0. -/
theorem onApduMessage_sent {c' : Client (ReaderWorld τ)} {command : Bytes} {h : VSCMsgHeader}
    (hc : c.onApduMessage emul h command = .ok c') :
    ∃ reply, c'.sent = c.sent ++ [reply] ∧ reply.header.readerId = 0 := by
  obtain ⟨reader, -, hc⟩ := bind_eq_ok.1 hc
  obtain ⟨⟨status, reply, world⟩, -, hc⟩ := bind_eq_ok.1 hc
  dsimp only at hc
  split_ifs at hc
  · cases hc
    exact ⟨_, rfl, rfl⟩
  · cases hc
    exact ⟨_, rfl, rfl⟩

end Reply

/-- No more is copied than there is room for. -/
theorem receiveBufLen_le {card : Option (VCard τ)} {command : Bytes} {n : ℕ} {x : Xfr τ}
    (hx : vreaderXfrBytes emul card command n = .ok x) : x.receiveBufLen ≤ n := by
  rcases card with _ | card
  · cases hx
    exact le_rfl
  unfold vreaderXfrBytes at hx
  obtain ⟨parsed, -, hx⟩ := bind_eq_ok.1 hx
  dsimp only at hx
  rcases parsed with status | apdu
  all_goals
    obtain ⟨r, -, hx⟩ := bind_eq_ok.1 hx
    split_ifs at hx
    · cases hx
      exact Nat.zero_le n
    · split at hx
      · obtain ⟨_, -, hx⟩ := bind_eq_ok.1 hx
        cases hx
        exact Nat.min_le_left ..
      · cases hx

section Calls

variable {c : VscClient (ReaderWorld τ)} {registered : Registry ℕ} {h : VSCMsgHeader} {b : Bytes}

/-- A call that completes a command, by what the switch does with it. -/
theorem doSocketReadBy_apdu (hok : c.socket.Ok) (hread : c.messageRead = some (h, b))
    (htype : h.type = VSCMsgType.apdu.value) :
    ∃ s' : SocketReader, doSocketReadBy (Client.dispatch emul) c = do
      let client ← c.client.onApduMessage emul h (b.take h.length.toNat)
      return (⟨true, some ⟨h, b.take h.length.toNat⟩⟩,
        ⟨{ s' with state := .header }, client, c.unread.drop c.socket.enter.toRead⟩) := by
  obtain ⟨hlen, s', hcall⟩ := doSocketReadBy_message (Client.dispatch emul) hok hread
  refine ⟨s', hcall.trans ?_⟩
  rw [Client.dispatch, if_pos htype, readBytes_of_le (by omega), ok_bind, List.drop_zero]
  rcases c.client.onApduMessage emul h (b.take h.length.toNat) with e | client <;> rfl

/-- Only a command for a registered reader with the number 0 gets its reply. -/
theorem RepliesTo.found (hok : c.socket.Ok) (hlist : ListExact c.client.world.readers registered)
    (hread : c.messageRead = some (h, b)) (htype : h.type = VSCMsgType.apdu.value)
    (hreplies : RepliesTo emul (registered.entries.map Prod.snd) c ⟨h, b.take h.length.toNat⟩) :
    h.readerId = 0 ∧ ∃ reader,
      c.client.readerWithId (registered.entries.map Prod.snd) h.readerId = some reader := by
  obtain ⟨s', hcall⟩ := @doSocketReadBy_apdu _ emul _ _ _ hok hread htype
  obtain ⟨r, c', reply, hr, -, hsent, hanswers⟩ := hreplies
  rw [hcall] at hr
  obtain ⟨client, hmessage, hr⟩ := bind_eq_ok.1 hr
  cases hr
  obtain ⟨reply', hsent', hzero⟩ := onApduMessage_sent hmessage
  obtain ⟨rfl, -⟩ := List.cons.inj (List.append_cancel_left (hsent.symm.trans hsent'))
  have hid := hanswers.readerId
  rw [VSCMsgHeader.decode_encode, hzero] at hid
  refine ⟨hid.symm, Option.ne_none_iff_exists'.1 fun hnone => ?_⟩
  rw [onApduMessage_missing hlist hnone] at hmessage
  cases hmessage

/-- A command gets the reply that is meant for it just if it is for a registered reader with the
number 0, whose card, if there is one, has an answer that fits. -/
theorem repliesTo_iff {digest : Bytes → Option Bytes} (hok : c.socket.Ok)
    (hlist : ListExact c.client.world.readers registered)
    (hcards : ∀ r card, c.client.world.card r = some card → Reachable emul digest card)
    (hread : c.messageRead = some (h, b)) (htype : h.type = VSCMsgType.apdu.value) :
    RepliesTo emul (registered.entries.map Prod.snd) c ⟨h, b.take h.length.toNat⟩
      ↔ h.readerId = 0 ∧ ∃ reader,
        c.client.readerWithId (registered.entries.map Prod.snd) h.readerId = some reader
        ∧ ∀ card, c.client.world.card reader = some card →
          ∀ apdu, vcardApduNew (b.take h.length.toNat) = .ok (.ok apdu) →
            SigningFits card apdu ∧ ObjectFits emul card apdu ∧ ¬ LongAnswer emul card apdu := by
  constructor
  · intro hreplies
    obtain ⟨hzero, reader, hreader⟩ := hreplies.found hok hlist hread htype
    refine ⟨hzero, reader, hreader, fun card hcard => ?_⟩
    obtain ⟨r, c', reply, -, -, -, hanswers⟩ := hreplies
    have hwhole := (hanswers.answer card (by rw [hreader]; exact hcard)).2.1
    exact (xfrWhole_iff (hcards reader card hcard).cardOk _).1 hwhole
  · rintro ⟨hzero, reader, hreader, hfits⟩
    obtain ⟨s', hcall⟩ := @doSocketReadBy_apdu _ emul _ _ _ hok hread htype
    rcases hcard : c.client.world.card reader with _ | card
    · obtain ⟨client, hmessage, hsent⟩ :=
        @onApduMessage_empty _ emul _ _ (b.take h.length.toNat) _ _ hlist hreader hcard
      rw [hmessage] at hcall
      refine ⟨_, _, _, hcall, rfl, hsent, ?_, rfl, fun card hsome => ?_, fun _ => rfl⟩
      · rw [VSCMsgHeader.decode_encode, hzero]
      · rw [hreader, Option.bind_some, hcard] at hsome
        cases hsome
    · have hwhole := (xfrWhole_iff (hcards reader card hcard).cardOk _).2 (hfits card hcard)
      have hwhole' := hwhole
      obtain ⟨x, data, sw1, sw2, hx, hstatus, hsize, -⟩ := hwhole'
      obtain ⟨client, hmessage, hsent⟩ := onApduMessage_card hlist hreader hcard hx hstatus hsize
      rw [hmessage] at hcall
      have hle : x.receiveBuf.length ≤ apduBufSize := hsize ▸ receiveBufLen_le hx
      rw [apduBufSize] at hle
      refine ⟨_, _, _, hcall, rfl, hsent, ?_, ?_, fun card' hsome => ?_, fun hnone => ?_⟩
      · rw [VSCMsgHeader.decode_encode, hzero]
      · rw [UInt32.toNat_ofNat', Nat.mod_eq_of_lt (by omega)]
      · rw [hreader, Option.bind_some, hcard] at hsome
        cases hsome
        exact ⟨rfl, hwhole, x, hx, rfl⟩
      · rw [hreader, Option.bind_some, hcard] at hnone
        cases hnone

end Calls

/-- A client with one reader, numbered `readerId`, when a command of four bytes for the reader `id`
has come in. -/
def commandClient (readerId id : UInt32) (card : Option (VCard τ)) : VscClient (ReaderWorld τ) where
  socket := { SocketReader.start with
    state := .message, inMessage := true, toRead := 4, mhHeader := ⟨VSCMsgType.apdu.value, id, 4⟩ }
  client := { Client.start ⟨⟨[some ⟨none, none, 0⟩], ⟨some 0, some 0⟩⟩, fun _ => card⟩ with
    readerId := fun _ => readerId }
  unread := [0x00, 0xc0, 0x00, 0x00]

/-- What `pbSendBuffer` has then. -/
def commandBuffer : Bytes := [0x00, 0xc0, 0x00, 0x00] ++ List.replicate 266 0

theorem commandClient_ok (readerId id : UInt32) (card : Option (VCard τ)) :
    (commandClient readerId id card).socket.Ok := by
  refine ⟨show 0 + 4 ≤ 270 by decide, fun _ => rfl, fun h => ?_, fun _ => ?_,
    fun _ => show (4 : UInt32).toNat ≤ 270 by decide⟩
  · cases h
  · simp [VSCMsgHeader.Handled, commandClient]

theorem commandClient_list (readerId id : UInt32) (card : Option (VCard τ)) :
    ListExact (commandClient readerId id card).client.world.readers ⟨1, [(0, 0)]⟩ := by
  obtain ⟨s', hs', hexact⟩ := vreaderAddReader_exact (@listExact_init ℕ) 0
  cases hs'
  exact hexact

theorem commandClient_read (readerId id : UInt32) (card : Option (VCard τ)) :
    (commandClient readerId id card).messageRead
      = some (⟨VSCMsgType.apdu.value, id, 4⟩, commandBuffer) := rfl

/-- GET RESPONSE for a card without anything pending, in the reader with the number 0. -/
theorem repliesTo_getResponse : ∃ card,
    vcardEmulMakeCard (Emul.plain none nofun) (fun _ => none) () .initial [] = .ok (.done, card)
      ∧ RepliesTo (Emul.plain none nofun) [0] (commandClient 0 0 (some card))
        ⟨⟨VSCMsgType.apdu.value, 0, 4⟩, [0x00, 0xc0, 0x00, 0x00]⟩ := by
  obtain ⟨card, hmade, -⟩ := exists_of_madeWith (show madeWith (fun _ => true)
    (vcardEmulMakeCard (Emul.plain none nofun) (fun _ => none) () .initial []) by decide +kernel)
  have hcards : ∀ r card', (commandClient 0 0 (some card)).client.world.card r = some card' →
      Reachable (Emul.plain none nofun) (fun _ => none) card' := by
    rintro r card' hcard
    cases hcard
    exact .made hmade
  refine ⟨card, hmade, (repliesTo_iff (commandClient_ok 0 0 (some card))
    (commandClient_list 0 0 (some card)) hcards (commandClient_read 0 0 (some card)) rfl).2
    ⟨rfl, 0, rfl, fun card' hcard apdu _ => ?_⟩⟩
  cases hcard
  exact (vcardEmulMakeCard_fresh hmade).fits _ apdu

/-- For the reader 1 the reply says 0, and the lock of the reader 5, which is missing, is taken. -/
theorem repliesTo_fails :
    ¬ RepliesTo (Emul.plain none nofun) [0] (commandClient 1 1 none)
        ⟨⟨VSCMsgType.apdu.value, 1, 4⟩, [0x00, 0xc0, 0x00, 0x00]⟩
      ∧ ¬ RepliesTo (Emul.plain none nofun) [0] (commandClient 1 5 none)
        ⟨⟨VSCMsgType.apdu.value, 5, 4⟩, [0x00, 0xc0, 0x00, 0x00]⟩
      ∧ doSocketReadBy (Client.dispatch (Emul.plain none nofun)) (commandClient 1 5 none)
        = .error .nullPointer := by
  have hfault : doSocketReadBy (Client.dispatch (Emul.plain none nofun)) (commandClient 1 5 none)
      = .error .nullPointer := by
    obtain ⟨s', hcall⟩ := @doSocketReadBy_apdu _ (Emul.plain none nofun) _ _ _
      (commandClient_ok 1 5 none) (commandClient_read 1 5 none) rfl
    rw [hcall, onApduMessage_missing (commandClient_list 1 5 none) (by decide)]
    rfl
  refine ⟨fun h => ?_, ?_, hfault⟩
  · have hfound := @RepliesTo.found _ _ (commandClient 1 1 none) ⟨1, [(0, 0)]⟩
      ⟨VSCMsgType.apdu.value, 1, 4⟩ commandBuffer (commandClient_ok 1 1 none)
      (commandClient_list 1 1 none) (commandClient_read 1 1 none) rfl h
    exact absurd hfound.1 (by decide)
  · rintro ⟨r, c', reply, hr, -⟩
    rw [hfault] at hr
    cases hr

end Libcacard
